import Chip8.Text.Integer
import Mathlib.Data.List.TakeWhile
import Mathlib.Data.Nat.Digits.Defs

/-!
# The grammar of numerals

Main statement: `read?_eq_some_iff`, a text without white space is read as an integer if and only if it is a
numeral of that integer.
-/

namespace Chip8.Text.Integer

/-- The characters are these digits, with at most one underscore between two of them. -/
inductive Digits : List Char → List Nat → Prop where
  | last {c : Char} {d : Nat} (value : digitValue? c = some d) : Digits [c] [d]
  | next {c : Char} {d : Nat} {cs : List Char} {ds : List Nat} (value : digitValue? c = some d)
      (others : Digits cs ds) : Digits (c :: cs) (d :: ds)
  | underscore {c : Char} {d : Nat} {cs : List Char} {ds : List Nat} (value : digitValue? c = some d)
      (others : Digits cs ds) : Digits (c :: '_' :: cs) (d :: ds)

/-- The text is an optional sign and at most `digitLimit` decimal digits, of value `n`. -/
inductive Numeral : List Char → Int → Prop where
  | unsigned {cs : List Char} {ds : List Nat} (digits : Digits cs ds) (short : ds.length ≤ digitLimit) :
      Numeral cs (Nat.ofDigits 10 ds.reverse : Nat)
  | plus {cs : List Char} {ds : List Nat} (digits : Digits cs ds) (short : ds.length ≤ digitLimit) :
      Numeral ('+' :: cs) (Nat.ofDigits 10 ds.reverse : Nat)
  | minus {cs : List Char} {ds : List Nat} (digits : Digits cs ds) (short : ds.length ≤ digitLimit) :
      Numeral ('-' :: cs) (-(Nat.ofDigits 10 ds.reverse : Nat))

/-! ## Unsigned numerals -/

theorem digitsFrom?_of_digits {cs : List Char} {ds : List Nat} (digits : Digits cs ds) (afterDigit : Bool) :
    digitsFrom? afterDigit cs = some ds := by
  have separator : digitValue? '_' = none := by decide
  have solid {c : Char} {d : Nat} (value : digitValue? c = some d) : c ≠ '_' := by
    rintro rfl
    simp [separator] at value
  induction digits generalizing afterDigit with
  | last value => simp [digitsFrom?, solid value, value]
  | next value others ih => simp [digitsFrom?, solid value, value, ih]
  | underscore value others ih => simp [digitsFrom?, solid value, value, ih]

/-- Behind a digit there may be nothing, more digits, or an underscore and then digits. -/
theorem digits_of_digitsFrom? {afterDigit : Bool} {cs : List Char} {ds : List Nat}
    (digits : digitsFrom? afterDigit cs = some ds) :
    Digits cs ds ∨ afterDigit = true ∧ (cs = [] ∧ ds = [] ∨ ∃ rest, cs = '_' :: rest ∧ Digits rest ds) := by
  fun_induction digitsFrom? afterDigit cs generalizing ds with
  | case1 => simp_all
  | case2 => simp at digits
  | case3 rest ih => simpa using Or.inr (ih digits)
  | case4 => simp at digits
  | case5 afterDigit c rest underscore d value ih =>
      obtain ⟨ds, more, rfl⟩ := Option.map_eq_some_iff.1 digits
      obtain others | ⟨-, ⟨rfl, rfl⟩ | ⟨rest, rfl, others⟩⟩ := ih more
      · exact Or.inl (.next value others)
      · exact Or.inl (.last value)
      · exact Or.inl (.underscore value others)
  | case6 => simp at digits

theorem digitsFrom?_iff {cs : List Char} {ds : List Nat} : digitsFrom? false cs = some ds ↔ Digits cs ds :=
  ⟨fun digits => (digits_of_digitsFrom? digits).resolve_right (by simp),
    fun digits => digitsFrom?_of_digits digits false⟩

theorem ofDigits_eq (ds : List Nat) : ofDigits ds = Nat.ofDigits 10 ds.reverse := by
  rw [Nat.ofDigits_eq_foldr, List.foldr_reverse]
  simp only [ofDigits, Nat.cast_id, Nat.add_comm]

theorem natural?_eq_some_iff {cs : List Char} {n : Nat} :
    natural? cs = some n ↔
      ∃ ds, Digits cs ds ∧ ds.length ≤ digitLimit ∧ n = Nat.ofDigits 10 ds.reverse := by
  simp only [← digitsFrom?_iff, ← ofDigits_eq, natural?]
  cases digitsFrom? false cs with
  | none => simp
  | some ds => simp [eq_comm]

/-! ## Signs -/

theorem trim_of_solid {text : List Char} (solid : ∀ c ∈ text, isBlank c = false) : trim text = text := by
  have kept (c : Char) (member : c ∈ text) : ¬ isPadding c = true := by
    simp [isPadding, solid c member]
  have untouched {cs : List Char} (kept : ∀ c ∈ cs, ¬ isPadding c = true) : cs.dropWhile isPadding = cs :=
    List.dropWhile_eq_self_iff.2 fun nonempty => kept _ (List.getElem_mem nonempty)
  rw [trim, untouched kept, untouched fun c member => kept c (List.mem_reverse.1 member),
    List.reverse_reverse]

theorem Digits.unsigned {cs : List Char} {ds : List Nat} (digits : Digits cs ds) (rest : List Char) :
    cs ≠ '+' :: rest ∧ cs ≠ '-' :: rest := by
  have plus : digitValue? '+' = none := by decide
  have minus : digitValue? '-' = none := by decide
  cases digits <;> constructor <;> rintro ⟨⟩ <;> simp_all

theorem read?_eq_some_iff {text : List Char} (solid : ∀ c ∈ text, isBlank c = false) {n : Int} :
    read? text = some n ↔ Numeral text n := by
  rw [read?, trim_of_solid solid]
  constructor
  · intro read
    split at read
    all_goals
      obtain ⟨value, natural, rfl⟩ := Option.map_eq_some_iff.1 read
      obtain ⟨ds, digits, short, rfl⟩ := natural?_eq_some_iff.1 natural
    · exact .plus digits short
    · exact .minus digits short
    · exact .unsigned digits short
  · intro numeral
    cases numeral with
    | plus digits short => simp [natural?_eq_some_iff.2 ⟨_, digits, short, rfl⟩]
    | minus digits short => simp [natural?_eq_some_iff.2 ⟨_, digits, short, rfl⟩]
    | unsigned digits short =>
        have natural := natural?_eq_some_iff.2 ⟨_, digits, short, rfl⟩
        split
        · exact absurd rfl (digits.unsigned _).1
        · exact absurd rfl (digits.unsigned _).2
        · simp [natural]

end Chip8.Text.Integer
