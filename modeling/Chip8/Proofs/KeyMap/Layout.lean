import Chip8.KeyMap.Layout
import Chip8.Proofs.Text.Fields
import Chip8.Proofs.Text.Numerals

/-!
# The grammar of layouts

The lines before the first one with the sentinel must each be blank or assign a host key. Main statement:
`parsed_by_grammar`, which layouts are parsed, which line an error is about, and what map the others give.
-/

namespace Chip8.KeyMap.Layout

open Text (AllBlank SplitsInto fields_eq_iff splitsInto_nil_iff)
open Text.Integer (Numeral read? read?_eq_some_iff)

/-! ## Lines -/

def HasSentinel (text : String) : Prop :=
  sentinel <:+: text.toList

def IsBlank (text : String) : Prop :=
  AllBlank text.toList

/-- The line consists of two fields, numerals of `key` and of `host`. -/
def Assigns (text : String) (key : Nibble) (host : Int) : Prop :=
  ∃ first second, SplitsInto text.toList [first, second] ∧ Numeral first (key.val : Int) ∧ Numeral second host

def Accepted (text : String) : Prop :=
  IsBlank text ∨ ∃ key host, Assigns text key host

/-- What is wrong with a line that is neither blank nor assigns a host key. -/
inductive Spoils (text : String) : Problem → Prop where
  | fieldCount {parts : List (List Char)} (splits : SplitsInto text.toList parts)
      (notBlank : parts.length ≠ 0) (notTwo : parts.length ≠ 2) : Spoils text .fieldCount
  | notIntegers {first second : List Char} (splits : SplitsInto text.toList [first, second])
      (notBoth : (∀ n, ¬ Numeral first n) ∨ ∀ n, ¬ Numeral second n) : Spoils text .notIntegers
  | keyOutOfRange {first second : List Char} {key host : Int}
      (splits : SplitsInto text.toList [first, second]) (isKey : Numeral first key)
      (isHost : Numeral second host) (outside : key < 0 ∨ 15 < key) : Spoils text (.keyOutOfRange key)

theorem read?_field {text : List Char} {parts : List (List Char)} (splits : SplitsInto text parts)
    {field : List Char} (member : field ∈ parts) {n : Int} : read? field = some n ↔ Numeral field n :=
  read?_eq_some_iff (splits.isField field member).solid

theorem read?_field_none {text : List Char} {parts : List (List Char)} (splits : SplitsInto text parts)
    {field : List Char} (member : field ∈ parts) : read? field = none ↔ ∀ n, ¬ Numeral field n := by
  simp only [Option.eq_none_iff_forall_ne_some, ne_eq, read?_field splits member]

/-- Sentinels apart, a line is blank, assigns a host key or spoils the layout. -/
theorem line_cases (text : String) :
    IsBlank text ∨ (∃ key host, Assigns text key host) ∨ ∃ problem, Spoils text problem := by
  have splits : SplitsInto text.toList (Text.fields text.toList) := fields_eq_iff.1 rfl
  generalize Text.fields text.toList = parts at splits
  match parts, splits with
  | [], splits => exact Or.inl (splitsInto_nil_iff.1 splits)
  | [first, second], splits =>
      refine Or.inr ?_
      by_cases keys : ∃ key, Numeral first key
      · by_cases hosts : ∃ host, Numeral second host
        · obtain ⟨key, isKey⟩ := keys
          obtain ⟨host, isHost⟩ := hosts
          by_cases inside : 0 ≤ key ∧ key < 16
          · have fits : ((⟨key.toNat, by omega⟩ : Nibble).val : Int) = key := Int.toNat_of_nonneg inside.1
            exact Or.inl ⟨_, host, first, second, splits, by rwa [fits], isHost⟩
          · exact Or.inr ⟨_, .keyOutOfRange splits isKey isHost (by omega)⟩
        · exact Or.inr ⟨_, .notIntegers splits (Or.inr (not_exists.1 hosts))⟩
      · exact Or.inr ⟨_, .notIntegers splits (Or.inl (not_exists.1 keys))⟩
  | [_], splits | _ :: _ :: _ :: _, splits =>
      exact Or.inr (Or.inr ⟨_, .fieldCount splits (by simp) (by simp)⟩)

/-! ## Reading lines -/

theorem containsRun_iff {run text : List Char} : containsRun run text = true ↔ run <:+: text := by
  induction text with
  | nil => simp [containsRun]
  | cons c rest ih => simp [containsRun, ih, List.infix_cons_iff]

instance (text : String) : Decidable (HasSentinel text) :=
  decidable_of_iff _ containsRun_iff

section

variable {text : String}

theorem readLine_of_sentinel (marked : HasSentinel text) : readLine text = .ok .sentinel := by
  rw [readLine, if_pos (containsRun_iff.2 marked)]

variable (unmarked : ¬ HasSentinel text)

include unmarked

theorem readLine_of_blank (blank : IsBlank text) : readLine text = .ok .blank := by
  rw [readLine, if_neg (mt containsRun_iff.1 unmarked), fields_eq_iff.2 (splitsInto_nil_iff.2 blank)]

theorem readLine_of_assigns {key : Nibble} {host : Int} (assigns : Assigns text key host) :
    readLine text = .ok (.entry key host) := by
  obtain ⟨first, second, splits, isKey, isHost⟩ := assigns
  rw [← read?_field splits (by simp)] at isKey isHost
  have fits : (0 : Int) ≤ key.val ∧ (key.val : Int) < 16 := by omega
  rw [readLine, if_neg (mt containsRun_iff.1 unmarked), fields_eq_iff.2 splits]
  simp only [readPair, isKey, isHost, fits, and_self, dif_pos, Int.toNat_natCast]

theorem readLine_of_spoils {problem : Problem} (spoils : Spoils text problem) :
    readLine text = .error problem := by
  rw [readLine, if_neg (mt containsRun_iff.1 unmarked)]
  cases spoils with
  | fieldCount splits notBlank notTwo =>
      rw [fields_eq_iff.2 splits]
      split <;> simp_all
  | @notIntegers first second splits notBoth =>
      rw [fields_eq_iff.2 splits]
      rw [← read?_field_none splits (by simp), ← read?_field_none splits (by simp)] at notBoth
      rcases notBoth with notKey | notHost
      · simp only [readPair, notKey]
      · cases isKey : read? first <;> simp only [readPair, isKey, notHost]
  | @keyOutOfRange first second key host splits isKey isHost outside =>
      have beyond : ¬ (0 ≤ key ∧ key < 16) := by omega
      rw [← read?_field splits (by simp)] at isKey isHost
      rw [fields_eq_iff.2 splits]
      simp only [readPair, isKey, isHost, dif_neg beyond]

theorem not_accepted_of_spoils {problem : Problem} (spoils : Spoils text problem) : ¬ Accepted text := by
  have refused := readLine_of_spoils unmarked spoils
  rintro (blank | ⟨key, host, assigns⟩)
  · rw [readLine_of_blank unmarked blank] at refused
    cases refused
  · rw [readLine_of_assigns unmarked assigns] at refused
    cases refused

end

theorem Assigns.unique {text : String} {key other : Nibble} {host another : Int}
    (assigns : Assigns text key host) (again : Assigns text other another) :
    key = other ∧ host = another := by
  obtain ⟨first, second, splits, isKey, isHost⟩ := assigns
  obtain ⟨first', second', splits', isKey', isHost'⟩ := again
  cases splits.unique splits'
  rw [← read?_field splits (by simp)] at isKey isHost isKey' isHost'
  rw [isKey, Option.some.injEq] at isKey'
  rw [isHost, Option.some.injEq] at isHost'
  exact ⟨Fin.ext (by omega), isHost'⟩

theorem not_assigns_of_blank {text : String} {key : Nibble} {host : Int} (blank : IsBlank text) :
    ¬ Assigns text key host := by
  rintro ⟨first, second, splits, -, -⟩
  cases splits.unique (splitsInto_nil_iff.2 blank)

/-! ## The lines of a layout -/

/-- The lines before the first one with the sentinel. -/
def body (lines : List String) : List String :=
  lines.takeWhile fun text => ¬ HasSentinel text

theorem body_of_sentinel {text : String} (marked : HasSentinel text) (rest : List String) :
    body (text :: rest) = [] := by
  simp [body, marked]

theorem body_of_unmarked {text : String} (unmarked : ¬ HasSentinel text) (rest : List String) :
    body (text :: rest) = text :: body rest := by
  simp [body, unmarked]

/-- What the lines make of the host key for `key`: that of the last line which assigns one, or that of
the table if there is none. -/
inductive Gives (table : Vector Int 16) (lines : List String) (key : Nibble) : Int → Prop where
  | assigned {before after : List String} {text : String} {host : Int}
      (divided : lines = before ++ text :: after) (assigns : Assigns text key host)
      (last : ∀ line ∈ after, ∀ other, ¬ Assigns line key other) : Gives table lines key host
  | unassigned (never : ∀ line ∈ lines, ∀ other, ¬ Assigns line key other) :
      Gives table lines key (table.get key)

section

variable {table : Vector Int 16} {lines : List String} {key : Nibble} {host : Int} {text : String}

theorem Gives.cons_of_other (other : ∀ another, ¬ Assigns text key another)
    (gives : Gives table lines key host) : Gives table (text :: lines) key host := by
  cases gives with
  | @assigned before after line host divided assigns last =>
      have moved : text :: lines = (text :: before) ++ line :: after := by rw [divided, List.cons_append]
      exact .assigned moved assigns last
  | unassigned never => exact .unassigned (List.forall_mem_cons.2 ⟨other, never⟩)

/-- A line that assigns a host key may do so in the table before the other lines are read. -/
theorem Gives.cons_of_assigns {entered : Nibble} {value : Int} (assigns : Assigns text entered value)
    (gives : Gives (table.set entered value entered.isLt) lines key host) :
    Gives table (text :: lines) key host := by
  cases gives with
  | @assigned before after line host divided later last =>
      have moved : text :: lines = (text :: before) ++ line :: after := by rw [divided, List.cons_append]
      exact .assigned moved later last
  | unassigned never =>
      by_cases same : entered = key
      · subst same
        have here : (table.set entered value entered.isLt).get entered = value :=
          Vector.getElem_set_self entered.isLt
        rw [here]
        exact .assigned (List.nil_append _).symm assigns never
      · have kept : (table.set entered value entered.isLt).get key = table.get key :=
          Vector.getElem_set_ne entered.isLt key.isLt (mt Fin.ext same)
        have other : ∀ another, ¬ Assigns text key another :=
          fun another again => same (assigns.unique again).1
        rw [kept]
        exact .unassigned (List.forall_mem_cons.2 ⟨other, never⟩)

end

/-- The error is about the first of the lines, counted from `number`, that is not accepted. -/
def FirstRefused (number : Nat) (lines : List String) (e : Error) : Prop :=
  ∃ before after, lines = before ++ e.text :: after ∧ (∀ line ∈ before, Accepted line) ∧
    ¬ Accepted e.text ∧ Spoils e.text e.problem ∧ e.number = number + before.length

theorem FirstRefused.cons {number : Nat} {lines : List String} {e : Error} {text : String}
    (accepted : Accepted text) (first : FirstRefused (number + 1) lines e) :
    FirstRefused number (text :: lines) e := by
  obtain ⟨before, after, divided, others, refused, spoils, numbered⟩ := first
  refine ⟨text :: before, after, ?_, List.forall_mem_cons.2 ⟨accepted, others⟩, refused, spoils, ?_⟩
  · rw [divided, List.cons_append]
  · rw [numbered, List.length_cons]
    omega

/-! ## Parsing -/

section

variable {number : Nat} {table : Vector Int 16} {text : String} {rest : List String}

theorem parseFrom_of_sentinel (marked : HasSentinel text) :
    parseFrom number table (text :: rest) = .ok { table, raw := true } := by
  rw [parseFrom, readLine_of_sentinel marked]

variable (unmarked : ¬ HasSentinel text)

include unmarked

theorem parseFrom_of_blank (blank : IsBlank text) :
    parseFrom number table (text :: rest) = parseFrom (number + 1) table rest := by
  rw [parseFrom, readLine_of_blank unmarked blank]

theorem parseFrom_of_assigns {key : Nibble} {host : Int} (assigns : Assigns text key host) :
    parseFrom number table (text :: rest) = parseFrom (number + 1) (table.set key host key.isLt) rest := by
  rw [parseFrom, readLine_of_assigns unmarked assigns]

theorem parseFrom_of_spoils {problem : Problem} (spoils : Spoils text problem) :
    parseFrom number table (text :: rest) = .error { number, text, problem } := by
  rw [parseFrom, readLine_of_spoils unmarked spoils]

end

theorem parseFrom_error {number : Nat} {table : Vector Int 16} {lines : List String} {e : Error}
    (parsed : parseFrom number table lines = .error e) : FirstRefused number (body lines) e := by
  induction lines generalizing number table with
  | nil => cases parsed
  | cons text rest ih =>
      by_cases marked : HasSentinel text
      · rw [parseFrom_of_sentinel marked] at parsed
        cases parsed
      rw [body_of_unmarked marked]
      obtain blank | ⟨key, host, assigns⟩ | ⟨problem, spoils⟩ := line_cases text
      · rw [parseFrom_of_blank marked blank] at parsed
        exact (ih parsed).cons (Or.inl blank)
      · rw [parseFrom_of_assigns marked assigns] at parsed
        exact (ih parsed).cons (Or.inr ⟨key, host, assigns⟩)
      · rw [parseFrom_of_spoils marked spoils] at parsed
        cases parsed
        exact ⟨[], body rest, rfl, by simp, not_accepted_of_spoils marked spoils, spoils, rfl⟩

theorem parseFrom_ok {number : Nat} {table : Vector Int 16} {lines : List String} {map : KeyMap}
    (parsed : parseFrom number table lines = .ok map) :
    (∀ line ∈ body lines, Accepted line) ∧ (map.raw = true ↔ ∃ line ∈ lines, HasSentinel line) ∧
      ∀ key : Nibble, Gives table (body lines) key (map.table.get key) := by
  induction lines generalizing number table with
  | nil =>
      cases parsed
      exact ⟨by simp [body], by simp, fun key => .unassigned (by simp [body])⟩
  | cons text rest ih =>
      by_cases marked : HasSentinel text
      · rw [parseFrom_of_sentinel marked] at parsed
        cases parsed
        rw [body_of_sentinel marked]
        exact ⟨by simp, by simp [marked], fun key => .unassigned (by simp)⟩
      rw [body_of_unmarked marked]
      simp only [List.mem_cons, forall_eq_or_imp, exists_eq_or_imp, marked, false_or]
      obtain blank | ⟨entered, host, assigns⟩ | ⟨problem, spoils⟩ := line_cases text
      · rw [parseFrom_of_blank marked blank] at parsed
        obtain ⟨accepted, sentinels, gives⟩ := ih parsed
        exact ⟨⟨Or.inl blank, accepted⟩, sentinels,
          fun key => (gives key).cons_of_other fun _ => not_assigns_of_blank blank⟩
      · rw [parseFrom_of_assigns marked assigns] at parsed
        obtain ⟨accepted, sentinels, gives⟩ := ih parsed
        exact ⟨⟨Or.inr ⟨entered, host, assigns⟩, accepted⟩, sentinels,
          fun key => (gives key).cons_of_assigns assigns⟩
      · rw [parseFrom_of_spoils marked spoils] at parsed
        cases parsed

theorem parse_error_iff {lines : List String} :
    (∃ e, parse lines = .error e) ↔ ∃ line ∈ body lines, ¬ Accepted line := by
  constructor
  · rintro ⟨e, parsed⟩
    obtain ⟨before, after, divided, -, refused, -⟩ := parseFrom_error parsed
    exact ⟨e.text, by simp [divided], refused⟩
  · rintro ⟨line, member, refused⟩
    cases parsed : parse lines with
    | error e => exact ⟨e, rfl⟩
    | ok map => exact absurd ((parseFrom_ok parsed).1 line member) refused

/-- The lines from the sentinel on are not read. -/
theorem parseFrom_append_sentinel {marked another : String} (isMarked : HasSentinel marked)
    (isAnother : HasSentinel another) (before after others : List String) (number : Nat)
    (table : Vector Int 16) :
    parseFrom number table (before ++ marked :: after) =
      parseFrom number table (before ++ another :: others) := by
  induction before generalizing number table with
  | nil =>
      rw [List.nil_append, List.nil_append, parseFrom_of_sentinel isMarked, parseFrom_of_sentinel isAnother]
  | cons text before ih =>
      simp only [List.cons_append, parseFrom, ih]

theorem hostKey_eq_entry {map : KeyMap} (raw : map.raw = false) (k : Int) :
    ∃ key : Nibble, (key.val : Int) = k % 16 ∧ map.hostKey k = map.table.get key := by
  refine ⟨Nibble.ofNat (k % 16).toNat, ?_, ?_⟩
  · rw [Nibble.val_ofNat]
    omega
  · rw [hostKey, raw, if_neg Bool.false_ne_true]
    rfl

/-- A layout is refused if and only if a line before the sentinel is neither blank nor assigns a host key,
and the error is about the first such line. Otherwise each key has the host key of the last line before the
sentinel that assigns one, or the default, and the map is raw if and only if there is a sentinel. -/
theorem parsed_by_grammar (lines : List String) :
    ((∃ e, parse lines = .error e) ↔ ∃ line ∈ body lines, ¬ Accepted line) ∧
      (∀ e, parse lines = .error e →
        FirstRefused 1 (body lines) e ∧ ∃ detail, e.message = s!"line {e.number}: " ++ detail) ∧
      (∀ map, parse lines = .ok map →
        (map.raw = true ↔ ∃ line ∈ lines, HasSentinel line) ∧
          (∀ key : Nibble, Gives defaultTable (body lines) key (map.table.get key)) ∧
          (map.raw = true → ∀ k, map.hostKey k = k) ∧
          (map.raw = false → ∀ k, ∃ key : Nibble,
            (key.val : Int) = k % 16 ∧ map.hostKey k = map.table.get key)) ∧
      ∀ before marked after another others, lines = before ++ marked :: after → HasSentinel marked →
        HasSentinel another → parse lines = parse (before ++ another :: others) := by
  refine ⟨parse_error_iff, fun e parsed => ⟨parseFrom_error parsed, _, rfl⟩, fun map parsed => ?_, ?_⟩
  · obtain ⟨-, sentinels, gives⟩ := parseFrom_ok parsed
    exact ⟨sentinels, gives, fun raw k => by rw [hostKey, if_pos raw], hostKey_eq_entry⟩
  · rintro before marked after another others rfl isMarked isAnother
    exact parseFrom_append_sentinel isMarked isAnother before after others 1 defaultTable

example : parse ["10 97", " ", "+1_6 -3", "TREATASASCII"] =
    .error { number := 3, text := "+1_6 -3", problem := .keyOutOfRange 16 } := by
  decide +kernel

end Chip8.KeyMap.Layout
