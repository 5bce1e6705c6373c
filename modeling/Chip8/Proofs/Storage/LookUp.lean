import Chip8.KeyMap.File

/-!
# Paths that can be looked up

A path without null characters that is not too long can be looked up: whatever is or is not stored there,
the program there is read or refused, and the layout there gives a map.
-/

namespace Chip8

namespace Storage

namespace Path

/-- Neither the path nor a name in it is too long. -/
def Fits (p : Path) : Prop :=
  byteSize p.toChars ≤ maxPathSize ∧ ∀ name ∈ p.names, byteSize name ≤ maxNameSize

instance (p : Path) : Decidable p.Fits :=
  inferInstanceAs (Decidable (_ ∧ _))

/-! ## The characters of a path -/

theorem mem_of_mem_splitFrom {name start text : List Char} {c : Char}
    (split : name ∈ splitFrom start text) (member : c ∈ name) : c ∈ start ∨ c ∈ text := by
  induction text generalizing start with
  | nil =>
      obtain rfl : name = start.reverse := by simpa [splitFrom] using split
      exact Or.inl (List.mem_reverse.1 member)
  | cons d rest ih =>
      simp only [splitFrom] at split
      split at split
      · rcases List.mem_cons.1 split with rfl | later
        · exact Or.inl (List.mem_reverse.1 member)
        · have rest := (ih later).resolve_left List.not_mem_nil
          exact Or.inr (List.mem_cons_of_mem d rest)
      · rcases ih split with before | later
        · rcases List.mem_cons.1 before with rfl | before
          · exact Or.inr List.mem_cons_self
          · exact Or.inl before
        · exact Or.inr (List.mem_cons_of_mem d later)

theorem mem_of_mem_intercalate {separator : Char} {names : List (List Char)} {c : Char}
    (member : c ∈ [separator].intercalate names) : c = separator ∨ ∃ name ∈ names, c ∈ name := by
  induction names with
  | nil => simp at member
  | cons name rest ih =>
      cases rest with
      | nil => exact Or.inr ⟨name, by simp, by simpa using member⟩
      | cons next rest =>
          have shown : [separator].intercalate (name :: next :: rest) =
              name ++ separator :: [separator].intercalate (next :: rest) := by
            simp [List.intercalate]
          rw [shown] at member
          rcases List.mem_append.1 member with first | later
          · exact Or.inr ⟨name, List.mem_cons_self, first⟩
          rcases List.mem_cons.1 later with rfl | later
          · exact Or.inl rfl
          rcases ih later with same | ⟨found, listed, member⟩
          · exact Or.inl same
          · exact Or.inr ⟨found, List.mem_cons_of_mem name listed, member⟩

/-- A path is written with the characters of its text, slashes and a dot. -/
theorem mem_of_mem_toChars {text : List Char} {c : Char} (member : c ∈ (ofChars text).toChars) :
    c = '.' ∨ c = '/' ∨ c ∈ text := by
  have written : c ∈ ['.'] ∨ c ∈ rootChars (ofChars text).root ++ ['/'].intercalate (ofChars text).names := by
    unfold toChars at member
    split at member
    · exact Or.inl member
    · exact Or.inr member
  rcases written with dot | written
  · exact Or.inl (List.mem_singleton.1 dot)
  have slashes (root : Root) (member : c ∈ rootChars root) : c = '/' := by
    cases root with
    | working => cases member
    | slash => exact List.mem_singleton.1 member
    | twoSlashes => simpa [rootChars] using member
  rcases List.mem_append.1 written with root | names
  · exact Or.inr (Or.inl (slashes _ root))
  rcases mem_of_mem_intercalate names with slash | ⟨name, named, member⟩
  · exact Or.inr (Or.inl slash)
  · have split := (List.mem_filter.1 named).1
    exact Or.inr (Or.inr ((mem_of_mem_splitFrom split member).resolve_left List.not_mem_nil))

theorem mem_splitFrom {start text : List Char} {c : Char} (inName : c ≠ '/')
    (member : c ∈ start ∨ c ∈ text) : ∃ name ∈ splitFrom start text, c ∈ name := by
  induction text generalizing start with
  | nil => exact ⟨start.reverse, by simp [splitFrom], by simpa using member⟩
  | cons d rest ih =>
      by_cases slash : d = '/'
      · rw [splitFrom, if_pos slash]
        by_cases before : c ∈ start
        · exact ⟨start.reverse, List.mem_cons_self, List.mem_reverse.2 before⟩
        · have here : c ∈ d :: rest := member.resolve_left before
          have later : c ∈ rest := (List.mem_cons.1 here).resolve_left (by rwa [slash])
          obtain ⟨name, split, found⟩ := @ih [] (Or.inr later)
          exact ⟨name, List.mem_cons_of_mem _ split, found⟩
      · rw [splitFrom, if_neg slash]
        refine ih ?_
        rcases member with before | here
        · exact Or.inl (List.mem_cons_of_mem d before)
        · rcases List.mem_cons.1 here with rfl | later
          · exact Or.inl List.mem_cons_self
          · exact Or.inr later

theorem mem_intercalate {separator : Char} {names : List (List Char)} {name : List Char} {c : Char}
    (named : name ∈ names) (member : c ∈ name) : c ∈ [separator].intercalate names := by
  induction names with
  | nil => cases named
  | cons first rest ih =>
      cases rest with
      | nil => simpa [List.mem_singleton.1 named] using member
      | cons next rest =>
          rw [List.intercalate_cons_cons]
          rcases List.mem_cons.1 named with rfl | later
          · simp [member]
          · exact List.mem_append_right _ (ih later)

/-- The dots and the slashes are the only characters of a text that its path may drop. -/
theorem mem_toChars {text : List Char} {c : Char} (member : c ∈ text) (notDot : c ≠ '.')
    (notSlash : c ≠ '/') : c ∈ (ofChars text).toChars := by
  have named : ∃ name ∈ splitFrom [] text, c ∈ name := mem_splitFrom notSlash (Or.inr member)
  obtain ⟨name, split, found⟩ := named
  have kept : (name != [] && name != ['.']) = true := by
    have nonempty : name ≠ [] := List.ne_nil_of_mem found
    have proper : name ≠ ['.'] := by
      rintro rfl
      exact notDot (List.mem_singleton.1 found)
    simp [nonempty, proper]
  have written : c ∈ rootChars (ofChars text).root ++ ['/'].intercalate (ofChars text).names :=
    List.mem_append_right _ (mem_intercalate (List.mem_filter.2 ⟨split, kept⟩) found)
  unfold toChars
  split
  · rename_i empty
    rw [empty] at written
    cases written
  · exact written

theorem contains_null {text : String} (null : '\x00' ∈ text.toList) :
    (ofString text).toChars.contains '\x00' = true :=
  List.contains_iff_mem.2 (mem_toChars null (by decide) (by decide))

theorem not_contains_null {text : String} (representable : '\x00' ∉ text.toList) :
    (ofString text).toChars.contains '\x00' = false := by
  refine Bool.eq_false_iff.2 fun contained => ?_
  rcases mem_of_mem_toChars (List.contains_iff_mem.1 contained) with dot | slash | member
  · cases dot
  · cases slash
  · exact representable member

end Path

/-! ## What looking up can fail with -/

theorem follow_ne_nullCharacter (s : Storage) (place : Place) (names : List (List Char)) :
    s.follow place names ≠ .error .nullCharacter := by
  induction names generalizing place with
  | nil =>
      unfold follow
      split <;> simp
  | cons name rest ih =>
      unfold follow
      split
      · simp
      · simp
      · split
        · simp
        · exact ih _

theorem follow_ne_nameTooLong {s : Storage} {place : Place} {names : List (List Char)}
    (short : ∀ name ∈ names, Path.byteSize name ≤ maxNameSize) :
    s.follow place names ≠ .error .nameTooLong := by
  induction names generalizing place with
  | nil =>
      unfold follow
      split <;> simp
  | cons name rest ih =>
      have first := short name List.mem_cons_self
      unfold follow
      split
      · simp
      · simp
      · rw [if_neg (Nat.not_lt.2 first)]
        exact ih fun later member => short later (List.mem_cons_of_mem name member)

theorem lookUp_ne_nullCharacter (s : Storage) {text : String} (representable : '\x00' ∉ text.toList) :
    s.lookUp (.ofString text) ≠ .error .nullCharacter := by
  unfold lookUp
  rw [Path.not_contains_null representable]
  simp only [Bool.false_eq_true, if_false]
  split
  · simp
  · exact follow_ne_nullCharacter s _ _

theorem lookUp_of_null (s : Storage) {text : String} (null : '\x00' ∈ text.toList) :
    s.lookUp (.ofString text) = .error .nullCharacter := by
  rw [lookUp, if_pos (Path.contains_null null)]

theorem lookUp_ne_nameTooLong (s : Storage) {path : Path} (fits : path.Fits) :
    s.lookUp path ≠ .error .nameTooLong := by
  unfold lookUp
  split
  · simp
  · rw [if_neg (Nat.not_lt.2 fits.1)]
    exact follow_ne_nameTooLong fits.2

theorem read_of_null (s : Storage) {text : String} (null : '\x00' ∈ text.toList) :
    s.read (.ofString text) = .error .nullCharacter := by
  rw [read, s.lookUp_of_null null]
  rfl

theorem read_ne_nullCharacter (s : Storage) {text : String} (representable : '\x00' ∉ text.toList) :
    s.read (.ofString text) ≠ .error .nullCharacter := by
  have looked := lookUp_ne_nullCharacter s representable
  unfold read
  cases found : s.lookUp (.ofString text) with
  | error problem =>
      rw [found] at looked
      simpa [bind, Except.bind] using looked
  | ok node =>
      cases node <;> simp [bind, Except.bind, pure, Except.pure, throw, throwThe, MonadExceptOf.throw]

end Storage

/-- A layout that is missing, unreadable or malformed gives the default map. -/
theorem KeyMap.load_ok (storage : Storage) {text : String} (representable : '\x00' ∉ text.toList) :
    ∃ keyMap reports, KeyMap.load storage text = .ok (keyMap, reports) := by
  have readable := storage.read_ne_nullCharacter representable
  unfold load
  dsimp only
  split
  · rename_i failed
    exact absurd failed readable
  · exact ⟨_, _, rfl⟩
  · split
    · exact ⟨_, _, rfl⟩
    · split <;> exact ⟨_, _, rfl⟩

namespace Program

/-- A program is read, refused, or too long a path away. -/
theorem read_cases (storage : Storage) (text : String) :
    (∃ program, read storage text = .ok program) ∨
    (∃ refusal, read storage text = .error (.refused refusal)) ∨
    (read storage text = .error (.badPath (.ofString text) .nameTooLong) ∧
      storage.lookUp (.ofString text) = .error .nameTooLong) := by
  unfold read
  dsimp only
  split
  · rename_i bytes found
    cases Program.ofBytes bytes with
    | ok program => exact Or.inl ⟨program, rfl⟩
    | error error => exact Or.inr (Or.inl ⟨_, rfl⟩)
  · rename_i tooLong
    exact Or.inr (Or.inr ⟨rfl, tooLong⟩)
  · exact Or.inr (Or.inl ⟨_, rfl⟩)

theorem read_ne_badPath (storage : Storage) {text : String} (fits : (Storage.Path.ofString text).Fits)
    (path : Storage.Path) (problem : Storage.Problem) :
    read storage text ≠ .error (.badPath path problem) := by
  rcases read_cases storage text with ⟨program, read⟩ | ⟨refusal, refused⟩ | ⟨-, tooLong⟩
  · simp [read]
  · simp [refused]
  · exact absurd tooLong (storage.lookUp_ne_nameTooLong fits)

example : (Storage.Path.ofString "games/../pong.ch8").Fits := by decide +kernel

end Program

end Chip8
