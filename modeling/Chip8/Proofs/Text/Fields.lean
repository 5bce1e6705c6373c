import Chip8.Text.Blank

/-!
# The fields of a text

Main statement: `fields_eq_iff`, the fields are the only way to divide a text into runs of characters that
are not blank, with blanks before, between and behind them.
-/

namespace Chip8.Text

def AllBlank (text : List Char) : Prop :=
  ∀ c ∈ text, isBlank c = true

structure IsField (field : List Char) : Prop where
  nonempty : field ≠ []
  solid : ∀ c ∈ field, isBlank c = false

/-- The text consists of these fields, kept apart by blanks. -/
inductive SplitsInto : List Char → List (List Char) → Prop where
  | blank {pad : List Char} (padding : AllBlank pad) : SplitsInto pad []
  | last {pad field : List Char} (padding : AllBlank pad) (isField : IsField field) :
      SplitsInto (pad ++ field) [field]
  | field {pad field rest : List Char} {gap : Char} {fields : List (List Char)} (padding : AllBlank pad)
      (isField : IsField field) (apart : isBlank gap = true) (others : SplitsInto rest fields) :
      SplitsInto (pad ++ field ++ gap :: rest) (field :: fields)

theorem SplitsInto.isField {text : List Char} {parts : List (List Char)} (splits : SplitsInto text parts) :
    ∀ field ∈ parts, IsField field := by
  induction splits with
  | blank => simp
  | last padding isField => exact List.forall_mem_singleton.2 isField
  | field padding isField apart others ih => exact List.forall_mem_cons.2 ⟨isField, ih⟩

/-! ## Reading fields -/

theorem fieldsFrom_padded {pad : List Char} (padding : AllBlank pad) (rest : List Char) :
    fieldsFrom [] (pad ++ rest) = fieldsFrom [] rest := by
  induction pad with
  | nil => rfl
  | cons c pad ih =>
      have blank : isBlank c = true := padding c List.mem_cons_self
      rw [List.cons_append, fieldsFrom, if_pos blank]
      exact ih fun d member => padding d (List.mem_cons_of_mem c member)

theorem fieldsFrom_solid {field : List Char} (solid : ∀ c ∈ field, isBlank c = false)
    (start rest : List Char) :
    fieldsFrom start (field ++ rest) = fieldsFrom (field.reverse ++ start) rest := by
  induction field generalizing start with
  | nil => rfl
  | cons c field ih =>
      have here : isBlank c = false := solid c List.mem_cons_self
      rw [List.cons_append, fieldsFrom, here, if_neg Bool.false_ne_true,
        ih fun d member => solid d (List.mem_cons_of_mem c member)]
      simp

theorem fieldsFrom_field {field : List Char} (isField : IsField field) {gap : Char}
    (apart : isBlank gap = true) (rest : List Char) :
    fieldsFrom field.reverse (gap :: rest) = field :: fieldsFrom [] rest := by
  have begun : field.reverse.isEmpty = false := by simpa using isField.nonempty
  rw [fieldsFrom, if_pos apart, begun, if_neg Bool.false_ne_true, List.reverse_reverse]

theorem fields_of_splitsInto {text : List Char} {parts : List (List Char)}
    (splits : SplitsInto text parts) : fields text = parts := by
  unfold fields
  induction splits with
  | @blank pad padding =>
      have empty := fieldsFrom_padded padding []
      rwa [List.append_nil] at empty
  | @last pad field padding isField =>
      have solid := fieldsFrom_solid isField.solid [] []
      rw [List.append_nil, List.append_nil] at solid
      rw [fieldsFrom_padded padding, solid, fieldsFrom, if_neg (by simpa using isField.nonempty),
        List.reverse_reverse]
  | @field pad field rest gap fields padding isField apart others ih =>
      rw [List.append_assoc, fieldsFrom_padded padding, fieldsFrom_solid isField.solid, List.append_nil,
        fieldsFrom_field isField apart, ih]

/-! ## Fields that have been read -/

theorem SplitsInto.padded {c : Char} {text : List Char} {parts : List (List Char)}
    (blank : isBlank c = true) (splits : SplitsInto text parts) : SplitsInto (c :: text) parts := by
  have padded {pad : List Char} (padding : AllBlank pad) : AllBlank (c :: pad) :=
    List.forall_mem_cons.2 ⟨blank, padding⟩
  cases splits with
  | blank padding => exact .blank (padded padding)
  | last padding isField => exact .last (padded padding) isField
  | field padding isField apart others => exact .field (padded padding) isField apart others

/-- What has been read of a field so far belongs to the text. -/
theorem splitsInto_fieldsFrom (start text : List Char) (solid : ∀ c ∈ start, isBlank c = false) :
    SplitsInto (start.reverse ++ text) (fieldsFrom start text) := by
  have none : AllBlank [] := fun c member => absurd member List.not_mem_nil
  have begun {start : List Char} (solid : ∀ c ∈ start, isBlank c = false) (nonempty : start ≠ []) :
      IsField start.reverse :=
    ⟨by simpa using nonempty, fun c member => solid c (List.mem_reverse.1 member)⟩
  induction text generalizing start with
  | nil =>
      rw [List.append_nil, fieldsFrom]
      split
      · rename_i empty
        obtain rfl := List.isEmpty_iff.1 empty
        exact .blank none
      · rename_i nonempty
        exact .last none (begun solid fun empty => nonempty (by simp [empty]))
  | cons c rest ih =>
      rw [fieldsFrom]
      split
      · rename_i blank
        have others := ih [] (by simp)
        split
        · rename_i empty
          obtain rfl := List.isEmpty_iff.1 empty
          exact others.padded blank
        · rename_i nonempty
          exact .field none (begun solid fun empty => nonempty (by simp [empty])) blank others
      · rename_i here
        have longer := ih (c :: start) (List.forall_mem_cons.2 ⟨Bool.eq_false_iff.2 here, solid⟩)
        rwa [List.reverse_cons, List.append_assoc] at longer

theorem fields_eq_iff {text : List Char} {parts : List (List Char)} :
    fields text = parts ↔ SplitsInto text parts := by
  constructor
  · rintro rfl
    exact splitsInto_fieldsFrom [] text (by simp)
  · exact fields_of_splitsInto

theorem SplitsInto.unique {text : List Char} {parts others : List (List Char)} (splits : SplitsInto text parts)
    (again : SplitsInto text others) : parts = others :=
  (fields_eq_iff.2 splits).symm.trans (fields_eq_iff.2 again)

theorem splitsInto_nil_iff {text : List Char} : SplitsInto text [] ↔ AllBlank text := by
  constructor
  · intro splits
    cases splits with
    | blank padding => exact padding
  · exact .blank

end Chip8.Text
