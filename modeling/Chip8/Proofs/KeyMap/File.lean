import Chip8.Proofs.Storage.LookUp
import Chip8.Proofs.Text.Utf8

/-!
# Layout files

Main statement: `loaded_or_default`, a file with a layout gives its map without a report, and any other file
or none gives the default map and one warning, unless the path holds a null character.
-/

namespace Chip8.KeyMap

/-- The file at the path is the encoding of a text whose lines are a layout for `map`. -/
def HasLayout (storage : Storage) (path : Storage.Path) (map : KeyMap) : Prop :=
  ∃ content : String, storage.read path = .ok (content.toList.flatMap String.utf8EncodeChar) ∧
    Layout.parse (Text.lines content) = .ok map

/-- Why there is no layout at the path, as it is reported. -/
inductive Unusable (storage : Storage) (path : Storage.Path) : Report → Prop where
  | unreadable {problem : Storage.Problem} (failed : storage.read path = .error problem) :
      Unusable storage path (.layoutUnreadable path (.storage problem))
  | undecodable {bytes : List UInt8} {failure : Text.Utf8.Failure} (found : storage.read path = .ok bytes)
      (noText : ∀ content : String, bytes ≠ content.toList.flatMap String.utf8EncodeChar) :
      Unusable storage path (.layoutUnreadable path (.encoding failure))
  | malformed {content : String} {error : Layout.Error}
      (found : storage.read path = .ok (content.toList.flatMap String.utf8EncodeChar))
      (refused : Layout.parse (Text.lines content) = .error error) :
      Unusable storage path (.layoutInvalid path error)

theorem Unusable.warning {storage : Storage} {path : Storage.Path} {report : Report}
    (unusable : Unusable storage path report) : report.level = .warning ∧ report.channel = .keyMap := by
  cases unusable <;> exact ⟨rfl, rfl⟩

variable {storage : Storage} {text : String}

theorem load_of_null (storage : Storage) (null : '\x00' ∈ text.toList) :
    load storage text = .error .nullCharacter := by
  simp only [load, storage.read_of_null null]

theorem load_of_hasLayout {map : KeyMap} (layout : HasLayout storage (.ofString text) map) :
    load storage text = .ok (map, []) := by
  obtain ⟨content, found, parsed⟩ := layout
  simp only [load, found, Text.Utf8.decode_eq_ok_iff.2 rfl, parsed]

theorem load_without_layout (representable : '\x00' ∉ text.toList)
    (without : ∀ map, ¬ HasLayout storage (.ofString text) map) :
    ∃ report, load storage text = .ok (.default, [report]) ∧ Unusable storage (.ofString text) report := by
  cases found : storage.read (.ofString text) with
  | error problem =>
      have other : problem ≠ .nullCharacter := fun null =>
        storage.read_ne_nullCharacter representable (null ▸ found)
      refine ⟨_, ?_, .unreadable found⟩
      simp only [load, found]
  | ok bytes =>
      cases decoded : Text.Utf8.decode bytes with
      | error failure =>
          refine ⟨.layoutUnreadable _ (.encoding failure), ?_, .undecodable found fun content encoded => ?_⟩
          · simp only [load, found, decoded]
          · rw [Text.Utf8.decode_eq_ok_iff.2 encoded] at decoded
            cases decoded
      | ok content =>
          have encoded := Text.Utf8.decode_eq_ok_iff.1 decoded
          cases parsed : Layout.parse (Text.lines content) with
          | error error =>
              refine ⟨_, ?_, .malformed (encoded ▸ found) parsed⟩
              simp only [load, found, decoded, parsed]
          | ok map => exact absurd ⟨content, encoded ▸ found, parsed⟩ (without map)

/-- Without a null character in its path, a layout is loaded and nothing is reported, or there is none and
the default map is used, with one warning that says why. -/
theorem loaded_or_default (storage : Storage) (text : String) :
    ('\x00' ∈ text.toList ∧ load storage text = .error .nullCharacter) ∨
      ('\x00' ∉ text.toList ∧
        ((∃ map, HasLayout storage (.ofString text) map ∧ load storage text = .ok (map, [])) ∨
          ((∀ map, ¬ HasLayout storage (.ofString text) map) ∧
            ∃ report, load storage text = .ok ({ table := defaultTable, raw := false }, [report]) ∧
              Unusable storage (.ofString text) report ∧ report.level = .warning ∧
                report.channel = .keyMap))) := by
  by_cases null : '\x00' ∈ text.toList
  · exact Or.inl ⟨null, load_of_null storage null⟩
  refine Or.inr ⟨null, ?_⟩
  by_cases layout : ∃ map, HasLayout storage (.ofString text) map
  · obtain ⟨map, layout⟩ := layout
    exact Or.inl ⟨map, layout, load_of_hasLayout layout⟩
  · obtain ⟨report, loaded, unusable⟩ := load_without_layout null (not_exists.1 layout)
    exact Or.inr ⟨not_exists.1 layout, report, loaded, unusable, unusable.warning⟩

/-- A path with a null character is not looked up: there is neither a map nor a warning. -/
theorem null_in_the_path :
    load .empty "a\x00b" = .error .nullCharacter ∧ ¬ ∃ loaded, load .empty "a\x00b" = .ok loaded := by
  have failed : load .empty "a\x00b" = .error .nullCharacter := load_of_null .empty (by decide)
  refine ⟨failed, ?_⟩
  rw [failed]
  simp

end Chip8.KeyMap
