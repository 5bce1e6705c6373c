import Chip8.Journal
import Chip8.Text.Lines

/-!
# Layout files

A layout file is strict UTF-8 text. A file that cannot be read or parsed gives the default map and one
warning; a path with a null character cannot even be looked up.
-/

namespace Chip8.KeyMap

def load (storage : Storage) (text : String) : Except Storage.Problem (KeyMap × List Report) :=
  let path := Storage.Path.ofString text
  match storage.read path with
  | .error .nullCharacter => .error .nullCharacter
  | .error problem => .ok (.default, [.layoutUnreadable path (.storage problem)])
  | .ok bytes =>
      match Text.Utf8.decode bytes with
      | .error failure => .ok (.default, [.layoutUnreadable path (.encoding failure)])
      | .ok content =>
          match Layout.parse (Text.lines content) with
          | .error error => .ok (.default, [.layoutInvalid path error])
          | .ok map => .ok (map, [])

end Chip8.KeyMap
