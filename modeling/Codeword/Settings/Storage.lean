import Codeword.FileTree
import Codeword.Settings.Basic

namespace Codeword.Settings

def filePath : Path := ["nvdis", "config.toml"]

/-- The directory is made first, and stays even if the settings cannot be written. -/
def save (s : Settings) (path : Path) (t : FileTree) : Except SettingsError Unit × FileTree :=
  match t.makeDirectories path.parent with
  | (false, t) => (.error .storage, t)
  | (true, t) =>
    match s.render with
    | .error e => (.error e, t)
    | .ok text =>
      match t.write path text with
      | none => (.error .storage, t)
      | some t => (.ok (), t)

def load (path : Path) (t : FileTree) : Except SettingsError Settings × FileTree :=
  match t.find path with
  | some (.file text) => (parse text, t)
  | some .directory => (.error .storage, t)
  | none =>
    let default : Settings := {}
    let (result, t) := default.save path t
    (result.map fun _ => default, t)

end Codeword.Settings
