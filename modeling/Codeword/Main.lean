import Codeword.CommandLine

namespace Codeword

def settingsDirectory : IO String := do
  match ← IO.getEnv "XDG_CONFIG_HOME" with
  | some dir => if dir.startsWith "/" then return dir
  | none => pure ()
  return (← IO.getEnv "HOME").elim "." (· ++ "/.config")

def createSettings (directory file : String) : IO (Except SettingsError Settings) := do
  let settings : Settings := {}
  IO.FS.createDirAll directory
  match settings.render with
  | .ok text =>
    IO.FS.writeFile file text
    return .ok settings
  | .error e => return .error e

def readSettings : IO (Except SettingsError Settings) := do
  let names := (← settingsDirectory) :: Settings.filePath
  let file := "/".intercalate names
  try
    return Settings.parse (← IO.FS.readFile file)
  catch
    | .noFileOrDirectory .. =>
      try createSettings ("/".intercalate names.dropLast) file
      catch _ => return .error .storage
    | _ => return .error .storage

end Codeword

def main : IO UInt32 := do
  let settings ← Codeword.readSettings
  let input ← (← IO.getStdin).readBinToEnd
  let outcome ← match Codeword.CommandLine.run .wrapping settings input with
    | .ok outcome => pure outcome
    | .error e => throw (IO.userError e.message)
  (← IO.getStdout).putStr outcome.stdout
  (← IO.getStderr).putStr outcome.stderr
  return outcome.exitCode
