import GameHop.Files.Tree
import GameHop.Settings.Basic

/-!
Projects: settings and the directory that their paths start from. A project is found by its settings
file, which is in the directory of a file to check or in a directory above.
-/

namespace GameHop

inductive SettingsError where
  | unreadable (path : String) (fault : FileFault)
  | malformed (path : String)

def SettingsError.message : SettingsError → String
  | unreadable path f => "failed to read " ++ path ++ ": " ++ f.message
  | malformed path => "failed to parse " ++ path

structure Project where
  path : Option String
  root : String
  settings : Settings

namespace Project

def settingsFile : String :=
  "quivela.toml"

/-- The directory to start the search from. -/
def searchStart (files : FileTree) (start : String) : Option String :=
  let start := Path.join files.root start
  if files.isFile start then Path.parent? start else some start

def find? (files : FileTree) (start : String) : Option String := do
  let dir ← searchStart files start
  ((Path.ancestors dir).map (Path.join · settingsFile)).find? files.isFile

/-- The project of a file or a directory. Without a settings file all settings have their defaults. -/
def load (files : FileTree) (start : String) : Except SettingsError Project :=
  match find? files start with
  | none => .ok ⟨none, ".", {}⟩
  | some path =>
    match files.read path with
    | .error f => .error (.unreadable path f)
    | .ok text =>
      match Settings.parse? text with
      | none => .error (.malformed path)
      | some s => .ok ⟨some path, (Path.parent? path).getD ".", s⟩

def workDir (p : Project) : String :=
  Path.join p.root p.settings.workDir

def cacheFile (p : Project) : String :=
  Path.join p.workDir p.settings.cacheFile

def searchPaths (p : Project) : List String :=
  p.settings.searchPaths.map (Path.join p.root)

end Project

end GameHop
