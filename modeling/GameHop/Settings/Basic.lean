import GameHop.Toml.Document

/-!
The settings of a project, and how a settings file gives them. A file has some settings of its own
and four sections.
-/

namespace GameHop

inductive SettingsSection where
  | verifier
  | cache
  | scheduler
  | imports
deriving DecidableEq, Repr

inductive Setting where
  | workDir
  | verifierPath
  | verifierArgs
  | cacheEnabled
  | cacheFile
  | workers
  | statusInterval
  | searchPaths
deriving DecidableEq, Repr

/-- Settings. Paths are as the file gives them. -/
structure Settings where
  workDir : String := "."
  verifierPath : String := "boogie"
  verifierArgs : List String := []
  cacheEnabled : Bool := true
  cacheFile : String := "quivela.cache.boogie"
  /-- How many verifiers run at once; otherwise the machine decides. -/
  workers : Option Nat := none
  /-- Milliseconds between two reports of a run. -/
  statusInterval : Nat := 3000
  searchPaths : List String := []

namespace SettingsSection

def all : List SettingsSection :=
  [verifier, cache, scheduler, imports]

def name : SettingsSection → String
  | verifier => "verifier"
  | cache => "cache"
  | scheduler => "scheduler"
  | imports => "imports"

def ofName? (x : String) : Option SettingsSection :=
  all.find? (·.name == x)

def settings : SettingsSection → List (String × Setting)
  | verifier => [("path", .verifierPath), ("args", .verifierArgs)]
  | cache => [("enabled", .cacheEnabled), ("file", .cacheFile)]
  | scheduler => [("workers", .workers), ("status_interval_ms", .statusInterval)]
  | imports => [("search_paths", .searchPaths)]

end SettingsSection

/-! ## Values -/

namespace Toml.Value

def text? : Value → Option String
  | text s => some s
  | _ => none

def truth? : Value → Option Bool
  | truth b => some b
  | _ => none

def nat? : Value → Option Nat
  | int (.ofNat n) => some n
  | _ => none

def texts? : Value → Option (List String)
  | list vs => vs.mapM text?
  | _ => none

end Toml.Value

namespace Settings

/-- Settings with one of them changed, if the value is of its kind. -/
def set (s : Settings) (v : Toml.Value) : Setting → Option Settings
  | .workDir => v.text?.map fun x => { s with workDir := x }
  | .verifierPath => v.text?.map fun x => { s with verifierPath := x }
  | .verifierArgs => v.texts?.map fun xs => { s with verifierArgs := xs }
  | .cacheEnabled => v.truth?.map fun b => { s with cacheEnabled := b }
  | .cacheFile => v.text?.map fun x => { s with cacheFile := x }
  | .workers => v.nat?.map fun n => { s with workers := some n }
  | .statusInterval => v.nat?.map fun n => { s with statusInterval := n }
  | .searchPaths => v.texts?.map fun xs => { s with searchPaths := xs }

/-! ## Files -/

/-- What is known between two lines of a settings file. -/
structure Draft where
  settings : Settings := {}
  given : List Setting := []
  /-- The sections that a header or a value has opened. -/
  opened : List SettingsSection := []
  /-- The sections of which single settings are given outside of them. -/
  touched : List SettingsSection := []
  /-- The section of the lines to come. -/
  current : Option SettingsSection := none

namespace Draft

def give (d : Draft) (x : Setting) (v : Toml.Value) : Option Draft :=
  if d.given.contains x then none
  else (d.settings.set v x).map fun s => { d with settings := s, given := x :: d.given }

theorem given_give {d d' : Draft} {x : Setting} {v : Toml.Value} (h : d.give x v = some d') :
    d'.given = x :: d.given ∧ x ∉ d.given := by
  unfold give at h
  split at h
  · simp at h
  · next hx =>
    obtain ⟨s, -, rfl⟩ := Option.map_eq_some_iff.1 h
    exact ⟨rfl, by simpa using hx⟩

/-- Gives a setting of a section by name. -/
def giveIn (d : Draft) (s : SettingsSection) (name : String) (v : Toml.Value) : Option Draft := do
  let x ← s.settings.lookup name
  d.give x v

/-- Opens a section that nothing has touched. -/
def openSection (d : Draft) (s : SettingsSection) : Option Draft :=
  if d.opened.contains s || d.touched.contains s then none
  else some { d with opened := s :: d.opened }

/-- Gives an entry of an inline table. -/
def giveEntry (s : SettingsSection) (d : Draft) : List String × Toml.Value → Option Draft
  | ([name], v) => d.giveIn s name v
  | _ => none

/-- Gives a section by one value: a table, or a list of its settings in order. -/
def giveSection (d : Draft) (s : SettingsSection) (v : Toml.Value) : Option Draft := do
  let d ← d.openSection s
  match v with
  | .table entries => entries.foldlM (giveEntry s) d
  | .list vs => (s.settings.zip vs).foldlM (fun d ((_, x), v) => d.give x v) d
  | _ => none

def giveOuter (d : Draft) (key : List String) (v : Toml.Value) : Option Draft :=
  match key with
  | [name] =>
    if name == "work_dir" then d.give .workDir v
    else do d.giveSection (← SettingsSection.ofName? name) v
  | [sectionName, name] => do
    let s ← SettingsSection.ofName? sectionName
    if d.opened.contains s then none
    else ({ d with touched := s :: d.touched } : Draft).giveIn s name v
  | _ => none

def read (d : Draft) : Toml.Line → Option Draft
  | .header [name] => do
    let s ← SettingsSection.ofName? name
    let d ← d.openSection s
    return { d with current := some s }
  | .header _ => none
  | .entry key v =>
    match d.current, key with
    | none, key => d.giveOuter key v
    | some s, [name] => d.giveIn s name v
    | some _, _ => none

end Draft

def parse? (text : String) : Option Settings := do
  let lines ← Toml.parse? text
  let d ← lines.foldlM Draft.read {}
  return d.settings

end Settings

end GameHop
