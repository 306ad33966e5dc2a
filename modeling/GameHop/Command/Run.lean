import GameHop.Check.Development
import GameHop.Command.Arguments
import GameHop.Printer.Development
import GameHop.Settings.Project
import GameHop.Verifier.Schedule

/-!
Calls of the program: what a list of arguments does to the files, what it prints and how it ends.
-/

namespace GameHop.Command

inductive CommandError where
  | settings (e : SettingsError)
  | check (e : CheckError)
  | source (path : String) (e : SourceError)
  | file (f : FileFault)
  | notFormatted (path : String)

def CommandError.message : CommandError → String
  | settings e => "config error: " ++ e.message
  | check e => e.report
  | source path e => path ++ ": " ++ e.message
  | file f => f.message
  | notFormatted path => path ++ " is not formatted"

structure Host where
  launch : Launcher
  /-- How many verifiers run at once if nothing says otherwise. -/
  cores : Nat

structure Outcome where
  /-- 0 if all is well, 1 after a failure, 2 if the arguments cannot be read. -/
  status : Nat
  output : String
  complaint : Option String
  files : FileTree

/-- A command so far: what it has printed, and the files. -/
structure Progress where
  output : String
  files : FileTree

/-- Steps of a command. What is printed and done before a failure remains. -/
abbrev CommandM := ExceptT CommandError (StateM Progress)

namespace CommandM

def files : CommandM FileTree :=
  return (← get).files

def setFiles (files : FileTree) : CommandM Unit :=
  modify fun p => { p with files }

def print (text : String) : CommandM Unit :=
  modify fun p => { p with output := p.output ++ text }

def change (f : FileTree → Except FileFault FileTree) : CommandM Unit := do
  match f (← files) with
  | .ok files => setFiles files
  | .error e => throw (.file e)

end CommandM

open CommandM

/-- Settings with the changes that options make. -/
def Options.apply (o : Options) (s : Settings) : Settings :=
  { s with
    verifierPath := o.verifier.getD s.verifierPath
    workers := o.workers <|> s.workers
    cacheEnabled := s.cacheEnabled && !o.noCache }

def project (o : Options) (path : String) : CommandM Project := do
  match Project.load (← files) path with
  | .ok p => return { p with settings := o.apply p.settings }
  | .error e => throw (.settings e)

/-- Checks a file. Gives the tasks that are left to a verifier. -/
def tasks (p : Project) (path : String) : CommandM (List Task) := do
  let setup : CheckSetup Task := ⟨Backend.tasks, ← files, p.searchPaths⟩
  match (Checker.checkFile setup path).run.run .start with
  | (.ok (), c) => return c.answers
  | (.error e, _) => throw (.check e)

def cache (p : Project) : CommandM ProofCache := do
  if p.settings.cacheEnabled then
    match ProofCache.load (← files) p.cacheFile with
    | .ok c => return c
    | .error f => throw (.file f)
  else return .disabled

def check (host : Host) (o : Options) (path : String) : CommandM Unit := do
  let p ← project o path
  let ts ← tasks p path
  change (·.createDirs p.workDir)
  let c ← cache p
  let verifier :=
    Verifier.ofSetup host.launch ⟨p.settings.verifierPath, p.settings.verifierArgs, p.workDir⟩
  let workers := p.settings.workers.getD host.cores
  let s := Schedule.run verifier workers (fun _ => 0) ts c (← files)
  setFiles s.files
  match s.result with
  | .ok _ => print (path ++ ": ok\n")
  | .error e => throw (.check e)

/-- Prints a file in its canonical form, or says whether it has that form. -/
def format (path : String) (checkOnly : Bool) : CommandM Unit := do
  match (← files).read path with
  | .error f => throw (.file f)
  | .ok text =>
    match Development.parse text with
    | .error e => throw (.source path e)
    | .ok d =>
      if !checkOnly then print (Development.text d)
      else if Development.text d == text then print (path ++ ": formatted\n")
      else throw (.notFormatted path)

def emitTask (out : String) (t : Task) (i : Nat) : CommandM Unit := do
  let file := Path.join out ("task" ++ toString i ++ ".bpl")
  change (·.write file t.program)
  print (file ++ ": " ++ t.describe ++ "\n")

def emit (o : Options) (path out : String) : CommandM Unit := do
  let p ← project o path
  let ts ← tasks p path
  change (·.createDirs out)
  ts.zipIdx.forM fun (t, i) => emitTask out t i

def Action.run (host : Host) (o : Options) : Action → CommandM Unit
  | .check path => Command.check host o path
  | .format path checkOnly => Command.format path checkOnly
  | .emit path out => Command.emit o path out

def versionText : String :=
  "quivela 0.2.0\n"

def helpText : String :=
  "Equivalence prover for object programs\n\n" ++
  "Usage: quivela [OPTIONS] <COMMAND>\n\n" ++
  "Commands:\n" ++
  "  check <PATH>              Check every proof and verify the generated programs\n" ++
  "  fmt <PATH> [--check]      Print the canonical rendering of a development\n" ++
  "  emit <PATH> --out <OUT>   Check proofs and write the generated programs\n\n" ++
  "Options:\n" ++
  "  -b, --boogie <BOOGIE>     Verifier executable\n" ++
  "  -j, --workers <WORKERS>   Number of verifier processes run at once\n" ++
  "      --no-cache            Neither consult nor update the proof cache\n" ++
  "  -v, --verbose             Log at debug level\n" ++
  "  -h, --help                Print help\n" ++
  "  -V, --version             Print version\n"

def run (host : Host) (files : FileTree) (args : List String) : Outcome :=
  match Request.ofArguments args with
  | .error e => ⟨2, "", some e.message, files⟩
  | .ok .help => ⟨0, helpText, none, files⟩
  | .ok .version => ⟨0, versionText, none, files⟩
  | .ok (.act o action) =>
    match (action.run host o).run.run ⟨"", files⟩ with
    | (.ok (), p) => ⟨0, p.output, none, p.files⟩
    | (.error e, p) => ⟨1, p.output, some e.message, p.files⟩

end GameHop.Command
