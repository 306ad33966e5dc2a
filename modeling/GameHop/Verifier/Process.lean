import GameHop.Check.Error
import GameHop.Files.Tree
import GameHop.Verifier.Output

/-!
Running the verifier on one program. The program is written to a file of the working directory, which
the verifier then gets as its last argument.
-/

namespace GameHop

/-- What a verifier says about a program. -/
structure Verdict where
  verified : Bool
  output : String

/-- Decides programs. Workers are numbered, and each has its own program file. -/
abbrev Verifier :=
  (worker : Nat) → (program : String) → FileTree → Except CheckError Verdict × FileTree

/-- Starts an executable in a directory with some arguments, and gives what it prints. The executable
    may change files. -/
abbrev Launcher :=
  (path dir : String) → (args : List String) → FileTree → Except FileFault String × FileTree

namespace Verifier

/-- The file of the program that a worker is at. -/
def programFile (worker : Nat) : String :=
  "boogie" ++ toString worker ++ ".bpl"

structure Setup where
  path : String
  args : List String
  workDir : String

/-- The verifier that an executable is. -/
def ofSetup (launch : Launcher) (setup : Setup) : Verifier := fun worker program files =>
  match files.write (Path.join setup.workDir (programFile worker)) program with
  | .error f => (.error (.file f), files)
  | .ok files =>
    match launch setup.path setup.workDir (setup.args ++ [programFile worker]) files with
    | (.error f, files) => (.error (.internal (.verifierNotStarted setup.path f)), files)
    | (.ok output, files) => (.ok ⟨accepts output, output⟩, files)

end Verifier

end GameHop
