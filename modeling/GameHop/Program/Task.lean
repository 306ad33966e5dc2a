import GameHop.Check.Question
import GameHop.Program.Bisimulation
import GameHop.Program.Bounds
import GameHop.Program.Equivalence

/-!
Tasks for a verifier. A question becomes a program, how urgent it is, and what to say when it is
rejected.
-/

namespace GameHop

structure Task where
  program : String
  message : String
  /-- What a rejection means. -/
  failure : String
  /-- Tasks of a lower number come first. -/
  priority : Nat
  location : Location

namespace Task

def describe (t : Task) : String :=
  t.message ++ " at " ++ t.location.text

def rejection (t : Task) (programFile : String) : CheckError :=
  .located t.location (.rejected t.failure programFile)

end Task

/-- The task that answers a question. -/
def Question.task (env : Environment) : Question → Except CheckError Task
  | .equivalent left right message => do
    let program ← Program.equivalence env left right
    return ⟨program, message, "Goal check failed.", 3, env.location⟩
  | .within actual required => do
    let program ← Program.boundComparison env actual required
    return ⟨program, "Checking bounds",
      "Bounds check failed: cannot prove that " ++ actual.text ++ "\n <= \n" ++ required.text, 4,
      env.location⟩
  | .bisimilar left right clauses => do
    let program ← Program.Bisimulation.program env ⟨left, right, clauses⟩
    return ⟨program, "Checking bisimulation", "Bisimulation check failed.", 2, env.location⟩

def Backend.tasks : Backend Task :=
  fun env q => q.task env

end GameHop
