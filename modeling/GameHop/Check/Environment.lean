import GameHop.Check.Error
import GameHop.Check.Functions
import GameHop.Check.Scope

/-!
What a proof obligation is judged against.
-/

namespace GameHop

/-- The declarations in force at a place of a development. -/
structure Environment where
  scope : Scope
  functions : Functions
  postulates : List Postulate
  classes : List (String × Object)
  location : Location

def Environment.fault (env : Environment) (f : Fault) : CheckError :=
  .located env.location f

/-- A result with its fault as the reason why a check fails. -/
def orInternal {α : Type} (x : Except InternalFault α) : Except CheckError α :=
  x.mapError .internal

end GameHop
