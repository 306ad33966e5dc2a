import GameHop.Program.Header

/-!
The program that verifies the equivalence of two expressions. Both run from the same state; their
results, heaps and function states have to agree.
-/

namespace GameHop.Program

def sideProcedure (env : Environment) (name : String) (e : Expr) : Build Procedure := do
  Build.declareAll env e
  let c ← Build.inFrame .variables [] (finishCode ⟨env, Build.require env, []⟩ .empty e)
  let result ← orInternal c.code.value.toValue
  return {
    signature := [
      "procedure \x7b:inline 1\x7d " ++ name ++
        "(internal.objectId : ObjectId) returns (internal.r : T)",
      "modifies checkpoints;",
      "modifies functionState;",
      "modifies heap; \x7b"]
    declarations := c.locals.declarations
    spaced := false
    body := c.locals.defaults ++ c.code.body ++ [.keep "internal.r" result] }

def bothSides : Procedure where
  signature := [
    "procedure both(internal.objectId : ObjectId) returns (internal.r1:T, internal.r2:T, functionState1 : FunctionState, functionState2 : FunctionState)",
    "ensures functionState1==functionState2;",
    "ensures heap1==heap2;",
    "ensures internal.r1==internal.r2;",
    "modifies checkpoints;",
    "modifies functionState;",
    "modifies heap1;",
    "modifies heap2;",
    "modifies heap; \x7b"]
  declarations := ["var functionState_sav : FunctionState;", "var heap_sav : Heap;"]
  spaced := false
  body := [
    .keep "functionState_sav" (.name "functionState"),
    .keep "heap_sav" (.name "heap"),
    .call "internal.r1" "left" [.name "internal.objectId"],
    .keep "functionState1" (.name "functionState"),
    .keep "heap1" (.name "heap"),
    .keep "functionState" (.name "functionState_sav"),
    .keep "heap" (.name "heap_sav"),
    .call "internal.r2" "right" [.name "internal.objectId"],
    .keep "functionState2" (.name "functionState"),
    .keep "heap2" (.name "heap")]

def buildEquivalence (env : Environment) (left right : Expr) : Build Unit := do
  header env
  let l ← sideProcedure env "left" left
  Build.write l.write
  let r ← sideProcedure env "right" right
  Build.write r.write
  writeProcedures [bothSides]

def equivalence (env : Environment) (left right : Expr) : Except CheckError String :=
  Build.program env (buildEquivalence env left right)

end GameHop.Program
