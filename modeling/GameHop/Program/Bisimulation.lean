import GameHop.Program.Header

/-!
The program that verifies a bisimulation of two objects. Building both objects establishes the
invariants; calling the same method with the same arguments on both keeps the invariants and gives
equal results.
-/

namespace GameHop

/-- Whether a clause has to hold between calls. -/
def BisimClause.isInvariant (c : BisimClause) : Bool :=
  c.scopes.isEmpty || c.scopes.any fun
    | .invariant => true
    | .checkpoint _ _ => false

/-- The pairs of labels at which a clause has to hold. -/
def BisimClause.checkpoints (c : BisimClause) : List (String × String) :=
  c.scopes.filterMap fun
    | .invariant => none
    | .checkpoint l r => some (l.name, r.name)

namespace Object

def methodNames (o : Object) : List String :=
  o.methods.map (·.name.name)

def method? (o : Object) (name : String) : Option Method :=
  o.methods.find? (·.name.name == name)

/-- Whether two objects have methods of the same names. -/
def sameMethods (o o' : Object) : Bool :=
  o.methodNames.all o'.methodNames.contains && o'.methodNames.all o.methodNames.contains

end Object

end GameHop

namespace GameHop.Program

structure Bisimulation where
  left : Object
  right : Object
  /-- Without clauses, heaps are equal and fields agree by their positions. -/
  clauses : Option (List BisimClause)

/-- The state that the procedures of a bisimulation may change. -/
def sharedState : List String := [
  "functionState", "heap1", "heap2", "heap", "objectMemory1", "objectMemory2", "objectMemory",
  "checkpoints", "checkpoints1", "checkpoints2"]

/-- Keeps the state that a side leaves. -/
def saveSide (side : String) : List Stmt :=
  ["checkpoints", "objectMemory", "functionState", "heap"].map fun x =>
    .keep (x ++ side) (.name x)

/-- The arguments that both sides get. -/
def sharedArguments (arity : Nat) : List String :=
  (List.range arity).map fun i => "a" ++ toString i

namespace Bisimulation

def objects (b : Bisimulation) : ObjectPair :=
  .current b.left.fieldNames b.right.fieldNames

def claimContext (env : Environment) (objects : ObjectPair) : FormulaContext :=
  ⟨env, Build.require env, [], some objects⟩

/-- Equal heaps, and equal fields position by position. -/
def defaultInvariant (p : ObjectPair) : Term :=
  .conj (.same p.leftHeap p.rightHeap ::
    (p.leftFields.zip p.rightFields).map fun (l, r) =>
      .same (.index p.leftMemory (.name (fieldAttr l)))
        (.index p.rightMemory (.name (fieldAttr r))))

/-- What holds between calls. -/
def invariants (env : Environment) (b : Bisimulation) : Build (List Term) :=
  match b.clauses with
  | none => return [defaultInvariant b.objects]
  | some cs => (cs.filter (·.isInvariant)).mapM fun c => c.claim.claim (claimContext env b.objects)

/-- The claim of a clause between the states under two labels. -/
def checkpointClaim (env : Environment) (b : Bisimulation) (c : BisimClause)
    (left right : String) : Build (List Stmt) := do
  let t ← c.claim.claim (claimContext env (b.objects.atCheckpoints left right))
  let functionState := fun (checkpoints label : String) =>
    Term.index (.index (.name checkpoints) (.name (checkpointId label)))
      (.name "checkpointFunctionState")
  return [.assert t,
    .assert (.same (functionState "checkpoints1" left) (functionState "checkpoints2" right))]

/-- The claims about all pairs of labels that both sides reach. -/
def checkpointClaims (env : Environment) (b : Bisimulation) (left right : List String) :
    Build (List Stmt) := do
  let claims ← (b.clauses.getD []).mapM fun c =>
    (c.checkpoints.filter fun (l, r) => left.contains l && right.contains r).mapM fun (l, r) =>
      b.checkpointClaim env c l r
  return claims.flatten.flatten

/-! ## Construction -/

/-- The code that fills the fields of one side, and the labels in it. -/
def fieldsCode (env : Environment) : Locals → List Field →
    Build (List Stmt × List String × Locals)
  | locals, [] => return ([], [], locals)
  | locals, f :: fs => do
    let c ← finishCode ⟨env, Build.require env, []⟩ locals f.value
    let t ← orInternal c.code.value.toValue
    let (body, labels, locals) ← fieldsCode env c.locals fs
    return (c.code.body ++
        .set (.index (.name "objectMemory") (.name (fieldAttr f.name.name))) t :: body,
      sortNames (c.labels ++ labels), locals)

/-- The procedure that builds both objects. -/
def construction (env : Environment) (b : Bisimulation) (invariants : List Term) :
    Build Procedure := do
  let (leftBody, leftLabels, locals) ← fieldsCode env .empty b.left.fields
  let (rightBody, rightLabels, locals) ← fieldsCode env locals b.right.fields
  let claims ← b.checkpointClaims env leftLabels rightLabels
  let fresh : List Stmt := [
    .keep "checkpoints" (.name "initCheckpoints"),
    .keep "objectMemory" (.call "toMemory" [.name "defaultValue"])]
  return {
    signature :=
      "procedure both.new(internal.objectId : ObjectId) returns (functionState1 : FunctionState, functionState2 : FunctionState)" ::
        invariants.map (fun t => "ensures (" ++ t.text ++ ");") ++
        sharedState.map (fun x => "modifies " ++ x ++ ";") ++ ["\x7b"]
    declarations := ["var initFunctionState : FunctionState;", "var initHeap : Heap;"] ++
      locals.declarations
    spaced := false
    body := locals.defaults ++
      [.keep "initFunctionState" (.name "functionState"), .keep "initHeap" (.name "heap"),
        .comment "left new"] ++ fresh ++ leftBody ++ saveSide "1" ++
      [.keep "functionState" (.name "initFunctionState"), .keep "heap" (.name "initHeap"),
        .comment "right new"] ++ fresh ++ rightBody ++ saveSide "2" ++ claims }

/-! ## Methods -/

def methodCode (env : Environment) (o : Object) (m : Method) (args : List String)
    (locals : Locals) : Build FinishedCode :=
  inMethod o m
    (finishCode ⟨env, Build.require env, methodVars "objectMemory" o m args⟩ locals m.body)

/-- The code that runs one side of a method from its own state. -/
def runSide (side note : String) (c : FinishedCode) (locals : Locals) (result : Term) : List Stmt :=
  [.keep "heap" (.name ("heap" ++ side)),
    .keep "objectMemory" (.name ("objectMemory" ++ side)),
    .keep "checkpoints" (.name "initCheckpoints")] ++
  c.labels.flatMap Stmt.saveCheckpoint ++ [.comment note] ++ locals.defaults ++ c.code.body ++
  [.keep ("internal.r" ++ side) result] ++ saveSide side

def methodPair (env : Environment) (b : Bisimulation) (invariants : List Term) (name : String)
    (left right : Method) : Build Procedure := do
  let args := sharedArguments (max left.params.length right.params.length)
  let l ← methodCode env b.left left args .empty
  let r ← methodCode env b.right right args l.locals
  let leftResult ← orInternal l.code.value.toValue
  let rightResult ← orInternal r.code.value.toValue
  let claims ← b.checkpointClaims env l.labels r.labels
  return {
    signature :=
      ("procedure both." ++ name ++ "(internal.objectId : ObjectId" ++
        String.join (args.map fun a => "," ++ a ++ ":T") ++
        ") returns (internal.r1:T, internal.r2:T, functionState1:FunctionState, functionState2:FunctionState)") ::
        invariants.map (fun t => "requires (" ++ t.text ++ ");") ++
        sharedState.map (fun x => "modifies " ++ x ++ ";") ++
        invariants.map (fun t => "ensures (" ++ t.text ++ ");") ++
        ["ensures functionState1==functionState2;", "ensures internal.r1==internal.r2; \x7b"]
    declarations := r.locals.declarations ++ ["var initFunctionState : FunctionState;"]
    spaced := true
    body := [.keep "initFunctionState" (.name "functionState")] ++
      runSide "1" "left method" l r.locals leftResult ++
      [.keep "functionState" (.name "initFunctionState")] ++
      runSide "2" "right method" r r.locals rightResult ++ claims }

def methodNamed (env : Environment) (b : Bisimulation) (invariants : List Term) (name : String) :
    Build Procedure :=
  match b.left.method? name, b.right.method? name with
  | some l, some r => b.methodPair env invariants name l r
  | _, _ => throw (env.fault .bisimSignaturesDiffer)

def build (env : Environment) (b : Bisimulation) : Build Unit := do
  header env
  Build.declareAll env b.left.toExpr
  Build.declareAll env b.right.toExpr
  Build.blank
  let invariants ← b.invariants env
  let c ← b.construction env invariants
  writeProcedures [c]
  b.left.methodNames.forM fun name => do
    let p ← b.methodNamed env invariants name
    writeProcedures [p]

def program (env : Environment) (b : Bisimulation) : Except CheckError String := do
  if !b.left.sameMethods b.right then
    throw (env.fault .bisimSignaturesDiffer)
  Build.program env (b.build env)

end Bisimulation

end GameHop.Program
