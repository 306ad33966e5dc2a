import GameHop.Program.Code
import GameHop.Term.Postorder

/-!
Classes: the procedures of the objects that a program builds. An object is declared before the first
code that builds it, and the classes that its methods name are declared on the way.
-/

namespace GameHop.Program

/-! ## Names inside methods -/

/-- Fields stand for parts of a memory. -/
def fieldVars (memory : String) (fields : List String) : List (String × Term) :=
  fields.map fun f => (f, .index (.name memory) (.name (fieldAttr f)))

/-- Fields stand for parts of a memory, parameters for given terms. A parameter hides a field of its
    name. -/
def methodVars (memory : String) (o : Object) (m : Method) (params : List String) :
    List (String × Term) :=
  (m.paramNames.zip (params.map Term.name)).reverse ++ fieldVars memory o.fieldNames

/-- Works with the fields of an object and the parameters of a method in scope. -/
def inMethod {α : Type} (o : Object) (m : Method) (x : Build α) : Build α :=
  Build.inFrame .variables (o.fieldNames.map (·, .value)) <|
    Build.inFrame .variables (m.paramNames.map (·, .value)) x

/-! ## Procedures of a class -/

def methodProcedure (env : Environment) (require : String → Build Unit) (o : Object) (cls : String)
    (m : Method) : Build Procedure := do
  let vars := methodVars "objectMemory" o m m.paramNames
  let c ← inMethod o m (finishCode ⟨env, require, vars⟩ .empty m.body)
  let result ← orInternal c.code.value.toValue
  let params := String.join (m.paramNames.map fun p => ", " ++ p ++ ":T")
  return {
    signature := [
      "procedure \x7b:inline 1\x7d " ++ cls ++ "." ++ m.name.name ++
        "(internal.classId : ClassId, internal.objectId : ObjectId" ++ params ++
        ") returns (internal.result : T)",
      "modifies objectMemory;",
      "modifies functionState;",
      "modifies heap;",
      "modifies checkpoints;",
      Build.classPreserved,
      "\x7b"]
    declarations := c.locals.declarations
    spaced := true
    body := c.locals.defaults ++ c.code.body ++ [.keep "internal.result" result] }

/-- The procedure that builds an object from the values of its fields. -/
def constructor (cls : String) (fields : List String) : Procedure where
  signature := ["procedure \x7b:inline 1\x7d " ++ cls ++ ".new(" ++
    ",".intercalate (fields.map (· ++ ":T")) ++ ") returns (internal.result: Object) \x7b"]
  declarations := ["var internal.tmp0:Object;", "var internal.tmp1:Memory;"]
  spaced := false
  body := [.keep "internal.tmp0" (.name "emptyObject"),
      .keep "internal.tmp1" (.call "toMemory" [.name "defaultValue"])] ++
    fields.map (fun f => .set (.index (.name "internal.tmp1") (.name (fieldAttr f))) (.name f)) ++
    [.set (.index (.name "internal.tmp0") (.name "objectMemoryAttr")) (.name "internal.tmp1"),
      .set (.index (.name "internal.tmp0") (.name "objectClassIdAttr")) (.name cls),
      .keep "internal.result" (.name "internal.tmp0")]

def writeProcedures (ps : List Procedure) : Build Unit :=
  ps.forM fun p => Build.write fun w => (p.write w).blank

/-! ## Declarations -/

def declareClass (env : Environment) (require : String → Build Unit) (o : Object) :
    Build Unit := do
  if ((← get).classes.get? o).isNone then
    let d ← get
    let cls := (o.className.map (·.name)).getD d.classes.freshId
    Build.addClassId cls
    let methods ← o.methods.mapM (methodProcedure env require o cls)
    -- The initial values may have labels, whose constants have to be declared too.
    o.fields.forM fun f => do
      let _ ← finishCode ⟨env, require, []⟩ .empty f.value
    let classes ← orInternal ((← get).classes.insert o cls)
    modify fun d => { d with classes }
    Build.addFields o.fieldNames
    writeProcedures (methods ++ [constructor cls o.fieldNames])

/-- Declares what a single node needs: the class that it builds or the method that it calls. -/
def declareNode (env : Environment) (require : String → Build Unit) : Expr → Build Unit
  | .invoke _ _ method _ args => do
    let _ ← Build.methodProcedure method.name args.length
  | .new _ o => declareClass env require o
  | _ => return

/-- Declares every class that an expression builds and every method that it calls, the innermost
    first. -/
def declareAll (env : Environment) (require : String → Build Unit) (e : Expr) : Build Unit :=
  e.postorder.forM (declareNode env require)

/-- Declares a named class: its template, if it is known, and the class itself. -/
def requireWith (env : Environment) (declare : Object → Build Unit) (cls : String) :
    Build Unit := do
  if !(← get).constants.hasClassId cls then
    match env.classes.lookup cls with
    | some o => declare o
    | none => pure ()
    Build.addClassId cls

/-- Declares a named class, by at most `depth` templates inside each other. The classes that a
    template needs are declared before it, and nothing keeps it from needing itself. -/
def requireClass (env : Environment) : Nat → String → Build Unit
  | 0 => requireWith env fun _ => throw (.internal .classesUnbounded)
  | depth + 1 => requireWith env fun o => declareAll env (requireClass env depth) o.toExpr

end GameHop.Program

namespace GameHop

namespace Environment

/-- The nodes of all templates. -/
def templateNodes (env : Environment) : List Expr :=
  env.classes.flatMap fun c => c.2.toExpr.postorder

/-- The names in all templates. -/
def templateNames (env : Environment) : List String :=
  env.classes.flatMap fun c => c.2.toExpr.identifiers

/-- How many templates may be inside each other in declarations that end. One after the other, each
    template is begun at most once until a class, an object or a variable is added to what is
    known. -/
def templateDepth (env : Environment) : Nat :=
  env.classes.length *
    (env.classes.length + env.templateNodes.length + env.templateNames.length + 2)

end Environment

end GameHop

namespace GameHop.Program

/-- Declares a named class with all that it needs. -/
def Build.require (env : Environment) : String → Build Unit :=
  requireClass env env.templateDepth

def Build.declareAll (env : Environment) (e : Expr) : Build Unit :=
  Program.declareAll env (Build.require env) e

end GameHop.Program
