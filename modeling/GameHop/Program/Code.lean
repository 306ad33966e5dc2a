import GameHop.Program.Formula

/-!
Expressions as code. The code of an expression is a list of statements and a term; running the
statements and then evaluating the term in the state that they leave does what the expression does.
-/

namespace GameHop.Program

/-- Statements, and a term for the value after them. -/
structure Code where
  body : List Stmt
  value : Value

/-- A procedure in the making. -/
structure BodyState where
  draft : Draft
  locals : Locals
  /-- The labels of the checkpoints so far, in ascending order. -/
  labels : List String

abbrev BuildBody := StateT BodyState (Except CheckError)

namespace BuildBody

def onDraft {α : Type} (x : Build α) : BuildBody α := do
  let s ← get
  let (a, d) ← x.run s.draft
  set { s with draft := d }
  return a

def temp (sort : String) : BuildBody String :=
  modifyGet fun s =>
    let (x, locals) := s.locals.fresh sort
    (x, { s with locals })

def valueTemp : BuildBody String :=
  temp TermSort.value.name

def declareLocal (x : String) : BuildBody Unit :=
  modify fun s => { s with locals := s.locals.declare x TermSort.value.name }

def addLabel (label : String) : BuildBody Unit :=
  modify fun s => { s with labels := insertName label s.labels }

end BuildBody

/-- What the names of an expression stand for. -/
structure CodeContext where
  env : Environment
  require : String → Build Unit
  /-- The terms of fields and parameters. Any other name stands for itself. -/
  vars : List (String × Term)

namespace CodeContext

def termOf (ctx : CodeContext) (x : String) : Term :=
  (ctx.vars.lookup x).getD (.name x)

def ofFormulas (ctx : CodeContext) : FormulaContext :=
  ⟨ctx.env, ctx.require, ctx.vars, none⟩

end CodeContext

/-- `t := v;` -/
def Stmt.keep (temp : String) (value : Term) : Stmt :=
  .set (.name temp) value

/-- The code that keeps values in new temporary variables, and these variables. -/
def keepAll : List Value → BuildBody (List Stmt × List String)
  | [] => return ([], [])
  | v :: vs => do
    let tmp ← BuildBody.valueTemp
    let t ← orInternal v.toValue
    let (body, tmps) ← keepAll vs
    return (.keep tmp t :: body, tmp :: tmps)

/-- The procedure for a method of any class. -/
def fallbackProcedure (method : String) (arity : Nat) : BuildBody String :=
  BuildBody.onDraft (Build.methodProcedure method arity)

/-- The code of a formula that a program asserts or assumes. -/
def claimCode (ctx : CodeContext) (stmt : Term → Stmt) (p : Formula) : BuildBody Code := do
  let t ← BuildBody.onDraft (Build.inFrame .logical [] (p.claim ctx.ofFormulas))
  return ⟨[stmt t], .ofName .bitstring "nil"⟩

/-- The code that builds an object of a declared class. -/
def constructCode (o : Object) (args : List Term) : BuildBody Code := do
  match (← get).draft.classes.get? o with
  | none => throw (.internal .classNotDeclared)
  | some cls =>
    let object ← BuildBody.temp TermSort.object.name
    return ⟨[.call object (cls ++ ".new") args,
        .set (.index (.name object) (.name "objectIdAttr"))
          (.onState "freshObjectId" [.name "internal.objectId", .name "heap"]),
        .keep "heap" (.onState "addObject" [.name "heap", .name object])],
      ⟨.objectId, .index (.name object) (.name "objectIdAttr")⟩⟩

/-- The code that calls a method. The arguments are kept first, because they may read the memory of
    the caller, which the call puts aside. -/
def invokeCode (ctx : CodeContext) (target : Value) (method : String) (classes : List String)
    (args : List Value) : BuildBody Code := do
  let (kept, tmps) ← keepAll args
  let oid ← BuildBody.temp TermSort.objectId.name
  let id ← orInternal target.toObjectId
  let result ← BuildBody.valueTemp
  let fallback ← fallbackProcedure method args.length
  BuildBody.onDraft (classes.forM ctx.require)
  let memory ← BuildBody.temp TermSort.memory.name
  let split ← BuildBody.temp "SplitHeap"
  return ⟨kept ++ [.keep oid id, .keep result (.name "defaultValue"),
      .invoke ⟨method, oid, tmps, classes, fallback, result, memory, split⟩],
    .ofName .value result⟩

def applyCode (f : Function) (args : List Term) : BuildBody Code := do
  if f.isPure then
    return ⟨[], ⟨f.resultSort, .call f.name.name args⟩⟩
  else
    let tmp ← BuildBody.temp f.resultSort.name
    return ⟨[.apply tmp f.name.name args], .ofName f.resultSort tmp⟩

end GameHop.Program

namespace GameHop

open Program

mutual

def Expr.code (ctx : CodeContext) : Expr → BuildBody Code
  | .int _ n => return ⟨[], ⟨.integer, .int n⟩⟩
  | .bool _ b => return ⟨[], ⟨.boolean, .bool b⟩⟩
  | .lookup _ x => do
    let ty ← BuildBody.onDraft (Build.typeOf? x.name)
    return ⟨[], ⟨(ty.map TermSort.ofTy).getD .value, ctx.termOf x.name⟩⟩
  | .paren _ none e => e.code ctx
  | .paren _ (some label) e => do
    let c ← e.code ctx
    BuildBody.onDraft (Build.addCheckpoint label.name)
    BuildBody.addLabel label.name
    return ⟨c.body ++ Stmt.saveCheckpoint label.name, c.value⟩
  | .seq _ a b => do
    let a ← a.code ctx
    let b ← b.code ctx
    return ⟨a.body ++ b.body, b.value⟩
  | .assign _ x e => do
    let c ← e.code ctx
    if (ctx.vars.lookup x.name).isNone then
      BuildBody.declareLocal x.name
    let t ← orInternal c.value.toValue
    BuildBody.onDraft (Build.declare x.name .value)
    return ⟨c.body ++ [.assign (ctx.termOf x.name) t], c.value⟩
  | .ternary _ cond yes no => do
    let c ← cond.code ctx
    let tmp ← BuildBody.valueTemp
    let test ← orInternal c.value.toBoolean
    let y ← yes.code ctx
    let yv ← orInternal y.value.toValue
    let n ← no.code ctx
    let nv ← orInternal n.value.toValue
    return ⟨c.body ++ [.ifElse test (y.body ++ [.keep tmp yv]) (n.body ++ [.keep tmp nv])],
      .ofName .value tmp⟩
  | .unary _ .not e => do
    let c ← e.code ctx
    let t ← orInternal c.value.toBoolean
    return ⟨c.body, ⟨.boolean, .not t⟩⟩
  | .unary _ .ref e => do
    let c ← e.code ctx
    let id ← orInternal c.value.toObjectId
    return ⟨c.body ++ [.allocate id], c.value⟩
  | .unary _ .tobits e => do
    let c ← e.code ctx
    let t ← orInternal c.value.toBitstring
    return ⟨c.body, ⟨.bitstring, t⟩⟩
  | .binary _ (.logic op) a b => do
    let a ← a.code ctx
    let truth ← orInternal a.value.toBoolean
    let test := match op with
      | .and => truth
      | .or => .not truth
    let tmp ← BuildBody.valueTemp
    let av ← orInternal a.value.toValue
    let b ← b.code ctx
    let bv ← orInternal b.value.toValue
    return ⟨a.body ++ [.keep tmp av, .ifThen test (b.body ++ [.keep tmp bv])],
      .ofName .value tmp⟩
  | .binary _ (.compare op) a b => do
    let a ← a.code ctx
    let b ← b.code ctx
    let sort := comparisonSort op a.value.sort b.value.sort
    let l ← orInternal (a.value.coerce sort)
    let r ← orInternal (b.value.coerce sort)
    return ⟨a.body ++ b.body, ⟨.boolean, .binary (.compare op) l r⟩⟩
  | .binary _ (.arith op) a b => do
    let a ← a.code ctx
    let b ← b.code ctx
    let l ← orInternal a.value.toInteger
    let r ← orInternal b.value.toInteger
    return ⟨a.body ++ b.body, ⟨.integer, .arith op l r⟩⟩
  | .call _ f args => do
    match ctx.env.functions.get? f.name with
    | none => throw (.internal (.functionNotDeclared f.name))
    | some decl =>
      let (body, actuals) ← Expr.argumentCode ctx decl 0 args
      let c ← applyCode decl actuals
      return ⟨body ++ c.body, c.value⟩
  | .invoke _ target method classes args => do
    let t ← target.code ctx
    let (body, values) ← Expr.codeList ctx args
    let c ← invokeCode ctx t.value method.name (classes.map (·.name)) values
    return ⟨t.body ++ body ++ c.body, c.value⟩
  | .new _ ⟨className, fields, methods⟩ => do
    let (body, values) ← Expr.fieldCode ctx fields
    let c ← constructCode ⟨className, fields, methods⟩ values
    return ⟨body ++ c.body, c.value⟩
  | .index _ m k => do
    let m ← m.code ctx
    let k ← k.code ctx
    let map ← orInternal m.value.toMemory
    let key ← orInternal k.value.toBitstring
    return ⟨m.body ++ k.body, ⟨.value, .index map key⟩⟩
  | .update _ m k v => do
    let m ← m.code ctx
    let k ← k.code ctx
    let v ← v.code ctx
    let map ← orInternal m.value.toMemory
    let key ← orInternal k.value.toBitstring
    let val ← orInternal v.value.toValue
    return ⟨m.body ++ k.body ++ v.body, ⟨.memory, .store map key val⟩⟩
  | .assert _ p => claimCode ctx .assert p
  | .assume _ p => claimCode ctx .assume p
  | .ellipsis _ => throw (.internal .ellipsisLeft)
  | .hole _ => throw (.internal .holeLeft)

def Expr.codeList (ctx : CodeContext) : List Expr → BuildBody (List Stmt × List Value)
  | [] => return ([], [])
  | e :: es => do
    let c ← e.code ctx
    let (body, values) ← Expr.codeList ctx es
    return (c.body ++ body, c.value :: values)

def Expr.argumentCode (ctx : CodeContext) (f : Function) (i : Nat) :
    List Expr → BuildBody (List Stmt × List Term)
  | [] => return ([], [])
  | e :: es => do
    let c ← e.code ctx
    let t ← orInternal (c.value.coerce (f.paramSort i))
    let (body, ts) ← Expr.argumentCode ctx f (i + 1) es
    return (c.body ++ body, t :: ts)

def Expr.fieldCode (ctx : CodeContext) : List Field → BuildBody (List Stmt × List Term)
  | [] => return ([], [])
  | ⟨_, _, e⟩ :: fs => do
    let c ← e.code ctx
    let t ← orInternal c.value.toValue
    let (body, ts) ← Expr.fieldCode ctx fs
    return (c.body ++ body, t :: ts)

end

end GameHop

namespace GameHop.Program

/-- The body of a procedure, finished. -/
structure FinishedCode where
  code : Code
  locals : Locals
  labels : List String

/-- The code of an expression in a procedure that has some variables already. -/
def finishCode (ctx : CodeContext) (locals : Locals) (e : Expr) : Build FinishedCode := fun d => do
  let (c, s) ← (e.code ctx).run ⟨d, locals, []⟩
  return (⟨c, s.locals, s.labels⟩, s.draft)

end GameHop.Program
