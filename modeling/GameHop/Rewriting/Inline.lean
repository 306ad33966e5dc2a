import GameHop.Check.Error
import GameHop.Check.Scope
import GameHop.Term.Names
import GameHop.Term.Substitution

/-!
Inlining of objects. An object that is the initial value of a field is dissolved into the object
around it: its fields become fields of that object, and the invocations of its methods become their
bodies.
-/

namespace GameHop.Inlining

/-! ## Invocations -/

/-- What is known at the invocations of a dissolved object. -/
structure CallSite where
  field : String
  object : Object
  fields : Renaming
  /-- The names declared outside. -/
  globals : List String

/-- The variables of a method body, in ascending order: its parameters and what it reads besides
    fields and names declared outside. -/
def CallSite.variables (site : CallSite) (callee : Method) : List String :=
  let isVariable := fun x => !(site.fields.lookup x).isSome && !site.globals.contains x
  sortNames (callee.body.free.filter isVariable ++ callee.paramNames)

/-- New names for variables, none of them in scope before, and the scope after that. -/
def freshLocals (scope : List String) : List String → Renaming × List String
  | [] => ([], scope)
  | x :: xs =>
    let y := freshName "l_" scope
    let (names, scope) := freshLocals (scope ++ [y]) xs
    ((x, y) :: names, scope)

/-- Assignments before an expression. -/
def assignThen (assignments : List (String × Expr)) (e : Expr) : Expr :=
  assignments.foldr (fun (x, value) tail => .seq .nowhere (.assign .nowhere (.plain x) value) tail) e

/-- The body of a method in the place of its invocation. Missing arguments are zero. -/
def CallSite.expand (site : CallSite) (callee : Method) (args : List Expr) :
    StateT (List String) (Except Fault) Expr := do
  let (locals, scope) := freshLocals (← get) (site.variables callee)
  set scope
  let names := locals ++ site.fields
  let assignments := callee.paramNames.mapIdx fun i x =>
    ((names.lookup x).getD x, args[i]?.getD (.ofNat 0))
  return .paren .nowhere none (assignThen assignments (callee.body.rename names))

def CallSite.visit (site : CallSite) (e : Expr) : StateT (List String) (Except Fault) Expr := do
  match e with
  | .invoke _ target m _ args =>
    if target.varName? == some site.field then
      match site.object.methods.find? (·.name.name == m.name) with
      | some callee => site.expand callee args
      | none => throw (.inlineUnknownMethod m.name)
    else
      return e
  | e => return e

/-- Expands the invocations in a method of the object around, where `members` are its fields. -/
def CallSite.expandIn (site : CallSite) (members : List String) (m : Method) :
    Except Fault Method := do
  let scope := m.body.free ++ m.paramNames ++ members
  let (body, _) ← (m.body.bottomUpM false site.visit).run scope
  return { m with body }

/-! ## Fields -/

/-- A name for a field: the next of the given names if it is free, else one of `m_0`, `m_1`, .... -/
def freshMember (taken : List String) : StateM (List String) String := do
  match ← get with
  | [] => return freshName "m_" taken
  | x :: xs =>
    set xs
    return if taken.contains x then freshName "m_" taken else x

/-- The fields of a dissolved object under new names, and these names. -/
def liftFields (taken : List String) (names : Renaming) :
    List Field → StateM (List String) (List Field × Renaming)
  | [] => return ([], names)
  | f :: fs => do
    let x ← freshMember taken
    let lifted : Field := { f with name := { f.name with name := x }, value := f.value.rename names }
    let (rest, names) ← liftFields (taken ++ [x]) ((f.name.name, x) :: names) fs
    return (lifted :: rest, names)

/-- Whether a name is read by one of the fields, or by a method that has no parameter of that name. -/
def isReferenced (x : String) (fields : List Field) (methods : List Method) : Bool :=
  fields.any (·.value.free.contains x) ||
    methods.any fun m => m.body.free.contains x && !m.paramNames.contains x

/-- Dissolves the object `inner` of the field `x` that stands between the fields `before` and
    `after`. Gives the fields in its place and the methods. -/
def dissolve (scope : Scope) (before : List Field) (x : String) (inner : Object)
    (after : List Field) (methods : List Method) :
    StateT (List String) (Except Fault) (List Field × List Method) := do
  let members := (before ++ after).map (·.name.name)
  let locals := inner.methods.flatMap (·.body.locals scope.declares)
  let globals := scope.allNames
  let ((lifted, names), given) := (liftFields (members ++ locals ++ globals) [] inner.fields).run
    (← get)
  set given
  let site : CallSite := ⟨x, inner, names, globals⟩
  let methods ← methods.mapM fun m =>
    site.expandIn (members ++ lifted.map (·.name.name)) m
  if isReferenced x (before ++ lifted ++ after) methods then
    throw (.inlineStillReferenced x)
  return (lifted, methods)

/-- Dissolves the objects among the fields `todo`; `done` are the fields before them. -/
def dissolveFields (scope : Scope) (done : List Field) (methods : List Method) :
    (todo : List Field) → StateT (List String) (Except Fault) (List Field × List Method)
  | [] => return (done, methods)
  | f :: fs => do
    match f.value.unparen.object? with
    | none => dissolveFields scope (done ++ [f]) methods fs
    | some inner =>
      let (lifted, methods) ← dissolve scope done f.name.name inner fs methods
      dissolveFields scope (done ++ lifted) methods fs

/-- Dissolves the objects in the fields of an object literal. -/
def visit (scope : Scope) (e : Expr) : StateT (List String) (Except Fault) Expr := do
  match e with
  | .new s o =>
    let (fields, methods) ← dissolveFields scope [] o.methods o.fields
    return .new s { o with fields, methods }
  | e => return e

end GameHop.Inlining

namespace GameHop

/-- Dissolves every object that is the initial value of a field, the inner ones first. The new fields
    take their names from `names` as long as these are free. -/
def Expr.inlineObjects (scope : Scope) (names : List String) (e : Expr) : Except Fault Expr := do
  let (e, _) ← (e.bottomUpM true (Inlining.visit scope)).run names
  return e

end GameHop
