import GameHop.Check.Environment
import GameHop.Table
import GameHop.Term.Names

/-!
Which names an expression may use. An expression may read what is declared, assign what is no
constant, and call declared functions. On the way the classes that it names are collected.
-/

namespace GameHop

/-- The names in force: variables, and classes by their names. -/
structure Naming where
  scope : Scope
  classes : List (String × Object)

structure Objection where
  span : Span
  fault : Fault

/-- Checks that read and change the names in force. -/
abbrev NamingM := ExceptT Objection (StateM Naming)

namespace NamingM

def modifyScope (f : Scope → Scope) : NamingM Unit :=
  modify fun n => { n with scope := f n.scope }

def getScope : NamingM Scope :=
  return (← get).scope

def ensure (ok : Bool) (span : Span) (fault : Fault) : NamingM Unit :=
  if ok then return () else throw ⟨span, fault⟩

/-- Works in a new frame. A failure leaves the frame open. -/
def inFrame (kind : FrameKind) (x : NamingM Unit) : NamingM Unit := do
  modifyScope (·.push kind)
  x
  modifyScope (·.pop)

def declareParam (default : Ty) (p : Param) : NamingM Unit := do
  ensure ((← getScope).mayDeclare p.name.name) p.name.span (.alreadyDeclared p.name.name)
  modifyScope (·.declare p.name.name (p.ty.getD default))

def declareParams (default : Ty) (ps : List Param) : NamingM Unit :=
  ps.forM (declareParam default)

def declareLocals (body : Expr) : NamingM Unit := do
  let scope ← getScope
  modifyScope fun s => (body.locals scope.declares).foldl (·.declare · .value) s

def checkLookup (x : Ident) : NamingM Unit := do
  ensure ((← getScope).declares x.name) x.span (.notDeclared x.name)

/-- Checks an assignment. An undeclared variable is declared by it. -/
def checkAssign (x : Ident) : NamingM Unit := do
  let scope ← getScope
  if scope.declares x.name then
    ensure (scope.mayAssign x.name) x.span (.isConstant x.name)
  else
    modifyScope (·.declare x.name .value)

def declareField (x : Ident) : NamingM Unit := do
  ensure ((← getScope).mayDeclare x.name) x.span (.alreadyDefined x.name)
  modifyScope (·.declare x.name .value)

def keepClass (o : Object) : NamingM Unit :=
  match o.className with
  | none => return ()
  | some c => modify fun n => { n with classes := insertEntry c.name o n.classes }

end NamingM

open NamingM

/-! ## Formulas -/

mutual

/-- Checks that quantifiers bind each name once. -/
def Formula.check : Formula → NamingM Unit
  | .quant _ _ params p =>
    inFrame .constant do
      declareParams .bits params
      p.check
  | .paren _ p | .unary _ _ p => p.check
  | .binary _ _ a b | .index _ a b | .independence _ _ a b | .frame _ a b
  | .frameHeap _ _ _ a b => do
    a.check
    b.check
  | .update _ a b c => do
    a.check
    b.check
    c.check
  | .call _ _ args => Formula.checkList args
  | .int _ _ | .bool _ _ | .lookup _ _ | .env _ _ | .sameObject _ _ _ | .objectIs _ _ _
  | .field _ _ _ | .frameAll _ | .fieldsEqual _ | .fieldsEqualExcept _ _ => return ()

def Formula.checkList : List Formula → NamingM Unit
  | [] => return ()
  | p :: ps => do
    p.check
    Formula.checkList ps

end

/-! ## Expressions -/

mutual

def Expr.check (functions : Functions) : Expr → NamingM Unit
  | .lookup _ x => checkLookup x
  | .assign _ x e => do
    e.check functions
    checkAssign x
  | .call _ f args => do
    Expr.checkList functions args
    ensure (functions.contains f.name) f.span (.functionNotDeclared f.name)
  | .new _ ⟨className, fields, methods⟩ => do
    inFrame .variables do
      Expr.checkFields functions fields
      Expr.checkMethods functions methods
    keepClass ⟨className, fields, methods⟩
  | .assert _ p | .assume _ p => p.check
  | .paren _ _ e | .unary _ _ e => e.check functions
  | .seq _ a b | .binary _ _ a b | .index _ a b => do
    a.check functions
    b.check functions
  | .ternary _ a b c | .update _ a b c => do
    a.check functions
    b.check functions
    c.check functions
  | .invoke _ target _ _ args => do
    target.check functions
    Expr.checkList functions args
  | .int _ _ | .bool _ _ | .ellipsis _ | .hole _ => return ()

def Expr.checkList (functions : Functions) : List Expr → NamingM Unit
  | [] => return ()
  | e :: es => do
    e.check functions
    Expr.checkList functions es

/-- Checks fields in order; each is in scope after its initial value. -/
def Expr.checkFields (functions : Functions) : List Field → NamingM Unit
  | [] => return ()
  | ⟨_, x, value⟩ :: fs => do
    inFrame .variables do
      declareLocals value
      value.check functions
    declareField x
    Expr.checkFields functions fs

def Expr.checkMethods (functions : Functions) : List Method → NamingM Unit
  | [] => return ()
  | ⟨_, _, params, body⟩ :: ms => do
    inFrame .variables do
      declareParams .bits params
      declareLocals body
      body.check functions
    Expr.checkMethods functions ms

end

end GameHop
