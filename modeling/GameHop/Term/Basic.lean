import GameHop.Source.Span

/-!
The terms of the calculus. Expressions are programs: they build objects, call functions, invoke
methods and assign variables.
-/

namespace GameHop

/-! ## Types and operators -/

inductive Ty where
  | bits
  /-- Any value, written `opaque`. -/
  | value
  | int
  | real
  | map
  /-- Contexts of a program. -/
  | expr
deriving DecidableEq, Repr, Inhabited

namespace Ty

def keyword : Ty → String
  | bits => "bits" | value => "opaque" | int => "int" | real => "real" | map => "map"
  | expr => "expr"

def ofKeyword? : String → Option Ty
  | "bits" => some bits | "opaque" => some value | "int" => some int | "real" => some real
  | "map" => some map | "expr" => some expr
  | _ => none

end Ty

/-- Operators that may leave their right operand unevaluated. -/
inductive LogicOp where
  | and
  | or
deriving DecidableEq, Repr

def LogicOp.symbol : LogicOp → String
  | and => "&" | or => "|"

inductive CmpOp where
  | eq | ne | lt | le | gt | ge
  /-- Equality of values as such, in formulas only. -/
  | same
deriving DecidableEq, Repr

def CmpOp.symbol : CmpOp → String
  | eq => "==" | ne => "!=" | lt => "<" | le => "<=" | gt => ">" | ge => ">=" | same => "="

/-- Arithmetic on integers. -/
inductive ArithOp where
  | add | sub | mul | div | mod
deriving DecidableEq, Repr

namespace ArithOp

def symbol : ArithOp → String
  | add => "+" | sub => "-" | mul => "*" | div => "/" | mod => "%"

/-- Whether the operator is a sum or a difference. -/
def isAdditive : ArithOp → Bool
  | add | sub => true
  | mul | div | mod => false

end ArithOp

inductive UnaryOp where
  | not | ref | tobits
deriving DecidableEq, Repr

inductive BinaryOp where
  | logic (op : LogicOp)
  | compare (op : CmpOp)
  | arith (op : ArithOp)
deriving DecidableEq, Repr

def BinaryOp.symbol : BinaryOp → String
  | logic op => op.symbol
  | compare op => op.symbol
  | arith op => op.symbol

/-- Connectives of formulas. -/
inductive Connective where
  | and | or | implies
deriving DecidableEq, Repr

def Connective.symbol : Connective → String
  | and => "&&" | or => "||" | implies => "->"

inductive FormulaUnaryOp where
  | not | tobits | isBits
deriving DecidableEq, Repr

inductive FormulaOp where
  | logic (op : Connective)
  | compare (op : CmpOp)
  | arith (op : ArithOp)
deriving DecidableEq, Repr

def FormulaOp.symbol : FormulaOp → String
  | logic op => op.symbol
  | compare op => op.symbol
  | arith op => op.symbol

inductive Quantifier where
  | all
  | some
deriving DecidableEq, Repr

def Quantifier.keyword : Quantifier → String
  | all => "forall" | some => "exists"

/-- The two objects that a formula may relate. -/
inductive Side where
  | left
  | right
deriving DecidableEq, Repr

def Side.text : Side → String
  | left => "left" | right => "right"

/-- A parameter, with its type if one is given. -/
structure Param where
  span : Span
  name : Ident
  ty : Option Ty
deriving DecidableEq, Repr

/-- What an object is said to be an instance of: a class, or no class at all. -/
inductive ClassRef where
  | named (name : Ident)
  | invalid
deriving DecidableEq, Repr

/-! ## Terms -/

mutual

inductive Expr where
  | int (span : Span) (value : UInt64)
  | bool (span : Span) (value : Bool)
  | lookup (span : Span) (name : Ident)
  /-- `(e)`, or `L@(e)`, which records the state under the label `L`. -/
  | paren (span : Span) (label : Option Ident) (inner : Expr)
  | seq (span : Span) (head tail : Expr)
  | assign (span : Span) (target : Ident) (value : Expr)
  | ternary (span : Span) (cond yes no : Expr)
  | unary (span : Span) (op : UnaryOp) (inner : Expr)
  | binary (span : Span) (op : BinaryOp) (left right : Expr)
  | call (span : Span) (function : Ident) (args : List Expr)
  /-- `target.method<C1, C2>(args)`; the classes are those the target may belong to. -/
  | invoke (span : Span) (target : Expr) (method : Ident) (classes : List Ident) (args : List Expr)
  | new (span : Span) (object : Object)
  | index (span : Span) (map key : Expr)
  | update (span : Span) (map key value : Expr)
  | assert (span : Span) (claim : Formula)
  /-- `admit(p)`: the formula is taken for granted. -/
  | assume (span : Span) (claim : Formula)
  /-- `...`, which stands for the previous body of a method. -/
  | ellipsis (span : Span)
  /-- The place of the part that a context leaves open. -/
  | hole (span : Span)

/-- An object literal: its class if it has a name, its fields with their initial values, its
    methods. -/
structure Object where
  className : Option Ident
  fields : List Field
  methods : List Method

structure Field where
  span : Span
  name : Ident
  value : Expr

structure Method where
  span : Span
  name : Ident
  params : List Param
  body : Expr

inductive Formula where
  | int (span : Span) (value : UInt64)
  | bool (span : Span) (value : Bool)
  | lookup (span : Span) (name : Ident)
  | paren (span : Span) (inner : Formula)
  | quant (span : Span) (quantifier : Quantifier) (params : List Param) (body : Formula)
  | unary (span : Span) (op : FormulaUnaryOp) (inner : Formula)
  | binary (span : Span) (op : FormulaOp) (left right : Formula)
  | call (span : Span) (function : Ident) (args : List Formula)
  | index (span : Span) (map key : Formula)
  | update (span : Span) (map key value : Formula)
  /-- `env (c1)(c2)`, the advantage of an adversary in nested contexts. -/
  | env (span : Span) (contexts : List Expr)
  | sameObject (span : Span) (left right : ObjectTerm)
  | independence (span : Span) (heap : HeapTerm) (left right : Formula)
  | objectIs (span : Span) (object : ObjectTerm) (cls : ClassRef)
  | field (span : Span) (object : ObjectTerm) (name : Ident)
  | frameAll (span : Span)
  | frame (span : Span) (left right : Formula)
  | frameHeap (span : Span) (leftHeap rightHeap : HeapTerm) (left right : Formula)
  | fieldsEqual (span : Span)
  | fieldsEqualExcept (span : Span) (fields : List Ident)

/-- An object that a formula speaks about. -/
inductive ObjectTerm where
  | side (side : Side)
  /-- The object that `reference` denotes in `heap`. -/
  | inHeap (heap : HeapTerm) (reference : Formula)

/-- A heap that a formula speaks about. -/
inductive HeapTerm where
  | side (side : Side)
  /-- The part of `heap` that the object `reference` can reach. -/
  | inHeap (heap : HeapTerm) (reference : Formula)

end

instance : Inhabited Expr := ⟨.hole .nowhere⟩
instance : Inhabited Formula := ⟨.frameAll .nowhere⟩

/-! ## Access -/

namespace Expr

def span : Expr → Span
  | int s _ | bool s _ | lookup s _ | paren s _ _ | seq s _ _ | assign s _ _ | ternary s _ _ _
  | unary s _ _ | binary s _ _ _ | call s _ _ | invoke s _ _ _ _ | new s _ | index s _ _
  | update s _ _ _ | assert s _ | assume s _ | ellipsis s | hole s => s

/-- An integer that no source text holds. -/
def ofNat (n : UInt64) : Expr :=
  .int .nowhere n

/-- A variable that no source text holds. -/
def var (name : String) : Expr :=
  .lookup .nowhere (.plain name)

/-- The name, if the expression is a plain variable. -/
def varName? : Expr → Option String
  | lookup _ x => some x.name
  | _ => none

/-- The object, if the expression is an object literal. -/
def object? : Expr → Option Object
  | new _ o => some o
  | _ => none

/-- The expression inside all unlabelled parentheses around it. -/
def unparen : Expr → Expr
  | paren _ none inner => inner.unparen
  | e => e

end Expr

namespace Formula

def span : Formula → Span
  | int s _ | bool s _ | lookup s _ | paren s _ | quant s _ _ _ | unary s _ _ | binary s _ _ _
  | call s _ _ | index s _ _ | update s _ _ _ | env s _ | sameObject s _ _ | independence s _ _ _
  | objectIs s _ _ | field s _ _ | frameAll s | frame s _ _ | frameHeap s _ _ _ _ | fieldsEqual s
  | fieldsEqualExcept s _ => s

end Formula

namespace Object

/-- The object as an expression that no source text holds. -/
def toExpr (o : Object) : Expr :=
  .new .nowhere o

/-- The names of the fields, in order. -/
def fieldNames (o : Object) : List String :=
  o.fields.map (·.name.name)

end Object

/-- The names of the parameters of a method, in order. -/
def Method.paramNames (m : Method) : List String :=
  m.params.map (·.name.name)

end GameHop
