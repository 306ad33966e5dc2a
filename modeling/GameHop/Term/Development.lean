import GameHop.Term.Bound

/-!
Developments: lists of declarations, facts and theorems with their proofs.
-/

namespace GameHop

/-- `import a.b;` -/
structure Import where
  span : Span
  path : List Ident

/-- The dotted name of the module. -/
def Import.moduleName (i : Import) : String :=
  ".".intercalate (i.path.map (·.name))

/-- `const x: ty;` -/
structure Constant where
  span : Span
  name : Ident
  ty : Option Ty

/-- A function, defined by its body or left abstract. -/
structure Function where
  span : Span
  name : Ident
  /-- Whether calls depend on the arguments only. -/
  isPure : Bool
  /-- Whether calls leave the heap alone. -/
  isStatic : Bool
  params : List Param
  result : Option Ty
  body : Option Expr

/-- `axiom p;` -/
structure Postulate where
  span : Span
  claim : Formula

/-- `Name(params): left ~[bound] right`. -/
structure Statement where
  span : Span
  name : Ident
  params : List Param
  left : Expr
  bound : Option Bound
  right : Expr

/-- Where a conjunct of a bisimulation has to hold. -/
inductive BisimScope where
  | invariant
  /-- Between the states saved under the two labels. -/
  | checkpoint (left right : Ident)

structure BisimClause where
  span : Span
  scopes : List BisimScope
  claim : Formula

/-- A change to an object in a `with` target. -/
inductive Replacement where
  /-- `new(x = e)`: new initial values. -/
  | fields (span : Span) (fields : List Field)
  /-- A new definition of a method. -/
  | method (method : Method)

/-- What a subgoal replaces the left side by. -/
inductive Target where
  | expr (e : Expr)
  /-- The left side itself, changed in some places. -/
  | changed (changes : List Replacement)

inductive Tactic where
  | subgoal (span : Span) (bound : Option Bound) (target : Target) (proof : List Tactic)
  | symmetry (span : Span)
  /-- `admit;` -/
  | giveUp (span : Span)
  | trivial (span : Span)
  | auto (span : Span)
  /-- Without clauses, fields are related by their positions. -/
  | bisim (span : Span) (clauses : Option (List BisimClause))
  | rewrite (span : Span) (fact : Ident)
  | hybrid (span : Span) (fact : Ident) (start stop : Bound)
  | unfold (span : Span) (functions : List Ident)
  | inline (span : Span) (names : List Ident)

def Tactic.span : Tactic → Span
  | subgoal s _ _ _ | symmetry s | giveUp s | trivial s | auto s | bisim s _ | rewrite s _
  | hybrid s _ _ _ | unfold s _ | inline s _ => s

structure Theorem where
  span : Span
  statement : Statement
  proof : List Tactic

inductive Item where
  | imported (i : Import)
  | constant (c : Constant)
  | function (f : Function)
  | postulate (p : Postulate)
  | proved (t : Theorem)
  | assumed (s : Statement)

abbrev Development := List Item

end GameHop
