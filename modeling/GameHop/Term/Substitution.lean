import GameHop.Term.Arith
import GameHop.Term.Traverse

/-!
Substitution of terms for names, and renaming. Both act on every occurrence that is read or assigned,
whatever binds it; renaming leaves the methods of object literals alone.
-/

namespace GameHop

/-- Terms for names; of two terms for one name the first counts. -/
abbrev Substitution := List (String × Expr)

namespace Substitution

def get? (s : Substitution) (x : String) : Option Expr :=
  s.lookup x

end Substitution

/-- Replaces a name that is read, and the target of an assignment if a plain name replaces it. -/
def Expr.substituteRoot (s : Substitution) : Expr → Expr
  | .lookup span x => (s.get? x.name).getD (.lookup span x)
  | .assign span x e =>
    match (s.get? x.name).bind Expr.varName? with
    | some y => .assign span { x with name := y } e
    | none => .assign span x e
  | e => e

def Expr.substitute (s : Substitution) (e : Expr) : Expr :=
  e.bottomUp true (Expr.substituteRoot s)

/-- Other names for names; of two names for one name the first counts. -/
abbrev Renaming := List (String × String)

/-- Renames the root, if it is a variable or an assignment. -/
def Expr.renameRoot (names : Renaming) : Expr → Expr
  | .lookup span x => .lookup span { x with name := (names.lookup x.name).getD x.name }
  | .assign span x e => .assign span { x with name := (names.lookup x.name).getD x.name } e
  | e => e

/-- Renames variables outside the methods of object literals. -/
def Expr.rename (names : Renaming) (e : Expr) : Expr :=
  e.bottomUp false (Expr.renameRoot names)

/-! ## Bounds -/

namespace Bound

/-- The bound that a term stands for in the place of a name. -/
def ofTerm (span : Span) : Expr → Except InternalFault Bound
  | .int _ n => .ok (.int span n)
  | .lookup _ x => .ok (.lookup span x)
  | e => do return .paren span (← ofExpr e)

mutual

/-- Replaces names by terms, which have to be arithmetic outside contexts. -/
def substitute (s : Substitution) : Bound → Except InternalFault Bound
  | .int span n => .ok (.int span n)
  | .lookup span x =>
    match s.get? x.name with
    | some e => ofTerm span e
    | none => .ok (.lookup span x)
  | .paren span b => do return .paren span (← b.substitute s)
  | .call span f args => do return .call span f (← substituteList s args)
  | .env span contexts => .ok (.env span (contexts.map (Expr.substitute s)))
  | .binary span op a b => do
    let a ← a.substitute s
    let b ← b.substitute s
    return .binary span op a b

def substituteList (s : Substitution) : List Bound → Except InternalFault (List Bound)
  | [] => .ok []
  | b :: bs => do
    let b ← b.substitute s
    let bs ← substituteList s bs
    return b :: bs

end

mutual

/-- Puts a context around the contexts of every advantage. -/
def inContext (context : Expr) : Bound → Bound
  | .env span contexts => .env span (context :: contexts)
  | .paren span b => .paren span (b.inContext context)
  | .call span f args => .call span f (inContextList context args)
  | .binary span op a b => .binary span op (a.inContext context) (b.inContext context)
  | .int span n => .int span n
  | .lookup span x => .lookup span x

def inContextList (context : Expr) : List Bound → List Bound
  | [] => []
  | b :: bs => b.inContext context :: inContextList context bs

end

end Bound

end GameHop
