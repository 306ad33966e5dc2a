import GameHop.Printer.Term
import GameHop.Term.Traverse

/-!
What the equality of programs ignores: parentheses and labels, names of classes, and the classes that
an invocation expects.
-/

namespace GameHop

/-- Drops what equality ignores at the root. -/
def Expr.simplifyRoot : Expr → Expr
  | .paren _ _ e => e
  | .invoke s target m _ args => .invoke s target m [] args
  | .new s o => .new s { o with className := none }
  | e => e

/-- Drops what equality ignores everywhere outside formulas. -/
def Expr.simplify (e : Expr) : Expr :=
  e.bottomUp true Expr.simplifyRoot

/-- Whether two programs have the same text once simplified. -/
def Expr.structurallyEqual (a b : Expr) : Bool :=
  a.simplify.text == b.simplify.text

end GameHop
