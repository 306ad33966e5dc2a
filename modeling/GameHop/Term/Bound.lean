import GameHop.Term.Basic

/-!
Bounds on the distance between two programs: numbers, names, calls of functions, advantages of
adversaries in given contexts, and arithmetic.
-/

namespace GameHop

inductive BoundOp where
  | add | sub | mul | div | pow
deriving DecidableEq, Repr

def BoundOp.symbol : BoundOp → String
  | add => "+" | sub => "-" | mul => "*" | div => "/" | pow => "^"

inductive Bound where
  | int (span : Span) (value : UInt64)
  | lookup (span : Span) (name : Ident)
  | paren (span : Span) (inner : Bound)
  | call (span : Span) (function : Ident) (args : List Bound)
  /-- `env (c1)(c2)`, the advantage of an adversary in nested contexts. -/
  | env (span : Span) (contexts : List Expr)
  | binary (span : Span) (op : BoundOp) (left right : Bound)

namespace Bound

instance : Inhabited Bound := ⟨.int .nowhere 0⟩

def span : Bound → Span
  | int s _ | lookup s _ | paren s _ | call s _ _ | env s _ | binary s _ _ _ => s

def zero : Bound :=
  .int .nowhere 0

end Bound

end GameHop
