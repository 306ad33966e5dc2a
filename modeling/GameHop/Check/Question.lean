import GameHop.Check.Environment

/-!
What a proof cannot settle by itself, and who settles it.
-/

namespace GameHop

inductive Question where
  | equivalent (left right : Expr) (message : String)
  | within (actual required : Bound)
  | bisimilar (left right : Object) (clauses : Option (List BisimClause))

/-- What becomes of questions: an answer of some kind, or a reason why there is none. -/
abbrev Backend (α : Type) :=
  Environment → Question → Except CheckError α

def Backend.record : Backend (Location × Question) :=
  fun env q => .ok (env.location, q)

end GameHop
