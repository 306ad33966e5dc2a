import GameHop.Term.Bound

/-!
The names of a term. A field is bound in the fields after it and in all methods of its object; a
parameter of a method is bound in its body; an assigned variable is bound in the field or method
that assigns it.
-/

namespace GameHop

/-! ## Mentioned names -/

mutual

/-- Every name that the expression mentions outside formulas, with repetitions: variables, labels,
    functions, methods, classes, fields and parameters. -/
def Expr.identifiers : Expr → List String
  | .lookup _ x => [x.name]
  | .assign _ x e => x.name :: e.identifiers
  | .paren _ (some l) e => l.name :: e.identifiers
  | .paren _ none e => e.identifiers
  | .seq _ a b => a.identifiers ++ b.identifiers
  | .ternary _ a b c => a.identifiers ++ b.identifiers ++ c.identifiers
  | .unary _ _ e => e.identifiers
  | .binary _ _ a b => a.identifiers ++ b.identifiers
  | .call _ f args => f.name :: Expr.identifiersList args
  | .invoke _ target m cs args =>
    m.name :: cs.map (·.name) ++ target.identifiers ++ Expr.identifiersList args
  | .new _ ⟨className, fields, methods⟩ =>
    className.toList.map (·.name) ++ Expr.identifiersFields fields ++
      Expr.identifiersMethods methods
  | .index _ a b => a.identifiers ++ b.identifiers
  | .update _ a b c => a.identifiers ++ b.identifiers ++ c.identifiers
  | .int _ _ | .bool _ _ | .assert _ _ | .assume _ _ | .ellipsis _ | .hole _ => []

def Expr.identifiersList : List Expr → List String
  | [] => []
  | e :: es => e.identifiers ++ Expr.identifiersList es

def Expr.identifiersFields : List Field → List String
  | [] => []
  | ⟨_, x, value⟩ :: fs => x.name :: value.identifiers ++ Expr.identifiersFields fs

def Expr.identifiersMethods : List Method → List String
  | [] => []
  | ⟨_, m, ps, body⟩ :: ms =>
    m.name :: ps.map (·.name.name) ++ body.identifiers ++ Expr.identifiersMethods ms

end

/-! ## Assigned variables -/

mutual

/-- The variables that the expression assigns outside object literals, in the order of evaluation
    and with repetitions. -/
def Expr.assigned : Expr → List String
  | .assign _ x e => e.assigned ++ [x.name]
  | .paren _ _ e => e.assigned
  | .seq _ a b => a.assigned ++ b.assigned
  | .ternary _ a b c => a.assigned ++ b.assigned ++ c.assigned
  | .unary _ _ e => e.assigned
  | .binary _ _ a b => a.assigned ++ b.assigned
  | .call _ _ args => Expr.assignedList args
  | .invoke _ target _ _ args => target.assigned ++ Expr.assignedList args
  | .index _ a b => a.assigned ++ b.assigned
  | .update _ a b c => a.assigned ++ b.assigned ++ c.assigned
  | .int _ _ | .bool _ _ | .lookup _ _ | .new _ _ | .assert _ _ | .assume _ _ | .ellipsis _
  | .hole _ => []

def Expr.assignedList : List Expr → List String
  | [] => []
  | e :: es => e.assigned ++ Expr.assignedList es

end

/-- The variables that the expression declares by assigning them, in the order of their first
    assignments: those that are not known before. -/
def Expr.locals (known : String → Bool) (e : Expr) : List String :=
  (e.assigned.filter (!known ·)).eraseDups

/-! ## Free names -/

mutual

/-- The names that the expression reads, except those in `bound` and those that its own objects
    bind. -/
def Expr.freeIn (bound : List String) : Expr → List String
  | .lookup _ x => if bound.contains x.name then [] else [x.name]
  | .paren _ _ e => e.freeIn bound
  | .seq _ a b => a.freeIn bound ++ b.freeIn bound
  | .assign _ _ e => e.freeIn bound
  | .ternary _ a b c => a.freeIn bound ++ b.freeIn bound ++ c.freeIn bound
  | .unary _ _ e => e.freeIn bound
  | .binary _ _ a b => a.freeIn bound ++ b.freeIn bound
  | .call _ _ args => Expr.freeInList bound args
  | .invoke _ target _ _ args => target.freeIn bound ++ Expr.freeInList bound args
  | .new _ ⟨_, fields, methods⟩ =>
    Expr.freeInFields bound fields ++
      Expr.freeInMethods (bound ++ fields.map (·.name.name)) methods
  | .index _ a b => a.freeIn bound ++ b.freeIn bound
  | .update _ a b c => a.freeIn bound ++ b.freeIn bound ++ c.freeIn bound
  | .int _ _ | .bool _ _ | .assert _ _ | .assume _ _ | .ellipsis _ | .hole _ => []

def Expr.freeInList (bound : List String) : List Expr → List String
  | [] => []
  | e :: es => e.freeIn bound ++ Expr.freeInList bound es

def Expr.freeInFields (bound : List String) : List Field → List String
  | [] => []
  | ⟨_, x, value⟩ :: fs =>
    value.freeIn (bound ++ value.assigned) ++ Expr.freeInFields (bound ++ [x.name]) fs

def Expr.freeInMethods (bound : List String) : List Method → List String
  | [] => []
  | ⟨_, _, ps, body⟩ :: ms =>
    body.freeIn (bound ++ body.assigned ++ ps.map (·.name.name)) ++ Expr.freeInMethods bound ms

end

/-- The names that the expression reads and does not bind. -/
def Expr.free (e : Expr) : List String :=
  e.freeIn []

mutual

/-- The variables that a bound reads, also in its contexts. -/
def Bound.free : Bound → List String
  | .int _ _ => []
  | .lookup _ x => [x.name]
  | .paren _ b => b.free
  | .call _ _ args => Bound.freeList args
  | .env _ contexts => contexts.flatMap Expr.free
  | .binary _ _ a b => a.free ++ b.free

def Bound.freeList : List Bound → List String
  | [] => []
  | b :: bs => b.free ++ Bound.freeList bs

end

/-! ## Fresh names -/

/-- The first of `name 0`, `name 1`, ... that is not taken. There is one among as many candidates as
    there are taken names and one more, if the candidates differ. -/
def firstFree (name : Nat → String) (taken : List String) : String :=
  (((List.range (taken.length + 1)).map name).find? (!taken.contains ·)).getD ""

/-- The first of `stem0`, `stem1`, ... that is not taken. -/
def freshName (stem : String) (taken : List String) : String :=
  firstFree (fun n => stem ++ toString n) taken

/-- A name in ascending order of names, unless it is there. -/
def insertName (x : String) : List String → List String
  | [] => [x]
  | y :: ys => if x < y then x :: y :: ys else if x = y then y :: ys else y :: insertName x ys

/-- The names in ascending order, each once. -/
def sortNames (xs : List String) : List String :=
  xs.foldl (fun acc x => insertName x acc) []

end GameHop
