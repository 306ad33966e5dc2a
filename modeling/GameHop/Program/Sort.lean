import GameHop.Term.Development

/-!
The sorts of verification programs. Values of the calculus have sort `value`; the other sorts are
those of its parts and of the state.
-/

namespace GameHop

inductive TermSort where
  | boolean | value | integer | objectId | object | memory | heap | real | expr | bitstring
deriving DecidableEq, Repr

namespace TermSort

def name : TermSort → String
  | boolean => "bool" | value => "T" | integer => "int" | objectId => "ObjectId"
  | object => "Object" | memory => "Memory" | heap => "Heap" | real => "real" | expr => "Expr"
  | bitstring => "Bitstring"

def all : List TermSort :=
  [boolean, value, integer, objectId, object, memory, heap, real, expr, bitstring]

def ofName? (s : String) : Option TermSort :=
  all.find? (·.name == s)

def ofTy : Ty → TermSort
  | .bits => bitstring
  | .value => value
  | .int => integer
  | .real => real
  | .map => memory
  | .expr => expr

end TermSort

namespace Function

/-- The type of parameters and results without one. -/
def defaultTy (f : Function) : Ty :=
  if f.isPure then .bits else .value

def paramSort (f : Function) (i : Nat) : TermSort :=
  .ofTy ((f.params[i]?.bind (·.ty)).getD f.defaultTy)

def resultSort (f : Function) : TermSort :=
  .ofTy (f.result.getD f.defaultTy)

end Function

end GameHop
