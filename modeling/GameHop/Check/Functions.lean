import GameHop.Term.Development

/-!
The functions of a development, in the order of their first declarations.
-/

namespace GameHop

structure Functions where
  toList : List Function

namespace Functions

def empty : Functions :=
  ⟨[]⟩

def get? (fs : Functions) (name : String) : Option Function :=
  fs.toList.find? (·.name.name == name)

def contains (fs : Functions) (name : String) : Bool :=
  (fs.get? name).isSome

/-- A function in the place of the one with its name, or after all others. -/
def insertIn (f : Function) : List Function → List Function
  | [] => [f]
  | g :: gs => if g.name.name == f.name.name then f :: gs else g :: insertIn f gs

/-- Declares a function. A second declaration takes the place of the first. -/
def insert (fs : Functions) (f : Function) : Functions :=
  ⟨insertIn f fs.toList⟩

def names (fs : Functions) : List String :=
  fs.toList.map (·.name.name)

end Functions

end GameHop
