import GameHop.Check.Error
import GameHop.Program.Term

/-!
Terms with their sorts, and the coercions between sorts. Numbers, truth values and bit strings are
coerced through bit strings; objects and memories are coerced through values.
-/

namespace GameHop.Program

structure Value where
  sort : TermSort
  term : Term

namespace Value

def ofName (sort : TermSort) (x : String) : Value :=
  ⟨sort, .name x⟩

/-- A term coerced, or the reason why there is no coercion. -/
abbrev Coercion := Except InternalFault Term

def toBitstring (v : Value) : Coercion :=
  match v.sort with
  | .bitstring => .ok v.term
  | .value => .ok (.call "toBitstring" [v.term])
  | .boolean => .ok (.call "fromBool" [v.term])
  | .integer => .ok (.call "fromInt" [v.term])
  | .real => .ok (.call "fromReal" [v.term])
  | .objectId | .object | .memory | .heap | .expr => .error (.noCoercion v.sort .bitstring)

def toInteger (v : Value) : Coercion :=
  match v.sort with
  | .integer => .ok v.term
  | _ => do return .call "toInt" [← v.toBitstring]

/-- A value is true unless its bits are `nil`. -/
def toBoolean (v : Value) : Coercion :=
  match v.sort with
  | .boolean => .ok v.term
  | _ => do return .nonNil (← v.toBitstring)

def toValue (v : Value) : Coercion :=
  match v.sort with
  | .value => .ok v.term
  | .objectId => .ok (.call "fromObjectId" [v.term])
  | .memory => .ok (.call "fromMemory" [v.term])
  | .expr => .ok (.call "fromExpr" [v.term])
  | _ => do return .call "fromBitstring" [← v.toBitstring]

def toObjectId (v : Value) : Coercion :=
  match v.sort with
  | .objectId => .ok v.term
  | _ => do return .call "toObjectId" [← v.toValue]

def toMemory (v : Value) : Coercion :=
  match v.sort with
  | .object => .ok (.index v.term (.name "objectMemoryAttr"))
  | .memory => .ok v.term
  | _ => do return .call "toMemory" [← v.toValue]

def toReal (v : Value) : Coercion :=
  match v.sort with
  | .real => .ok v.term
  | .integer => .ok (.call "real" [v.term])
  | _ => do return .call "toReal" [← v.toBitstring]

def coerce (v : Value) (sort : TermSort) : Coercion :=
  if sort = v.sort then .ok v.term
  else match sort with
    | .value => v.toValue
    | .integer => v.toInteger
    | .boolean => v.toBoolean
    | .real => v.toReal
    | .bitstring => v.toBitstring
    | .memory => v.toMemory
    | .objectId => v.toObjectId
    | .object | .heap | .expr => .error (.noCoercion v.sort sort)

@[simp] theorem coerce_self (v : Value) : v.coerce v.sort = .ok v.term := by
  simp [coerce]

end Value

/-- The sort that both sides of a comparison are coerced to. -/
def comparisonSort (op : CmpOp) (left right : TermSort) : TermSort :=
  match op with
  | .same => .value
  | .eq | .ne => if left = .integer ∧ right = .integer then .integer else .bitstring
  | .lt | .le | .gt | .ge => if left = .real ∨ right = .real then .real else .integer

end GameHop.Program
