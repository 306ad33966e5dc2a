import GameHop.Check.Error
import GameHop.Term.Arith

/-!
Proof obligations. A fact says that two programs are at most a given distance apart, whatever its
variables stand for.
-/

namespace GameHop

/-- `left ~[distance] right` for all values of `vars`. -/
structure Fact where
  left : Expr
  right : Expr
  vars : List String
  distance : Bound

structure Goal where
  fact : Fact
  left : Expr
  right : Expr
  /-- What the steps cost so far. -/
  distance : Bound

def Goal.ofFact (f : Fact) : Goal :=
  ⟨f, f.left, f.right, .zero⟩

def Goal.charge (g : Goal) (b : Bound) : Goal :=
  { g with distance := g.distance.add b }

inductive Obligation where
  | goal (g : Goal)
  /-- A fact whose right side is still being put together. -/
  | builder (f : Fact)

structure Obligations where
  stack : List Obligation

namespace Obligations

def empty : Obligations :=
  ⟨[]⟩

def push (o : Obligations) (x : Obligation) : Obligations :=
  ⟨x :: o.stack⟩

def pop (o : Obligations) : Obligations :=
  ⟨o.stack.tail⟩

def top? (o : Obligations) : Option Obligation :=
  o.stack.head?

def size (o : Obligations) : Nat :=
  o.stack.length

def truncate (o : Obligations) (size : Nat) : Obligations :=
  ⟨o.stack.drop (o.stack.length - size)⟩

def goal (o : Obligations) : Except Fault Goal :=
  match o.top? with
  | some (.goal g) => .ok g
  | _ => .error .noGoal

def builder (o : Obligations) : Except Fault Fact :=
  match o.top? with
  | some (.builder f) => .ok f
  | _ => .error .noBuilder

def setTop (o : Obligations) (x : Obligation) : Obligations :=
  o.pop.push x

def modifyGoal (o : Obligations) (f : Goal → Goal) : Except Fault Obligations := do
  return o.setTop (.goal (f (← o.goal)))

def modifyBuilder (o : Obligations) (f : Fact → Fact) : Except Fault Obligations := do
  return o.setTop (.builder (f (← o.builder)))

def popGoal (o : Obligations) : Except Fault (Goal × Obligations) := do
  return (← o.goal, o.pop)

/-- Makes the topmost unfinished goal a goal. -/
def finishBuilder (o : Obligations) : Except Fault Obligations := do
  return o.setTop (.goal (.ofFact (← o.builder)))

def ensureEmpty (o : Obligations) : Except Fault Unit :=
  if o.stack.isEmpty then .ok () else .error .obligationsRemain

end Obligations

end GameHop
