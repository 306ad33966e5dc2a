import GameHop.Rewriting.Matching
import GameHop.Term.Tree

/-!
Rewriting by a rule. All places of a program that the left side of the rule matches are replaced,
each after the places inside it, from left to right.
-/

namespace GameHop

/-- A rule: instances of `left` may be replaced by instances of `right` at the cost of an instance of
    `distance`. -/
structure Rule where
  left : Expr
  vars : List String
  right : Expr
  distance : Bound
  /-- Whether the bodies of methods are rewritten too. -/
  inMethods : Bool

structure RewriteStep where
  /-- The cost, with the context around the place put into its advantages. -/
  distance : Bound
  /-- The whole program with a hole at the place, unless the place is the whole program. -/
  context : Option Expr

namespace Rewriting

structure State where
  /-- The names that are bound at the present place. -/
  bound : List String
  /-- The steps so far, the last one first. -/
  log : List RewriteStep
  /-- What went wrong; after that nothing changes any more. -/
  fault : Option InternalFault

structure Place where
  isRoot : Bool
  inMethod : Bool
  /-- The whole program with an expression at the place. -/
  plug : Expr → Expr

/-- The place of a child of the node at a place. -/
def Place.child (p : Place) (build : Expr → Expr) : Place :=
  ⟨false, p.inMethod, fun e => p.plug (build e)⟩

/-- The place of the body of a method of the node at a place. -/
def Place.body (p : Place) (build : Expr → Expr) : Place :=
  ⟨false, true, fun e => p.plug (build e)⟩

/-- The cost of a step at a place. -/
def stepAt (p : Place) (distance : Bound) : RewriteStep :=
  if p.isRoot then ⟨distance, none⟩
  else
    let context := p.plug (.hole .nowhere)
    ⟨distance.inContext context, some context⟩

/-- The replacement of an expression and its cost, if the rule applies. -/
def replacement? (rule : Rule) (bound : List String) (e : Expr) :
    Except InternalFault (Option (Expr × Bound)) := do
  match ← rule.left.matchWith rule.vars e bound with
  | none => return none
  | some s => return some (rule.right.substitute s, ← rule.distance.substitute s)

/-- Whether the rule is tried on an expression at a place. What is inside unlabelled parentheses was
    tried before. -/
def isTried (rule : Rule) (p : Place) (e : Expr) : Bool :=
  (rule.inMethods || !p.inMethod) && match e with | .paren _ none _ => false | _ => true

/-- Replaces the expression at a place if the rule applies to it. -/
def visit (rule : Rule) (p : Place) (e : Expr) : StateM State Expr := do
  let st ← get
  if st.fault.isSome || !isTried rule p e then
    return e
  match replacement? rule st.bound e with
  | .error f =>
    set { st with fault := some f }
    return e
  | .ok none => return e
  | .ok (some (replacement, distance)) =>
    set { st with log := stepAt p distance :: st.log }
    return replacement

def addBound (names : List String) : StateM State Unit :=
  modify fun st => { st with bound := st.bound ++ names }

/-- Binds names only while something runs. -/
def withBound {α : Type} (names : List String) (x : StateM State α) : StateM State α := do
  let before := (← get).bound
  addBound names
  let a ← x
  modify fun st => { st with bound := before }
  return a

end Rewriting

open Rewriting

mutual

/-- Rewrites the expression at a place, from the inside out. -/
def Expr.rewriteAt (rule : Rule) (p : Place) : Expr → StateM State Expr
  | .paren s l e => do
    let e ← e.rewriteAt rule (p.child (.paren s l ·))
    visit rule p (.paren s l e)
  | .seq s a b => do
    let a' ← a.rewriteAt rule (p.child (.seq s · b))
    let b' ← b.rewriteAt rule (p.child (.seq s a' ·))
    visit rule p (.seq s a' b')
  | .assign s x e => do
    let e ← e.rewriteAt rule (p.child (.assign s x ·))
    addBound [x.name]
    visit rule p (.assign s x e)
  | .ternary s a b c => do
    let a' ← a.rewriteAt rule (p.child (.ternary s · b c))
    let b' ← b.rewriteAt rule (p.child (.ternary s a' · c))
    let c' ← c.rewriteAt rule (p.child (.ternary s a' b' ·))
    visit rule p (.ternary s a' b' c')
  | .unary s op e => do
    let e ← e.rewriteAt rule (p.child (.unary s op ·))
    visit rule p (.unary s op e)
  | .binary s op a b => do
    let a' ← a.rewriteAt rule (p.child (.binary s op · b))
    let b' ← b.rewriteAt rule (p.child (.binary s op a' ·))
    visit rule p (.binary s op a' b')
  | .call s f args => do
    let args ← Expr.rewriteList rule p (.call s f ·) args
    visit rule p (.call s f args)
  | .invoke s t m cs args => do
    let t' ← t.rewriteAt rule (p.child (.invoke s · m cs args))
    let args' ← Expr.rewriteList rule p (.invoke s t' m cs ·) args
    visit rule p (.invoke s t' m cs args')
  | .new s ⟨c, fields, methods⟩ => do
    let (fields', methods') ← withBound [] do
      let fields' ← Expr.rewriteFields rule p (fun fs => .new s ⟨c, fs, methods⟩) fields
      let methods' ← Expr.rewriteMethods rule p (fun ms => .new s ⟨c, fields', ms⟩) methods
      return (fields', methods')
    visit rule p (.new s ⟨c, fields', methods'⟩)
  | .index s a b => do
    let a' ← a.rewriteAt rule (p.child (.index s · b))
    let b' ← b.rewriteAt rule (p.child (.index s a' ·))
    visit rule p (.index s a' b')
  | .update s a b c => do
    let a' ← a.rewriteAt rule (p.child (.update s · b c))
    let b' ← b.rewriteAt rule (p.child (.update s a' · c))
    let c' ← c.rewriteAt rule (p.child (.update s a' b' ·))
    visit rule p (.update s a' b' c')
  | .int s n => visit rule p (.int s n)
  | .bool s b => visit rule p (.bool s b)
  | .lookup s x => visit rule p (.lookup s x)
  | .assert s q => visit rule p (.assert s q)
  | .assume s q => visit rule p (.assume s q)
  | .ellipsis s => visit rule p (.ellipsis s)
  | .hole s => visit rule p (.hole s)

/-- Rewrites the arguments of the node at a place; `build` makes the node from its arguments. -/
def Expr.rewriteList (rule : Rule) (p : Place) (build : List Expr → Expr) :
    List Expr → StateM State (List Expr)
  | [] => return []
  | e :: es => do
    let e' ← e.rewriteAt rule (p.child fun e => build (e :: es))
    let es' ← Expr.rewriteList rule p (fun es => build (e' :: es)) es
    return e' :: es'

/-- Rewrites the initial values of the fields of the object at a place; each field is bound after its
    value. -/
def Expr.rewriteFields (rule : Rule) (p : Place) (build : List Field → Expr) :
    List Field → StateM State (List Field)
  | [] => return []
  | ⟨s, x, value⟩ :: fs => do
    let value' ← value.rewriteAt rule (p.child fun e => build (⟨s, x, e⟩ :: fs))
    addBound [x.name]
    let fs' ← Expr.rewriteFields rule p (fun fs => build (⟨s, x, value'⟩ :: fs)) fs
    return ⟨s, x, value'⟩ :: fs'

/-- Rewrites the bodies of the methods of the object at a place. -/
def Expr.rewriteMethods (rule : Rule) (p : Place) (build : List Method → Expr) :
    List Method → StateM State (List Method)
  | [] => return []
  | ⟨s, m, ps, body⟩ :: ms => do
    let body' ← withBound (ps.map (·.name.name)) do
      body.rewriteAt rule (p.body fun e => build (⟨s, m, ps, e⟩ :: ms))
    let ms' ← Expr.rewriteMethods rule p (fun ms => build (⟨s, m, ps, body'⟩ :: ms)) ms
    return ⟨s, m, ps, body'⟩ :: ms'

end

/-- Rewrites a program. Gives the program, as far as it came, and the steps in order or what went
    wrong. -/
def Rule.rewrite (rule : Rule) (program : Expr) : Expr × Except InternalFault (List RewriteStep) :=
  let (result, st) := (program.rewriteAt rule ⟨true, false, id⟩).run ⟨[], [], none⟩
  match st.fault with
  | some f => (result, .error f)
  | none => (result, .ok st.log.reverse)

end GameHop
