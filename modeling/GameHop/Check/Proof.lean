import GameHop.Check.Checker
import GameHop.Rewriting.Inline
import GameHop.Rewriting.Rewrite
import GameHop.Rewriting.Unfold
import GameHop.Term.Simplify

/-!
Proofs. A step changes the left side of the goal and adds what the change costs.
-/

namespace GameHop

/-- Where a proof is read from, and who settles its questions. -/
structure ProofContext (α : Type) where
  file : SourceFile
  backend : Backend α

/-- The last character of a block. -/
def Span.closing (s : Span) : Span :=
  ⟨s.stop - 1, s.stop - (s.stop - 1)⟩

def Expr.fillEllipsis (e previous : Expr) : Expr :=
  e.bottomUp true fun
    | .ellipsis _ => previous
    | e => e

/-- The object with a new definition of a method, which may refer to the definition before. -/
def Object.withMethod (o : Object) (m : Method) : Object :=
  { o with methods := o.methods.map fun m' =>
      if m'.name.name == m.name.name then { m with body := m.body.fillEllipsis m'.body } else m' }

def Expr.singleArgument? (e : Expr) : Option Expr :=
  match e.unparen with
  | .call _ _ [a] => some a
  | _ => none

namespace Proof

variable {α : Type}

open CheckM

/-- Both sides have to be the same up to parentheses and class names. -/
def checkEqual (location : Location) (left right : Expr) : CheckM α Unit :=
  if left.structurallyEqual right then return ()
  else fail location (.sidesDiffer left.simplify right.simplify)

/-- Closes the goal: both sides are the same, and the cost is within the bound. -/
def close (ctx : ProofContext α) (location : Location) : CheckM α Unit := do
  let g ← goal location
  checkEqual location g.left g.right
  ask ctx.backend location (.within g.distance g.fact.distance)

def factNamed (ctx : ProofContext α) (x : Ident) : CheckM α Fact := do
  match (← get).facts.lookup x.name with
  | some f => return f
  | none => fail (ctx.file.locate x.span) (.factNotDeclared x.name)

/-! ## Steps -/

/-- Leaves the goal to the back end. -/
def auto (ctx : ProofContext α) (location : Location) : CheckM α Unit := do
  modifyScope (·.push .constant)
  let g ← goal location
  ask ctx.backend location (.equivalent g.left g.right "Checking auto")
  settle location
  modifyScope (·.pop)

def bisimSide (location : Location) (e : Expr) : CheckM α Object :=
  match e.unparen.object? with
  | some o => return o
  | none => fail location (.bisimOfNonObject e)

def bisim (ctx : ProofContext α) (location : Location) (clauses : Option (List BisimClause)) :
    CheckM α Unit := do
  modifyScope (·.push .constant)
  let g ← goal location
  let left ← bisimSide location g.left
  let right ← bisimSide location g.right
  ask ctx.backend location (.bisimilar left right clauses)
  settle location
  modifyScope (·.pop)

/-- Applies a rule to the left side of the goal and adds the cost of every place. Without a place
    there is an objection. -/
def applyRule (location : Location) (rule : Rule) (place : Location) (unused : Fault) :
    CheckM α Unit := do
  let g ← goal location
  let (left, steps) := rule.rewrite g.left
  let steps ← internal steps
  if steps.isEmpty then fail place unused
  modifyGoal location fun g =>
    steps.foldl (fun g s => g.charge s.distance) { g with left }

/-- A fact that costs nothing may be used in methods too. -/
def rewriteWith (ctx : ProofContext α) (location : Location) (x : Ident) : CheckM α Unit := do
  let f ← factNamed ctx x
  applyRule location ⟨f.left, f.vars, f.right, f.distance, f.distance.isZero⟩
    (ctx.file.locate x.span) .nothingToRewrite

/-- The only variable of a fact that relates a call for a number to the call for the next one. -/
def hybridVariable (location : Location) (f : Fact) : CheckM α String := do
  match f.vars with
  | [x] =>
    match f.left.singleArgument? with
    | none => fail location .hybridLeftNotCall
    | some l =>
      if l.text != x then fail location (.hybridLeftArgument x)
      match f.right.singleArgument? with
      | none => fail location .hybridRightNotCall
      | some r =>
        let next := (Expr.binary .nowhere (.arith .add) (.var x) (.ofNat 1)).text
        if r.text != next then fail location (.hybridRightArgument next)
        if f.distance.free.contains x then fail location (.hybridDistanceVaries x)
        return x
  | _ => fail location .hybridOfManyParameters

/-- Goes from the call for one number to the call for another, at the cost of a step for each number
    between them. -/
def hybrid (ctx : ProofContext α) (location : Location) (x : Ident) (start stop : Bound) :
    CheckM α Unit := do
  let f ← factNamed ctx x
  let var ← hybridVariable location f
  let left := f.left.substitute [(var, ← internal start.toExpr)]
  let right := f.left.substitute [(var, ← internal stop.toExpr)]
  let distance := (stop.sub start).mul f.distance
  applyRule location ⟨left, f.vars, right, distance, true⟩ (ctx.file.locate x.span)
    (.hybridWithoutOccurrence left)

/-- Puts definitions in the place of calls. The back end checks that nothing else changes. -/
def unfold (ctx : ProofContext α) (location : Location) (names : List Ident) : CheckM α Unit := do
  let g ← goal location
  let (left, failed) := g.left.unfold (← get).functions (names.map (·.name))
  match failed with
  | some f => fail location f
  | none =>
    modifyGoal location fun g => { g with left }
    askIn ctx.backend location Environment.bare
      (.equivalent g.left left "Checking unfold equivalence")

def inline (location : Location) (names : List Ident) : CheckM α Unit := do
  let g ← goal location
  let left ← located location (g.left.inlineObjects (← get).scope (names.map (·.name)))
  modifyGoal location fun g => { g with left }

/-! ## Subgoals -/

/-- The object on the right side that is being put together. -/
def targetObject (location : Location) : CheckM α (Span × Object) := do
  let f ← builder location
  match f.right.unparen.object? with
  | some o => return (f.right.span, o)
  | none => fail location (.changedNonObject f.right)

/-- Changes the right side that is being put together. -/
def change (ctx : ProofContext α) (location : Location) : Replacement → CheckM α Unit
  | .fields _ fields => do
    modifyScope fun s => s.pop.push .variables
    naming ctx.file (Expr.checkFields (← get).functions fields)
    let (span, o) ← targetObject location
    modifyBuilder location fun f => { f with right := .new span { o with fields } }
  | .method m => do
    naming ctx.file (Expr.checkMethods (← get).functions [m])
    let (span, o) ← targetObject location
    modifyBuilder location fun f => { f with right := .new span (o.withMethod m) }

def declareMember (location : Location) (x : String) : CheckM α Unit := do
  if !(← get).scope.mayDeclare x then fail location (.fieldAlreadyDeclared x)
  modifyScope (·.declare x .value)

def setTarget (ctx : ProofContext α) (location : Location) : Target → CheckM α Unit
  | .expr e => do
    naming ctx.file (e.check (← get).functions)
    modifyBuilder location fun f => { f with right := e }
  | .changed changes => do
    let f ← builder location
    match f.left.unparen.object? with
    | none => fail location (.changedNonObject f.left)
    | some o =>
      modifyScope (·.push .variables)
      o.fieldNames.forM (declareMember location)
      changes.forM (change ctx location)
      modifyScope (·.pop)

/-- Begins the proof that the left side of the goal is close to a target. -/
def openSubgoal (ctx : ProofContext α) (location : Location) (bound : Bound) (target : Target) :
    CheckM α Unit := do
  let g ← goal location
  pushObligation (.builder ⟨g.left, g.left, g.fact.vars, bound⟩)
  setTarget ctx location target
  finishBuilder location

/-- Ends the proof of a subgoal: its right side is the new left side. -/
def closeSubgoal (location : Location) (bound : Bound) : CheckM α Unit := do
  let child ← popGoal location
  modifyGoal location fun g => { g.charge bound with left := child.fact.right }

end Proof

open CheckM

mutual

def Tactic.run {α : Type} (ctx : ProofContext α) : Tactic → CheckM α Unit
  | .subgoal span bound target proof => do
    let location := ctx.file.locate span
    Proof.openSubgoal ctx location (bound.getD .zero) target
    Tactic.runAll ctx proof
    Proof.close ctx (ctx.file.locate span.closing)
    Proof.closeSubgoal location (bound.getD .zero)
  | .symmetry span =>
    modifyGoal (ctx.file.locate span) fun g => { g with left := g.right, right := g.left }
  | .giveUp span => settle (ctx.file.locate span)
  | .trivial span => do
    let location := ctx.file.locate span
    let g ← goal location
    Proof.checkEqual location g.left g.right
    settle location
  | .auto span => Proof.auto ctx (ctx.file.locate span)
  | .bisim span clauses => Proof.bisim ctx (ctx.file.locate span) clauses
  | .rewrite span fact => Proof.rewriteWith ctx (ctx.file.locate span) fact
  | .hybrid span fact start stop => Proof.hybrid ctx (ctx.file.locate span) fact start stop
  | .unfold span names => Proof.unfold ctx (ctx.file.locate span) names
  | .inline span names => Proof.inline (ctx.file.locate span) names

def Tactic.runAll {α : Type} (ctx : ProofContext α) : List Tactic → CheckM α Unit
  | [] => return ()
  | t :: ts => do
    t.run ctx
    Tactic.runAll ctx ts

end

end GameHop
