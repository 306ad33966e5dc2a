import GameHop.Check.Naming
import GameHop.Check.Obligation
import GameHop.Check.Question

/-!
The state of a check: what is declared, what is proved, and what is under proof.
-/

namespace GameHop

/-- All that a check knows between two steps. -/
structure Checker (α : Type) where
  scope : Scope
  classes : List (String × Object)
  functions : Functions
  postulates : List Postulate
  facts : List (String × Fact)
  obligations : Obligations
  /-- The modules whose import has begun. -/
  imported : List String
  /-- The answers of the back end, in order. -/
  answers : List α

/-- Nothing is declared, and constants may be. -/
def Checker.start {α : Type} : Checker α where
  scope := Scope.empty.push .constant
  classes := []
  functions := .empty
  postulates := []
  facts := []
  obligations := .empty
  imported := []
  answers := []

def Checker.environment {α : Type} (c : Checker α) (location : Location) : Environment :=
  ⟨c.scope, c.functions, c.postulates, c.classes, location⟩

/-- Without postulates and classes. -/
def Environment.bare (env : Environment) : Environment :=
  { env with postulates := [], classes := [] }

/-- Steps of a check. A failing step keeps what it did to the state. -/
abbrev CheckM (α : Type) :=
  ExceptT CheckError (StateM (Checker α))

namespace CheckM

variable {α : Type}

def fail {β : Type} (location : Location) (f : Fault) : CheckM α β :=
  throw (.located location f)

/-- A result with its fault at a place. -/
def located {β : Type} (location : Location) (x : Except Fault β) : CheckM α β :=
  match x with
  | .ok b => return b
  | .error f => fail location f

def internal {β : Type} (x : Except InternalFault β) : CheckM α β :=
  match x with
  | .ok b => return b
  | .error f => throw (.internal f)

/-! ## Scope -/

def modifyScope (f : Scope → Scope) : CheckM α Unit :=
  modify fun c => { c with scope := f c.scope }

/-- Checks names; the places of objections are in `file`. -/
def naming (file : SourceFile) (x : NamingM Unit) : CheckM α Unit := do
  let c ← get
  let (result, n) := x.run.run ⟨c.scope, c.classes⟩
  set { c with scope := n.scope, classes := n.classes }
  match result with
  | .ok () => return ()
  | .error o => fail (file.locate o.span) o.fault

/-! ## Obligations -/

def goal (location : Location) : CheckM α Goal := do
  located location (← get).obligations.goal

def modifyGoal (location : Location) (f : Goal → Goal) : CheckM α Unit := do
  let o ← located location ((← get).obligations.modifyGoal f)
  modify fun c => { c with obligations := o }

/-- The goal whose right side is being put together. -/
def builder (location : Location) : CheckM α Fact := do
  located location (← get).obligations.builder

def modifyBuilder (location : Location) (f : Fact → Fact) : CheckM α Unit := do
  let o ← located location ((← get).obligations.modifyBuilder f)
  modify fun c => { c with obligations := o }

def finishBuilder (location : Location) : CheckM α Unit := do
  let o ← located location (← get).obligations.finishBuilder
  modify fun c => { c with obligations := o }

def pushObligation (x : Obligation) : CheckM α Unit :=
  modify fun c => { c with obligations := c.obligations.push x }

def popGoal (location : Location) : CheckM α Goal := do
  let (g, o) ← located location (← get).obligations.popGoal
  modify fun c => { c with obligations := o }
  return g

/-! ## Questions -/

/-- Asks the back end in an environment made from the one in force. -/
def askIn (backend : Backend α) (location : Location) (f : Environment → Environment)
    (q : Question) : CheckM α Unit := do
  match backend (f ((← get).environment location)) q with
  | .ok a => modify fun c => { c with answers := c.answers ++ [a] }
  | .error e => throw e

def ask (backend : Backend α) (location : Location) (q : Question) : CheckM α Unit :=
  askIn backend location id q

/-- Ends the goal by making both sides the same. -/
def settle (location : Location) : CheckM α Unit :=
  modifyGoal location fun g => { g with left := g.right }

end CheckM

end GameHop
