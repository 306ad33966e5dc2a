import GameHop.Table
import GameHop.Term.Basic

/-!
Scopes. A scope is a stack of frames; a name denotes what the innermost frame that declares it says.
-/

namespace GameHop

inductive FrameKind where
  /-- Names that no assignment may change. -/
  | constant
  | variables
  /-- Parameters of a fact. -/
  | logical
deriving DecidableEq, Repr

structure ScopeFrame where
  kind : FrameKind
  symbols : List (String × Ty)
deriving DecidableEq, Repr

namespace ScopeFrame

def typeOf? (f : ScopeFrame) (x : String) : Option Ty :=
  f.symbols.lookup x

/-- Declares a name, over a declaration of the same name. -/
def declare (f : ScopeFrame) (x : String) (ty : Ty) : ScopeFrame :=
  { f with symbols := insertEntry x ty f.symbols }

def names (f : ScopeFrame) : List String :=
  f.symbols.map (·.1)

end ScopeFrame

/-- A stack of frames, the innermost first. -/
structure Scope where
  frames : List ScopeFrame
deriving DecidableEq, Repr

namespace Scope

def empty : Scope :=
  ⟨[]⟩

def push (s : Scope) (kind : FrameKind) : Scope :=
  ⟨⟨kind, []⟩ :: s.frames⟩

def pop (s : Scope) : Scope :=
  ⟨s.frames.tail⟩

def topNames (s : Scope) : List String :=
  (s.frames.head?.map ScopeFrame.names).getD []

def depth (s : Scope) : Nat :=
  s.frames.length

/-- Leaves frames until at most `depth` are open. -/
def truncate (s : Scope) (depth : Nat) : Scope :=
  ⟨s.frames.drop (s.frames.length - depth)⟩

def declare (s : Scope) (x : String) (ty : Ty) : Scope :=
  match s.frames with
  | [] => s
  | f :: fs => ⟨f.declare x ty :: fs⟩

def typeOf? (s : Scope) (x : String) : Option Ty :=
  s.frames.findSome? (·.typeOf? x)

def declares (s : Scope) (x : String) : Bool :=
  (s.typeOf? x).isSome

/-- Whether the innermost frame has room for a name. -/
def mayDeclare (s : Scope) (x : String) : Bool :=
  match s.frames with
  | [] => true
  | f :: _ => (f.typeOf? x).isNone

def mayAssign (s : Scope) (x : String) : Bool :=
  match s.frames.find? (fun f => (f.typeOf? x).isSome) with
  | some f => f.kind != .constant
  | none => false

/-- Every name that has a declaration, from the outermost frame in, with repetitions. -/
def allNames (s : Scope) : List String :=
  s.frames.reverse.flatMap ScopeFrame.names

/-- The names with their types, in the order of their outermost declarations. -/
def symbols (s : Scope) : List (String × Ty) :=
  s.allNames.eraseDups.filterMap fun x => (s.typeOf? x).map fun ty => (x, ty)

/-! ## Laws -/

@[simp] theorem pop_push (s : Scope) (kind : FrameKind) : (s.push kind).pop = s := rfl

@[simp] theorem pop_declare (s : Scope) (x : String) (ty : Ty) : (s.declare x ty).pop = s.pop := by
  obtain ⟨frames⟩ := s
  cases frames <;> rfl

end Scope

theorem Scope.typeOf_declare (s : Scope) (x : String) (ty : Ty) (h : s.frames ≠ []) :
    (s.declare x ty).typeOf? x = some ty := by
  obtain ⟨frames⟩ := s
  cases frames with
  | nil => simp at h
  | cons f fs =>
    simp [Scope.declare, Scope.typeOf?, ScopeFrame.declare, ScopeFrame.typeOf?,
      lookup_insertEntry]

end GameHop
