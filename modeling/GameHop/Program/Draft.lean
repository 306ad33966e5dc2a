import GameHop.Check.Environment
import GameHop.Program.Names
import GameHop.Program.Value

/-!
A program in the making. Declarations are written when they are first needed, so that making a term
or a statement may add lines to the program.
-/

namespace GameHop.Program

structure Draft where
  scope : Scope
  constants : Constants
  classes : Classes
  methods : Methods
  out : Writer

def Draft.start (env : Environment) : Draft :=
  ⟨env.scope, .empty, .empty, .empty, .empty⟩

/-- Steps that extend a program. -/
abbrev Build := StateT Draft (Except CheckError)

namespace Build

def write (f : Writer → Writer) : Build Unit :=
  modify fun d => { d with out := f d.out }

def line (s : String) : Build Unit :=
  write (·.line s)

def lines (ss : List String) : Build Unit :=
  write (·.lines ss)

def blank : Build Unit :=
  write (·.blank)

/-! ## Scope -/

def typeOf? (x : String) : Build (Option Ty) :=
  return (← get).scope.typeOf? x

def declare (x : String) (ty : Ty) : Build Unit :=
  modify fun d => { d with scope := d.scope.declare x ty }

def push (kind : FrameKind) : Build Unit :=
  modify fun d => { d with scope := d.scope.push kind }

def pop : Build Unit :=
  modify fun d => { d with scope := d.scope.pop }

def inFrame {α : Type} (kind : FrameKind) (symbols : List (String × Ty)) (x : Build α) :
    Build α := do
  push kind
  symbols.forM fun (x, ty) => declare x ty
  let a ← x
  pop
  return a

/-! ## Names -/

def addFields (fields : List String) : Build Unit :=
  modify fun d =>
    let (c, w) := d.constants.addFields fields d.out
    { d with constants := c, out := w }

def addCheckpoint (label : String) : Build Unit :=
  modify fun d =>
    let (c, w) := d.constants.addCheckpoint label d.out
    { d with constants := c, out := w }

def addClassId (cls : String) : Build Unit :=
  modify fun d =>
    let (c, w) := d.constants.addClassId cls d.out
    { d with constants := c, out := w }

def internExpr (text : String) : Build String :=
  modifyGet fun d =>
    let (id, c, w) := d.constants.internExpr text d.out
    (id, { d with constants := c, out := w })

/-- The parameters of the procedures that stand for the methods of unknown classes. -/
def formals (arity : Nat) : String :=
  String.join ((List.range arity).map fun i => ", a" ++ toString i ++ ":T")

def actuals (arity : Nat) : String :=
  String.join ((List.range arity).map fun i => ", a" ++ toString i)

/-- Every procedure of a class keeps the classes of the objects that there are. -/
def classPreserved : String :=
  "ensures (forall id:ObjectId :: objectValid(old(heap), id) ==> (objectValid(heap, id) && invokeSplit(heap, id)[targetObject][objectClassIdAttr] == invokeSplit(old(heap), id)[targetObject][objectClassIdAttr]));"

/-- The declaration of a procedure for a method of unknown classes. Its effects are functions of the
    state and of the arguments, and nothing else is known of them. -/
def abstractMethod (name : String) (arity : Nat) : List String :=
  let params := "h: Heap, o: Memory, f : FunctionState, id : ClassId, oid : ObjectId" ++ formals arity
  let args :=
    "old(heap), old(objectMemory), old(functionState), internal.classId, internal.objectId" ++
      actuals arity
  ["function " ++ name ++ "#Heap(" ++ params ++ "): Heap;",
    "function " ++ name ++ "#Memory(" ++ params ++ "): Memory;",
    "function " ++ name ++ "#Value(" ++ params ++ "): T;",
    "function " ++ name ++ "#FunctionState(" ++ params ++ "): FunctionState;",
    "procedure " ++ name ++ "(internal.classId : ClassId, internal.objectId : ObjectId" ++
      formals arity ++ ") returns (r: T);",
    "modifies heap;",
    "modifies objectMemory;",
    "modifies functionState;",
    "ensures heap == " ++ name ++ "#Heap(" ++ args ++ ");",
    "ensures objectMemory == " ++ name ++ "#Memory(" ++ args ++ ");",
    "ensures r == " ++ name ++ "#Value(" ++ args ++ ");",
    "ensures functionState == " ++ name ++ "#FunctionState(" ++ args ++ ");",
    classPreserved]

def methodProcedure (method : String) (arity : Nat) : Build String := do
  match (← get).methods.get? method with
  | some name => return name
  | none =>
    let name := (← get).methods.freshProcedure method
    lines (abstractMethod name arity)
    blank
    modify fun d => { d with methods := d.methods.insert method name }
    return name

end Build

end GameHop.Program
