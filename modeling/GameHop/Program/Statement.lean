import GameHop.Program.Term
import GameHop.Program.Writer

/-!
Statements and procedures of verification programs, and their text.
-/

namespace GameHop.Program

/-- The attribute under which memories keep a field. -/
def fieldAttr (field : String) : String :=
  "internal.attribute.field." ++ field

def checkpointId (label : String) : String :=
  "internal.checkpointid." ++ label

/-- The call of a method on an object of the heap. The heap is split at the target, the method runs
    with the memory of the target on the part that the target reaches, and the heap is put together
    again. -/
structure Invocation where
  method : String
  target : String
  args : List String
  /-- The classes that the target may belong to; each has its own procedure. -/
  classes : List String
  /-- The procedure for a target of any other class. -/
  fallback : String
  result : String
  /-- Where the memory of the caller is kept. -/
  memory : String
  /-- Where the split heap is kept. -/
  split : String

inductive Stmt where
  /-- `x:=v;`, an assignment of the program under proof. -/
  | assign (target value : Term)
  /-- `t := v;`, an assignment of the state or of a temporary variable. -/
  | set (target value : Term)
  | ifThen (cond : Term) (body : List Stmt)
  | ifElse (cond : Term) (yes no : List Stmt)
  | assert (claim : Term)
  | assume (claim : Term)
  /-- `call r := p(a,b);` -/
  | call (result procedure : String) (args : List Term)
  /-- `call r:=f(internal.objectId,a,b);`, a call of a function of the development. -/
  | apply (result function : String) (args : List Term)
  /-- Puts an object of the given identity on the heap, if there is none. -/
  | allocate (id : Term)
  | invoke (i : Invocation)
  | comment (text : String)

namespace Writer

/-- Writes an indented block between an opening and a closing line. -/
def block (w : Writer) (opening : String) (body : Writer → Writer) (closing : String) : Writer :=
  (body (w.line opening).indent).dedent.line closing

end Writer

namespace Invocation

/-- The procedure of a class is tried before those of the classes after it. -/
def writeDispatch (i : Invocation) (cls rest : String) (classes : List String) (w : Writer) :
    Writer :=
  match classes with
  | [] => w
  | c :: cs =>
    let w := w.block (rest ++ "if (" ++ cls ++ " == " ++ c ++ ") \x7b")
      (·.line ("call " ++ i.result ++ ":= " ++ c ++ "." ++ i.method ++ "(" ++ cls ++ ", " ++
        ",".intercalate (i.target :: i.args) ++ ");")) "\x7d"
    i.writeDispatch cls "else " cs w

def write (i : Invocation) (w : Writer) : Writer :=
  let cls := i.split ++ "[targetObject][objectClassIdAttr]"
  let fallback := fun (w : Writer) => w.line ("call " ++ i.result ++ ":=" ++ i.fallback ++ "(" ++
    cls ++ ", " ++ ",".intercalate (i.target :: i.args) ++ ");")
  w.block ("if(objectValid(heap, " ++ i.target ++ ")) \x7b")
    (fun w =>
      let w := w.lines [
        i.memory ++ ":= objectMemory;",
        i.split ++ " := invokeSplit(heap, " ++ i.target ++ ");",
        "heap := " ++ i.split ++ "[heapRight];",
        "objectMemory := " ++ i.split ++ "[targetObject][objectMemoryAttr];"]
      let w := i.writeDispatch cls "" i.classes w
      let w := if i.classes.isEmpty then fallback w else w.block "else \x7b" fallback "\x7d"
      w.lines [
        i.split ++ "[targetObject][objectMemoryAttr] := objectMemory;",
        i.split ++ "[heapRight] := heap;",
        "objectMemory := " ++ i.memory ++ ";",
        "heap := assembleHeap(" ++ i.split ++ ");"])
    "\x7d"

end Invocation

mutual

def Stmt.write : Stmt → Writer → Writer
  | .assign x v, w => w.line (x.text ++ ":=" ++ v.text ++ ";")
  | .set x v, w => w.line (x.text ++ " := " ++ v.text ++ ";")
  | .ifThen c body, w =>
    w.block ("if (" ++ c.text ++ ") \x7b") (Stmt.writeList body) "\x7d"
  | .ifElse c yes no, w =>
    let w := (Stmt.writeList yes (w.line ("if (" ++ c.text ++ ") \x7b")).indent).dedent
    w.block "\x7d else \x7b" (Stmt.writeList no) "\x7d"
  | .assert p, w => w.line ("assert (" ++ p.text ++ ");")
  | .assume p, w => w.line ("assume (" ++ p.text ++ ");")
  | .call r p args, w =>
    w.line ("call " ++ r ++ " := " ++ p ++ "(" ++ ",".intercalate (Term.textList args) ++ ");")
  | .apply r f args, w =>
    w.line ("call " ++ r ++ ":=" ++ f ++ "(" ++
      ",".intercalate ("internal.objectId" :: Term.textList args) ++ ");")
  | .allocate id, w =>
    w.block ("if (!objectValid(heap, " ++ id.text ++ ")) \x7b")
      (·.line ("heap := addObject(heap, emptyObject[objectIdAttr := " ++ id.text ++ "]);")) "\x7d"
  | .invoke i, w => i.write w
  | .comment s, w => w.line ("// " ++ s)

def Stmt.writeList : List Stmt → Writer → Writer
  | [], w => w
  | s :: ss, w => Stmt.writeList ss (s.write w)

end

namespace Stmt

/-- Keeps the state under a label. -/
def saveCheckpoint (label : String) : List Stmt :=
  [.comment ("saving checkpoint for label " ++ label),
    .set (.index (.name "checkpoints") (.name (checkpointId label)))
      (.store (.store (.store (.name "emptyCheckpoint")
        (.name "checkpointFunctionState") (.name "functionState"))
        (.name "checkpointHeap") (.name "heap"))
        (.name "checkpointMemory") (.name "objectMemory"))]

end Stmt

structure Procedure where
  /-- The lines up to the opening brace. -/
  signature : List String
  declarations : List String
  /-- Whether an empty line follows the declarations. -/
  spaced : Bool
  body : List Stmt

def Procedure.write (p : Procedure) (w : Writer) : Writer :=
  let w := (w.lines p.signature).indent.lines p.declarations
  let w := if p.spaced then w.blank else w
  (Stmt.writeList p.body w).dedent.line "\x7d"

end GameHop.Program
