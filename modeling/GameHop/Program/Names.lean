import GameHop.Check.Error
import GameHop.Program.Statement
import GameHop.Term.Names

/-!
The names of a program. Every table gives a name on first use and the same name afterwards.
-/

namespace GameHop.Program

/-! ## Constants -/

/-- The constants that a program declares so far. -/
structure Constants where
  fields : List String
  checkpoints : List String
  classIds : List String
  /-- The constants of contexts, by the texts of the contexts. -/
  exprs : List (String × String)

namespace Constants

def empty : Constants :=
  ⟨[], [], [], []⟩

/-- Declares the attribute of a field, unless it is declared. -/
def addField (c : Constants) (field : String) (w : Writer) : Constants × Writer :=
  if c.fields.contains field then (c, w)
  else ({ c with fields := c.fields ++ [field] },
    w.line ("const unique " ++ fieldAttr field ++ " : Bitstring;"))

def addFields (c : Constants) (fields : List String) (w : Writer) : Constants × Writer :=
  fields.foldl (fun (c, w) f => c.addField f w) (c, w)

/-- Declares the constant of a checkpoint, unless it is declared. -/
def addCheckpoint (c : Constants) (label : String) (w : Writer) : Constants × Writer :=
  if c.checkpoints.contains label then (c, w)
  else ({ c with checkpoints := c.checkpoints ++ [label] },
    w.line ("const unique " ++ checkpointId label ++ " : CheckpointId;"))

/-- Declares a class, unless it is declared. -/
def addClassId (c : Constants) (cls : String) (w : Writer) : Constants × Writer :=
  if c.classIds.contains cls then (c, w)
  else ({ c with classIds := c.classIds ++ [cls] },
    w.line ("const unique " ++ cls ++ " : ClassId;"))

def hasClassId (c : Constants) (cls : String) : Bool :=
  c.classIds.contains cls

/-- The constant that stands for a context with the given text. -/
def internExpr (c : Constants) (text : String) (w : Writer) : String × Constants × Writer :=
  match c.exprs.lookup text with
  | some id => (id, c, w)
  | none =>
    let id := freshName "internal.expr" (c.exprs.map (·.2))
    (id, { c with exprs := c.exprs ++ [(text, id)] }, w.line ("const unique " ++ id ++ ":Expr;"))

end Constants

/-! ## Classes -/

/-- The template of an object: its text with all initial values left out. Objects of one template
    are built by the same procedure. -/
def template (o : Object) : String :=
  (Object.toExpr ⟨o.className,
    o.fields.map (fun f => ⟨f.span, f.name, .ofNat 0⟩), o.methods⟩).text

structure Classes where
  entries : List (String × String)

namespace Classes

def empty : Classes :=
  ⟨[]⟩

def idOf? (c : Classes) (template : String) : Option String :=
  c.entries.lookup template

def templateOf? (c : Classes) (id : String) : Option String :=
  (c.entries.find? (·.2 == id)).map (·.1)

def get? (c : Classes) (o : Object) : Option String :=
  c.idOf? (template o)

/-- Relates a template and a class. Neither may have another partner. -/
def relate (c : Classes) (template id : String) : Except InternalFault Classes :=
  if (c.templateOf? id).any (· != template) then .error (.classRedefined id)
  else if (c.idOf? template).any (· != id) then .error (.classRenamed template)
  else if c.entries.contains (template, id) then .ok c
  else .ok ⟨c.entries ++ [(template, id)]⟩

def insert (c : Classes) (o : Object) (id : String) : Except InternalFault Classes :=
  c.relate (template o) id

def freshId (c : Classes) : String :=
  freshName "internal.cls" (c.entries.map (·.2))

end Classes

/-! ## Methods -/

/-- The procedures for calls of methods on objects of unknown classes, by the names of the
    methods. -/
structure Methods where
  procedures : List (String × String)

namespace Methods

def empty : Methods :=
  ⟨[]⟩

def get? (m : Methods) (method : String) : Option String :=
  m.procedures.lookup method

def freshProcedure (m : Methods) (method : String) : String :=
  freshName (method ++ ".proc.") (m.procedures.map (·.2))

def insert (m : Methods) (method procedure : String) : Methods :=
  ⟨(method, procedure) :: m.procedures.filter (·.1 != method)⟩

end Methods

/-! ## Locals -/

/-- The variables of a procedure with the names of their sorts, in the order of declaration. -/
structure Locals where
  vars : List (String × String)

namespace Locals

def empty : Locals :=
  ⟨[]⟩

def names (l : Locals) : List String :=
  l.vars.map (·.1)

def contains (l : Locals) (x : String) : Bool :=
  l.names.contains x

/-- Declares a variable, unless it is declared. -/
def declare (l : Locals) (x sort : String) : Locals :=
  if l.contains x then l else ⟨l.vars ++ [(x, sort)]⟩

/-- Declares a new temporary variable. -/
def fresh (l : Locals) (sort : String) : String × Locals :=
  let x := freshName "internal.tmp" l.names
  (x, ⟨l.vars ++ [(x, sort)]⟩)

def extend (l other : Locals) : Locals :=
  other.vars.foldl (fun l (x, sort) => l.declare x sort) l

def declarations (l : Locals) : List String :=
  l.vars.map fun (x, sort) => "var " ++ x ++ ":" ++ sort ++ ";"

/-- Variables for values start with the default value. -/
def defaults (l : Locals) : List Stmt :=
  (l.vars.filter (·.2 == TermSort.value.name)).map fun (x, _) =>
    .set (.name x) (.name "defaultValue")

end Locals

end GameHop.Program
