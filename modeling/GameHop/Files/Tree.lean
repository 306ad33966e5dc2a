import GameHop.Files.Error
import GameHop.Files.Path
import GameHop.Table

/-!
Files and directories, and what happens to them. A place in the tree is the list of names from the
working directory down; paths that leave the working directory lead nowhere.
-/

namespace GameHop

/-- The files and directories below a working directory. -/
structure FileTree where
  /-- The path of the working directory. -/
  root : String
  files : List (List String × String)
  dirs : List (List String)

namespace FileTree

def empty (root : String) : FileTree :=
  ⟨root, [], []⟩

def fileAt? (t : FileTree) (place : List String) : Option String :=
  t.files.lookup place

def isDirAt (t : FileTree) (place : List String) : Bool :=
  place.isEmpty || t.dirs.any (place.isPrefixOf ·) ||
    t.files.any fun (f, _) => place.isPrefixOf f && place != f

/-- Follows names from a place. Every place on the way has to be a directory. -/
def walk (t : FileTree) (place : List String) : List String → Except FileFault (List String)
  | [] => .ok place
  | name :: names =>
    if t.isDirAt place then
      if name == "." then t.walk place names
      else if name == ".." then
        if place.isEmpty then .error .notFound else t.walk place.dropLast names
      else t.walk (place ++ [name]) names
    else if (t.fileAt? place).isSome then .error .notADirectory
    else .error .notFound

/-- The names of an absolute path below the working directory. -/
def belowRoot? (t : FileTree) (path : String) : Option (List String) :=
  let root := Path.components t.root
  let names := Path.components path
  if root.isPrefixOf names then some (names.drop root.length) else none

/-- The place that a path means, whether or not there is anything. -/
def resolve (t : FileTree) (path : String) : Except FileFault (List String) :=
  if path.isEmpty then .error .notFound
  else if Path.isAbsolute path then
    match t.belowRoot? path with
    | some names => t.walk [] names
    | none => .error .notFound
  else t.walk [] (Path.components path)

/-! ## Reading -/

def read (t : FileTree) (path : String) : Except FileFault String := do
  let place ← t.resolve path
  match t.fileAt? place with
  | some text => if Path.endsInSlash path then throw .notADirectory else return text
  | none => throw (if t.isDirAt place then .isADirectory else .notFound)

def isFile (t : FileTree) (path : String) : Bool :=
  match t.read path with
  | .ok _ => true
  | .error _ => false

def isDir (t : FileTree) (path : String) : Bool :=
  match t.resolve path with
  | .ok place => t.isDirAt place
  | .error _ => false

/-! ## Writing -/

/-- The tree with a text at a place, over the file that is there. -/
def putAt (t : FileTree) (place : List String) (text : String) : FileTree :=
  { t with files := insertEntry place text t.files }

/-- Whether a file can be at a place: its directory has to be there. -/
def writable (t : FileTree) (path : String) : Except FileFault (List String) := do
  let place ← t.resolve path
  if t.isDirAt place then throw .isADirectory
  if Path.endsInSlash path then
    throw (if (t.fileAt? place).isSome then .notADirectory else .isADirectory)
  if t.isDirAt place.dropLast then return place
  throw (if (t.fileAt? place.dropLast).isSome then .notADirectory else .notFound)

def write (t : FileTree) (path text : String) : Except FileFault FileTree := do
  let place ← t.writable path
  return t.putAt place text

/-- Writes at the end of a file. -/
def append (t : FileTree) (path text : String) : Except FileFault FileTree := do
  let place ← t.writable path
  return t.putAt place ((t.fileAt? place).getD "" ++ text)

/-- Makes the directories along the names that are missing. -/
def makeDirs (t : FileTree) (place : List String) : List String → Except FileFault FileTree
  | [] => .ok t
  | name :: names =>
    if name == "." then t.makeDirs place names
    else if name == ".." then
      if place.isEmpty then .error .notFound else t.makeDirs place.dropLast names
    else
      let next := place ++ [name]
      if (t.fileAt? next).isSome then
        .error (if names.isEmpty then .exists_ else .notADirectory)
      else if t.isDirAt next then t.makeDirs next names
      else { t with dirs := t.dirs ++ [next] }.makeDirs next names

def createDirs (t : FileTree) (path : String) : Except FileFault FileTree :=
  if Path.isAbsolute path then
    match t.belowRoot? path with
    | some names => t.makeDirs [] names
    | none => .error .notFound
  else t.makeDirs [] (Path.components path)

/-! ## Laws -/

theorem fileAt_putAt (t : FileTree) (place place' : List String) (text : String) :
    (t.putAt place text).fileAt? place' = if place' = place then some text else t.fileAt? place' := by
  simp [fileAt?, putAt, lookup_insertEntry]

end FileTree

end GameHop
