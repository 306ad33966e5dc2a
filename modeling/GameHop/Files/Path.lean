/-!
Paths of files as texts. Components are separated by slashes; empty components, and components `.`
other than a leading one, do not count.
-/

namespace GameHop.Path

def isAbsolute (path : String) : Bool :=
  path.toList.head? == some '/'

def pieces (path : List Char) : List (List Char) :=
  match path with
  | [] => [[]]
  | '/' :: rest => [] :: pieces rest
  | c :: rest =>
    match pieces rest with
    | [] => [[c]]
    | p :: ps => (c :: p) :: ps

/-- Whether a piece after the first is a component. -/
def counts (piece : List Char) : Bool :=
  piece != [] && piece != ['.']

def components (path : String) : List String :=
  match pieces path.toList with
  | ['.'] :: rest => "." :: (rest.filter counts).map String.ofList
  | ps => (ps.filter counts).map String.ofList

/-- The pieces of a directory up to its last component. -/
def trimEnd : List (List Char) → List (List Char)
  | [] => []
  | first :: rest => first :: (rest.reverse.dropWhile (!counts ·)).reverse

def ofPieces (ps : List (List Char)) : String :=
  String.ofList (List.intercalate ['/'] ps)

/-- The path inside a directory; an absolute path stays as it is. -/
def join (dir path : String) : String :=
  if isAbsolute path then path
  else if dir.isEmpty then path
  else if dir.toList.getLast? == some '/' then dir ++ path
  else dir ++ "/" ++ path

/-- The directory that holds the last component. -/
def parent? (path : String) : Option String :=
  match trimEnd (pieces path.toList) with
  | [] | [[]] => none
  | [_] => some ""
  | ps =>
    match trimEnd ps.dropLast with
    | [[]] => some "/"
    | dir => some (ofPieces dir)

/-- The first directories on the way up from a path, with the path itself. -/
def firstAncestors : (count : Nat) → String → List String
  | 0, _ => []
  | count + 1, path =>
    path :: match parent? path with
      | some dir => firstAncestors count dir
      | none => []

def ancestors (path : String) : List String :=
  firstAncestors (path.length + 1) path

def fileName? (path : String) : Option String :=
  match (components path).getLast? with
  | some c => if c == "." || c == ".." then none else some c
  | none => none

/-- Whether a path can only mean a directory. -/
def endsInSlash (path : String) : Bool :=
  match (pieces path.toList).getLast? with
  | some p => !counts p
  | none => false

end GameHop.Path
