import GameHop.Files.Path
import GameHop.Source.Span

/-!
Places as people read them: a file, a line and a column. Lines and columns count from one, and
columns count bytes.
-/

namespace GameHop

structure SourceFile where
  path : String
  text : String

structure Location where
  file : String
  line : Nat
  column : Nat
  span : Span
deriving DecidableEq, Repr

namespace Location

/-- The line and the column of the byte `offset`, if the text starts at byte `here` with the given
    line and column. A byte after the end counts as the end. -/
def lineColumn (offset : Nat) : (here line column : Nat) → List Char → Nat × Nat
  | _, line, column, [] => (line, column)
  | here, line, column, c :: cs =>
    if offset ≤ here then (line, column)
    else if c = '\n' then lineColumn offset (here + 1) (line + 1) 1 cs
    else lineColumn offset (here + c.utf8Size) line (column + c.utf8Size) cs

def detached (file : String) : Location :=
  ⟨file, 1, 1, .nowhere⟩

def fileName (l : Location) : String :=
  (Path.fileName? l.file).getD l.file

/-- `file(line:column)` -/
def text (l : Location) : String :=
  l.fileName ++ "(" ++ toString l.line ++ ":" ++ toString l.column ++ ")"

end Location

def SourceFile.locate (f : SourceFile) (span : Span) : Location :=
  let (line, column) := Location.lineColumn span.offset 0 1 1 f.text.toList
  ⟨f.path, line, column, span⟩

end GameHop
