/-!
Program text in the making: lines, each indented by tabs.
-/

namespace GameHop.Program

/-- Text, the depth of the next line, and whether the text ends at the start of a line. -/
structure Writer where
  text : String
  depth : Nat
  atLineStart : Bool
deriving DecidableEq, Repr

namespace Writer

def empty : Writer :=
  ⟨"", 0, true⟩

def indent (w : Writer) : Writer :=
  { w with depth := w.depth + 1 }

def dedent (w : Writer) : Writer :=
  { w with depth := w.depth - 1 }

def blank (w : Writer) : Writer :=
  { w with text := w.text ++ "\n", atLineStart := true }

/-- The tabs before what is written next. -/
def margin (w : Writer) : String :=
  if w.atLineStart then "".pushn '\t' w.depth else ""

/-- Writes a part of one line. An empty part brings no tabs. -/
def part (w : Writer) (s : String) : Writer :=
  if s.isEmpty then w else { w with text := w.text ++ w.margin ++ s, atLineStart := false }

/-- Writes the parts of several lines. -/
def parts (w : Writer) : List String → Writer
  | [] => w
  | [s] => w.part s
  | s :: rest => (w.part s).blank.parts rest

def write (w : Writer) (s : String) : Writer :=
  w.parts ((s.toList.splitOn '\n').map String.ofList)

def line (w : Writer) (s : String) : Writer :=
  (w.write s).blank

def lines (w : Writer) (ss : List String) : Writer :=
  ss.foldl line w

/-- Writes what another writer holds, at the depth of this one, and ends its last line. -/
def append (w other : Writer) : Writer :=
  let w' := w.write other.text
  if other.text.isEmpty || other.atLineStart then w' else w'.blank

/-! ## Laws -/

@[simp] theorem part_empty (w : Writer) : w.part "" = w := rfl

@[simp] theorem parts_singleton (w : Writer) (s : String) : w.parts [s] = w.part s := rfl

@[simp] theorem depth_blank (w : Writer) : w.blank.depth = w.depth := rfl

@[simp] theorem depth_part (w : Writer) (s : String) : (w.part s).depth = w.depth := by
  unfold part; split <;> rfl

@[simp] theorem depth_parts (w : Writer) (ss : List String) : (w.parts ss).depth = w.depth := by
  fun_induction parts w ss <;> simp_all

@[simp] theorem depth_line (w : Writer) (s : String) : (w.line s).depth = w.depth := by
  simp [line, write]

end Writer

end GameHop.Program
