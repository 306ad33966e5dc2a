import GameHop.Program.Writer

/-!
Deferred rendering. What a writer of its own holds comes out, when it is appended, as if it had been
written in place: an append adds its depth to that of every line, and leaves blank lines blank.
-/

namespace GameHop.Program.Writer

/-! ## One character after the other -/

/-- Writes one character. -/
def char (w : Writer) (c : Char) : Writer :=
  if c = '\n' then w.blank
  else { w with text := w.text ++ w.margin ++ String.singleton c, atLineStart := false }

theorem part_cons (w : Writer) {c : Char} (hc : c ≠ '\n') (cs : List Char) :
    w.part (String.ofList (c :: cs)) = (w.char c).part (String.ofList cs) := by
  have hne : (String.ofList (c :: cs)).isEmpty = false := by simp [String.isEmpty_eq_false_iff]
  simp only [part, hne, char, hc, if_false, Bool.false_eq_true]
  split
  · rename_i h
    rw [String.ofList_cons, String.isEmpty_iff.1 h, String.append_empty]
  · simp only [margin, String.ofList_cons, String.append_assoc, Bool.false_eq_true, if_false,
      String.empty_append]

theorem parts_splitOn (w : Writer) (cs : List Char) :
    w.parts ((cs.splitOn '\n').map String.ofList) = cs.foldl char w := by
  induction cs generalizing w with
  | nil => rfl
  | cons c cs ih =>
    obtain ⟨l, ls, hls⟩ := List.exists_cons_of_ne_nil (List.splitOn_ne_nil '\n' cs)
    rw [List.foldl_cons, ← ih, List.splitOn_cons_eq_if_modifyHead, hls]
    by_cases hc : c = '\n'
    · simp [hc, parts, char]
    · have hhead := part_cons w hc l
      cases ls <;> simp [hc, parts, hhead, -String.ofList_cons]

theorem write_eq_foldl (w : Writer) (s : String) : w.write s = s.toList.foldl char w :=
  parts_splitOn w s.toList

theorem write_append (w : Writer) (s t : String) : w.write (s ++ t) = (w.write s).write t := by
  simp only [write_eq_foldl, String.toList_append, List.foldl_append]

theorem write_newline (w : Writer) : w.write "\n" = w.blank := by
  simp [write_eq_foldl, char]

/-- A part of a line is written as it is. -/
theorem write_of_not_mem (w : Writer) {s : String} (hs : '\n' ∉ s.toList) : w.write s = w.part s := by
  have hsplit : (['\n'].intercalate [s.toList]).splitOn '\n' = [s.toList] :=
    List.splitOn_intercalate '\n' (by simpa using hs) (by simp)
  rw [List.intercalate_singleton] at hsplit
  simp [write, hsplit]

theorem toList_tabs (n : Nat) : ("".pushn '\t' n).toList = List.replicate n '\t' := by
  induction n with
  | zero => rfl
  | succ n ih => rw [List.replicate_succ', ← ih]; exact String.toList_push _

theorem tabs_add (m n : Nat) : "".pushn '\t' (m + n) = "".pushn '\t' m ++ "".pushn '\t' n := by
  rw [← String.toList_inj, String.toList_append, toList_tabs, toList_tabs, toList_tabs,
    List.replicate_append_replicate]

/-! ## Writing in place -/

/-- `direct` is what `w` becomes when that which made `inner` happens to `w` itself. -/
structure Deferred (w inner direct : Writer) : Prop where
  write : w.write inner.text = { direct with depth := w.depth }
  depth : direct.depth = w.depth + inner.depth
  atLineStart : direct.atLineStart = inner.atLineStart

namespace Deferred

variable {w inner direct : Writer}

theorem empty (hw : w.atLineStart = true) : Deferred w .empty w :=
  ⟨by simp [Writer.empty, write_eq_foldl], rfl, hw⟩

theorem indent (h : Deferred w inner direct) : Deferred w inner.indent direct.indent :=
  ⟨h.write, by simp [Writer.indent, h.depth, Nat.add_assoc], h.atLineStart⟩

theorem dedent (h : Deferred w inner direct) (hd : 0 < inner.depth) :
    Deferred w inner.dedent direct.dedent :=
  ⟨h.write, by simp only [Writer.dedent, h.depth]; omega, h.atLineStart⟩

theorem blank (h : Deferred w inner direct) : Deferred w inner.blank direct.blank := by
  refine ⟨?_, h.depth, rfl⟩
  simp only [Writer.blank, write_append, h.write, write_newline]

/-- The tabs of both depths stand before the first character of a line. -/
theorem char (h : Deferred w inner direct) (c : Char) :
    Deferred w (inner.char c) (direct.char c) := by
  by_cases hc : c = '\n'
  · simpa [Writer.char, hc] using h.blank
  · have hs : '\n' ∉ (inner.margin ++ String.singleton c).toList := by
      simp only [margin, String.toList_append, List.mem_append]
      split <;> simp [toList_tabs, Ne.symm hc]
    have hmargin : direct.margin = { direct with depth := w.depth }.margin ++ inner.margin := by
      simp only [margin, h.depth, h.atLineStart, tabs_add]
      split <;> simp
    refine ⟨?_, by simp [Writer.char, hc, h.depth], by simp [Writer.char, hc]⟩
    simp only [Writer.char, hc, if_false]
    rw [String.append_assoc, write_append, h.write, write_of_not_mem _ hs]
    have hne : (inner.margin ++ String.singleton c).isEmpty = false := by
      simp [String.isEmpty_eq_false_iff]
    simp only [part, hne, hmargin, String.append_assoc, Bool.false_eq_true, if_false]

theorem foldl_char (h : Deferred w inner direct) (cs : List Char) :
    Deferred w (cs.foldl Writer.char inner) (cs.foldl Writer.char direct) := by
  induction cs generalizing inner direct with
  | nil => exact h
  | cons c cs ih => exact ih (h.char c)

theorem writes (h : Deferred w inner direct) (s : String) :
    Deferred w (inner.write s) (direct.write s) := by
  rw [write_eq_foldl, write_eq_foldl]
  exact h.foldl_char _

theorem append (h : Deferred w inner direct) (other : Writer) :
    Deferred w (inner.append other) (direct.append other) := by
  simp only [Writer.append]
  split
  · exact h.writes _
  · exact (h.writes _).blank

end Deferred

/-! ## Ends of lines -/

/-- Whether a text is empty or ends in a line break. -/
def EndsLine (s : String) : Prop :=
  ∀ c ∈ s.toList.getLast?, c = '\n'

/-- Whether a writer knows where its text ends. -/
def Aware (w : Writer) : Prop :=
  w.atLineStart = true ↔ EndsLine w.text

theorem aware_empty : Writer.empty.Aware := by
  simp [Aware, EndsLine, empty]

theorem aware_blank (w : Writer) : w.blank.Aware := by
  simp [Aware, EndsLine, blank]

theorem Aware.write {w : Writer} (h : w.Aware) (s : String) : (w.write s).Aware := by
  rw [write_eq_foldl]
  rcases List.eq_nil_or_concat s.toList with hs | ⟨cs, c, hs⟩
  · simpa [hs] using h
  · rw [hs]
    by_cases hc : c = '\n' <;> simp [Aware, EndsLine, char, hc, blank]

theorem Aware.append {w : Writer} (h : w.Aware) (other : Writer) : (w.append other).Aware := by
  unfold Writer.append
  split
  · exact h.write _
  · exact aware_blank _

/-! ## Operations -/

inductive Op where
  | write (s : String)
  | line (s : String)
  | blank
  | indent
  | dedent
deriving DecidableEq

def Op.run : Op → Writer → Writer
  | .write s, w => w.write s
  | .line s, w => w.line s
  | .blank, w => w.blank
  | .indent, w => w.indent
  | .dedent, w => w.dedent

/-- Performs operations, one after the other. -/
def perform (ops : List Op) (w : Writer) : Writer :=
  ops.foldl (fun w op => op.run w) w

/-- Whether no beginning of the operations has more dedents than indents. -/
abbrev WellNested (ops : List Op) : Prop :=
  ∀ n ≤ ops.length, (ops.take n).count .dedent ≤ (ops.take n).count .indent

/-- The operations do the same to both writers, as long as no dedent meets depth zero. -/
theorem Deferred.perform {w inner direct : Writer} (h : Deferred w inner direct) {ops : List Op}
    (hops : ∀ n ≤ ops.length,
      (ops.take n).count .dedent ≤ inner.depth + (ops.take n).count .indent) :
    Deferred w (perform ops inner) (perform ops direct) := by
  induction ops generalizing inner direct with
  | nil => exact h
  | cons op ops ih =>
    have hrest : ∀ n ≤ ops.length, (op :: ops.take n).count .dedent ≤
        inner.depth + (op :: ops.take n).count .indent :=
      fun n hn => hops (n + 1) (Nat.succ_le_succ hn)
    cases op with
    | write s => exact ih (h.writes s) (by simpa [Op.run, Writer.write] using hrest)
    | line s => exact ih (h.writes s).blank (by simpa [Op.run, Writer.write] using hrest)
    | blank => exact ih h.blank (by simpa [Op.run] using hrest)
    | indent =>
      refine ih h.indent fun n hn => ?_
      have := hrest n hn
      simp [Op.run, Writer.indent] at this ⊢
      omega
    | dedent =>
      have hfirst : 1 ≤ inner.depth := by simpa using hrest 0 (Nat.zero_le _)
      refine ih (h.dedent hfirst) fun n hn => ?_
      have := hrest n hn
      simp [Op.run, Writer.dedent] at this ⊢
      omega

theorem deferred_perform {ops : List Op} (hops : WellNested ops) {w : Writer}
    (hw : w.atLineStart = true) : Deferred w (perform ops empty) (perform ops w) :=
  (Deferred.empty hw).perform fun n hn => Nat.le_add_left_of_le (hops n hn)

theorem Aware.perform {w : Writer} (h : w.Aware) (ops : List Op) : (perform ops w).Aware := by
  induction ops generalizing w with
  | nil => exact h
  | cons op ops ih =>
    refine ih ?_
    cases op with
    | write s => exact h.write s
    | line | blank => exact aware_blank _
    | indent | dedent => exact h

/-! ## Appending -/

/-- What ends the line that a writer is in the middle of. -/
def lineEnd (w : Writer) : String :=
  if w.atLineStart then "" else "\n"

theorem text_append_of_aware (w : Writer) {other : Writer} (h : other.Aware) :
    (w.append other).text = (w.write other.text).text ++ other.lineEnd := by
  have hempty : other.text = "" → other.atLineStart = true := by
    intro ht
    exact h.2 (by simp [EndsLine, ht])
  cases hs : other.atLineStart with
  | true => simp [append, lineEnd, hs]
  | false =>
    have ht : other.text.isEmpty = false := by
      rw [String.isEmpty_eq_false_iff]
      intro ht
      simp [hempty ht] at hs
    simp [append, lineEnd, hs, ht, blank]

theorem Deferred.text_append {w inner direct : Writer} (h : Deferred w inner direct)
    (hi : inner.Aware) : (w.append inner).text = direct.text ++ inner.lineEnd := by
  rw [text_append_of_aware w hi, h.write]

theorem atLineStart_write (w : Writer) (hw : w.atLineStart = true) (s : String) :
    (w.write s).atLineStart = true ↔ EndsLine s := by
  rw [write_eq_foldl, EndsLine]
  rcases List.eq_nil_or_concat s.toList with h | ⟨cs, c, h⟩
  · simp [h, hw]
  · rw [h]
    by_cases hc : c = '\n' <;> simp [char, hc, blank]

/-- A writer that is appended at the start of a line leaves the start of a line. -/
theorem lineEnd_append (w : Writer) {other : Writer} (hw : w.atLineStart = true)
    (h : other.Aware) : (w.append other).lineEnd = "" := by
  unfold append lineEnd
  split
  · rename_i hend
    have hends : EndsLine other.text := by
      rcases Bool.or_eq_true_iff.1 hend with ht | hs
      · simp [EndsLine, String.isEmpty_iff.1 ht]
      · exact h.1 hs
    simp [(atLineStart_write w hw _).2 hends]
  · rfl

/-! ## Lines -/

def linesOf (s : String) : List (List Char) :=
  s.toList.splitOn '\n'

/-- A line with more tabs before it, unless it is blank. -/
def shifted (tabs : Nat) (line : List Char) : List Char :=
  if line = [] then [] else List.replicate tabs '\t' ++ line

theorem text_parts (w : Writer) (hw : w.atLineStart = true) (ls : List (List Char)) :
    (w.parts (ls.map String.ofList)).text =
      w.text ++ String.ofList (['\n'].intercalate (ls.map (shifted w.depth))) := by
  have hpart : ∀ (w : Writer) (l : List Char), w.atLineStart = true →
      (w.part (String.ofList l)).text = w.text ++ String.ofList (shifted w.depth l) := by
    intro w l hw
    cases l with
    | nil => simp [shifted]
    | cons c l =>
      rw [← String.toList_inj]
      simp [part, margin, hw, shifted, toList_tabs]
  induction ls generalizing w with
  | nil => simp [parts]
  | cons l ls ih =>
    cases ls with
    | nil => simpa using hpart w l hw
    | cons m ls =>
      have hrest := ih (w.part (String.ofList l)).blank rfl
      simp only [List.map_cons, depth_blank, depth_part] at hrest ⊢
      rw [parts, hrest, List.intercalate_cons_cons]
      · simp only [blank, hpart w l hw, String.ofList_append, String.append_assoc]
      · simp

theorem not_mem_of_mem_linesOf {s : String} {l : List Char} (hl : l ∈ linesOf s) : '\n' ∉ l := by
  unfold linesOf at hl
  generalize s.toList = cs at hl
  induction cs generalizing l with
  | nil => simp_all
  | cons c cs ih =>
    rw [List.splitOn_cons_eq_if_modifyHead] at hl
    split at hl
    · rcases List.mem_cons.1 hl with rfl | hl
      · simp
      · exact ih hl
    · rename_i hc
      obtain ⟨m, ms, hms⟩ := List.exists_cons_of_ne_nil (List.splitOn_ne_nil '\n' cs)
      rw [hms] at hl ih
      rcases List.mem_cons.1 hl with rfl | hl
      · exact List.not_mem_cons_of_ne_of_not_mem (Ne.symm (by simpa using hc))
          (ih List.mem_cons_self)
      · exact ih (List.mem_cons_of_mem _ hl)

/-- What is written at the start of a line has the same lines, with the tabs of the writer before
    those that are not blank. -/
theorem exists_linesOf_write (w : Writer) (hw : w.atLineStart = true) (s : String) :
    ∃ added, (w.write s).text = w.text ++ added ∧
      linesOf added = (linesOf s).map (shifted w.depth) := by
  refine ⟨_, text_parts w hw _, ?_⟩
  rw [linesOf, String.toList_ofList]
  refine List.splitOn_intercalate '\n' ?_ (by simp [List.splitOn_ne_nil])
  intro line hline
  obtain ⟨l, hl, rfl⟩ := List.mem_map.1 hline
  have := not_mem_of_mem_linesOf hl
  unfold shifted
  split <;> simp_all

/-- **Deferred rendering.** Operations on a writer of its own, appended to a parent at the start of a
    line, give the text that they give on the parent itself, up to the end of the last line. Appends
    inside one another add up their depths, and blank lines stay blank. -/
theorem append_perform (ops : List Op) (hops : WellNested ops) (w : Writer)
    (hw : w.atLineStart = true) :
    (w.append (perform ops empty)).text = (perform ops w).text ++ (perform ops empty).lineEnd ∧
    ((perform ops empty).atLineStart = true ↔ EndsLine (perform ops empty).text) ∧
    (∀ more, WellNested more → (perform ops empty).atLineStart = true →
      (w.append ((perform ops empty).append (perform more empty))).text =
        (perform more (perform ops w)).text ++ (perform more empty).lineEnd) ∧
    (perform ops w).depth = w.depth + (perform ops empty).depth ∧
    ∃ added, (w.append (perform ops empty)).text = w.text ++ added ++ (perform ops empty).lineEnd ∧
      linesOf added = (linesOf (perform ops empty).text).map (shifted w.depth) := by
  have hinner : (perform ops empty).Aware := aware_empty.perform ops
  have hdirect := deferred_perform hops hw
  refine ⟨hdirect.text_append hinner, hinner, ?_, hdirect.depth, ?_⟩
  · intro more hmore hstart
    have hsub : (perform more empty).Aware := aware_empty.perform more
    have hnested := deferred_perform hmore (hdirect.atLineStart.trans hstart)
    rw [(hdirect.append _).text_append (Aware.append hinner _), lineEnd_append _ hstart hsub,
      String.append_empty, hnested.text_append hsub]
  · obtain ⟨added, htext, hlines⟩ := exists_linesOf_write w hw (perform ops empty).text
    exact ⟨added, by rw [text_append_of_aware w hinner, htext], hlines⟩

/-- A body with a blank line and an unfinished last line, appended two tabs deep. -/
theorem append_perform_body :
    (Writer.append ⟨"a\n", 2, true⟩ (perform [.line "b", .indent, .write "c\n\nd"] empty)).text =
      "a\n\t\tb\n\t\t\tc\n\n\t\t\td\n" ∧
    (perform [.line "b", .indent, .write "c\n\nd"] ⟨"a\n", 2, true⟩).text =
      "a\n\t\tb\n\t\t\tc\n\n\t\t\td" ∧
    (Writer.append ⟨"a\n", 2, true⟩ (perform [.line "b", .indent, .write "c\n\nd"] empty)).text =
      (perform [.line "b", .indent, .write "c\n\nd"] ⟨"a\n", 2, true⟩).text ++
        (perform [.line "b", .indent, .write "c\n\nd"] empty).lineEnd :=
  ⟨by decide +kernel, by decide +kernel, (append_perform _ (by decide) _ rfl).1⟩

end GameHop.Program.Writer
