import GameHop.Proofs.Reading.DevelopmentRuns
import GameHop.Proofs.Reading.Layouts

/-!
The layouts of developments as read are tidy. Items and steps of proofs stand on lines of their own,
each of which is put together from blocks.
-/

namespace GameHop

open GameHop.Parser Layout

/-! ## Facts -/

theorem Expr.AsRead.block {least : ExprPrec} {e : Expr} (h : e.AsRead least) (depth : Nat)
    (position : Position) : (e.layout depth position).Block :=
  e.block_layout h.legible depth position

/-- `~` or `~[b]`, and what comes after it. -/
theorem Layout.tail_distance {bound : Option Bound} (hbound : ∀ b ∈ bound, b.AsRead .lowest)
    {l : Layout} (hl : l.Block) : Tail (distance bound ++ (space ++ l)) := by
  cases bound with
  | none =>
    have := (joint_sym_blank .tilde (.inl rfl)).append hl
    simpa [distance] using this
  | some b =>
    have hb := tail_brackets (b.block_layout (hbound b rfl).legible .lowest)
    have htilde := hb.cons (p := .tok (.sym .tilde)) trivial (Piece.breaks_sym _)
      fun q _ => Piece.apart_of_fixed (fun _ => rfl) q
    have := htilde.append (joint_space.append hl)
    simpa [distance, sym] using this

theorem Statement.AsRead.block {s : Statement} (h : s.AsRead) : s.layout.Block := by
  have hleft := (joint_sym_blank .colon (.inl rfl)).append (h.left.block 0 (.operand .assign))
  have hright := tail_distance h.bound (h.right.block 0 (.operand .assign))
  have := ((block_ident h.name).append (tail_formals h.params)).append (hleft.append hright.space)
  simpa [layout] using this

/-! ## Proofs -/

theorem BisimScope.Legible.block {s : BisimScope} (h : s.Legible) : s.layout.Block := by
  cases s with
  | invariant => exact block_ident (by decide)
  | checkpoint left right =>
    refine block_applied (block_ident (by decide)) (block_commas ?_)
    simpa using ⟨block_ident h.1, block_ident h.2⟩

theorem BisimClause.AsRead.line {c : BisimClause} (h : c.AsRead) : c.layout.Line := by
  obtain ⟨s, scopes, claim⟩ := c
  have hclaim : (claim.layout .lowest).Block := claim.block_layout h.claim.legible .lowest
  cases scopes with
  | nil => exact hclaim.semi
  | cons scope scopes =>
    have hscopes := List.forall_mem_cons.1 h.scopes
    have hlist : (commas (scope.layout :: scopes.map BisimScope.layout)).Block :=
      block_commas_cons hscopes.1.block
        (List.forall_mem_map.2 fun s hs => (hscopes.2 s hs).block)
    have := (hlist.append ((joint_sym_blank .colon (.inl rfl)).append hclaim)).semi
    simpa [layout] using this

theorem Field.legibleList_asRead {fs : List Field} (h : ∀ f ∈ fs, f.AsRead) :
    Field.LegibleList fs :=
  (legibleList_iff fs).2 ⟨fun f hf => (h f hf).name, fun f hf => (h f hf).value.legible⟩

theorem Method.AsRead.block {m : Method} (h : m.AsRead) (depth : Nat) :
    (m.layout depth).Block := by
  have hm : Method.LegibleList [m] :=
    (legibleList_iff [m]).2 ⟨by simpa using h.names, by simpa using h.body.legible⟩
  exact block_layouts [m] hm depth _ (.head _)

theorem Replacement.AsRead.block {r : Replacement} (h : r.AsRead) (depth : Nat) :
    (r.layout depth).Block := by
  cases r with
  | fields s fs =>
    exact block_applied (block_keyword .new_)
      (block_commas (Field.block_layouts fs (Field.legibleList_asRead h) depth))
  | method m => exact Method.AsRead.block h depth

theorem Target.AsRead.block {t : Target} (h : t.AsRead) (depth : Nat) :
    (t.layout depth).Block := by
  cases t with
  | expr e => exact Expr.AsRead.block h depth _
  | changed changes =>
    have hspaced : ∀ (changes : List Replacement) {l : Layout}, l.Block →
        (∀ r ∈ changes, r.AsRead) →
        (l ++ (changes.map fun c => space ++ c.layout depth).flatten).Block := by
      intro changes
      induction changes with
      | nil => simp
      | cons c changes ih =>
        intro l hl hchanges
        rw [List.forall_mem_cons] at hchanges
        have := ih (hl.append (joint_space.append (hchanges.1.block depth))) hchanges.2
        simpa using this
    exact hspaced changes (block_keyword .with_) h.2

theorem Layout.line_named (k : Keyword) {xs : List Ident} (h : ∀ x ∈ xs, x.Legible) :
    (named k xs).Line := by
  cases xs with
  | nil => exact (block_keyword k).semi
  | cons x xs =>
    have := ((block_keyword k).append (joint_space.append (block_idents_cons h))).semi
    simpa [named] using this

mutual

/-- **A step of a proof stands on a line.** -/
theorem Tactic.line_layout : ∀ t : Tactic, t.AsRead → ∀ depth, (t.layout depth).Line
  | .subgoal _ bound target proof, h, depth => by
    have hproof := tail_lines depth (line_layouts proof h.2.2 (depth + 1))
    have := tail_distance h.1 ((h.2.1.block depth).append hproof.space)
    simpa [layout] using this.line
  | .symmetry _, _, _ | .giveUp _, _, _ | .trivial _, _, _ | .auto _, _, _ | .bisim _ none, _, _ =>
    (block_keyword _).semi
  | .bisim _ (some clauses), h, depth => by
    have hclauses := tail_lines depth
      (List.forall_mem_map.2 fun c hc => (h clauses rfl c hc).line)
    have := ((block_keyword .bisim_).append hclauses.space).line
    simpa [layout] using this
  | .rewrite _ _, h, _ => by
    have := ((block_keyword .rewrite_).append (joint_space.append (block_ident h))).semi
    simpa [layout] using this
  | .hybrid _ _ start stop, h, _ => by
    refine (block_applied (block_keyword .hybrid_) (block_commas ?_)).semi
    simpa using ⟨block_ident h.1, start.block_layout h.2.1.legible .lowest,
      stop.block_layout h.2.2.legible .lowest⟩
  | .unfold _ _, h, _ => line_named .unfold_ h
  | .inline _ _, h, _ => line_named .inline_ h

theorem Tactic.line_layouts : ∀ ts : List Tactic, Tactic.AsReadAll ts → ∀ depth,
    ∀ l ∈ layouts depth ts, l.Line
  | [], _, _ => by simp [layouts]
  | t :: ts, h, depth => by
    simp only [layouts, List.forall_mem_cons]
    exact ⟨t.line_layout h.1 depth, line_layouts ts h.2 depth⟩

end

/-! ## Items -/

theorem Layout.block_dotted {x : Ident} {xs : List Ident} (h : ∀ y ∈ x :: xs, y.Legible) :
    (dotted (x :: xs)).Block := by
  have hdotted : ∃ m, dotted (x :: xs) = ident x.name ++ m ∧ (m = [] ∨ m.Tail) := by
    induction xs generalizing x with
    | nil => exact ⟨[], by simp [dotted], .inl rfl⟩
    | cons y xs ih =>
      rw [List.forall_mem_cons] at h
      obtain ⟨m, hm, htail⟩ := ih h.2
      have hy := tail_member (h.2 y (.head _))
      refine ⟨sym .dot ++ ident y.name ++ m, by simp [dotted, hm], .inr ?_⟩
      rcases htail with rfl | htail
      · simpa using hy
      · exact hy.append htail
  obtain ⟨m, hm, htail⟩ := hdotted
  have hx := block_ident (h x (.head _))
  rw [hm]
  rcases htail with rfl | htail
  · simpa using hx
  · exact hx.append htail

theorem Function.AsRead.line {f : Function} (h : f.AsRead) : f.layout.Line := by
  obtain ⟨s, x, isPure, isStatic, ps, result, body⟩ := f
  -- modifiers may come before what is a line without them
  have hhead : (word .function_ ++ (space ++ ident x.name ++ formals ps)
      ++ typeAnnotation result).Block :=
    ((block_keyword .function_).append
      ((joint_space.append (block_ident h.name)).append (tail_formals h.params))).annotated result
  have hmodified (k : Keyword) (isThere : Bool) {l : Layout} (hl : l.Block) :
      ((if isThere then word k ++ space else []) ++ l).Block := by
    cases isThere with
    | false => exact hl
    | true =>
      have := (block_keyword k).append (joint_space.append hl)
      simpa using this
  have hblock := hmodified .pure_ isPure (hmodified .static_ isStatic hhead)
  cases body with
  | none =>
    have := hblock.semi
    simpa [layout] using this
  | some body =>
    have hbody : (braces 0 [body.layout 1 .body]).Tail :=
      tail_lines 0 (by simpa using ((h.body body rfl).block 1 .body).line)
    have := (hblock.append hbody.space).line
    simpa [layout] using this

/-- **An item stands on a line.** -/
theorem Item.AsRead.line {i : Item} (h : i.AsRead) : i.layout.Line := by
  cases i with
  | imported i =>
    obtain ⟨s, _ | ⟨x, xs⟩⟩ := i
    · exact absurd rfl h.1
    · have := ((block_keyword .import_).append (joint_space.append (block_dotted h.2))).semi
      simpa [layout] using this
  | constant c =>
    have := (((block_keyword .const_).append (joint_space.append (block_ident h))).annotated
      c.ty).semi
    simpa [layout] using this
  | function f => exact Function.AsRead.line h
  | postulate p =>
    have := ((block_keyword .axiom_).append
      (joint_space.append (p.claim.block_layout h.legible .lowest))).semi
    simpa [layout] using this
  | proved t =>
    have hproof := tail_lines 0 (Tactic.line_layouts t.proof h.proof 1)
    have := (((block_keyword .theorem_).append (joint_space.append h.statement.block)).append
      hproof.space).line
    simpa [layout] using this
  | assumed s =>
    have := ((block_keyword .assume_).append (joint_space.append (Statement.AsRead.block h))).semi
    simpa [layout] using this

/-- **The layout of a development as read is tidy.** -/
theorem Development.AsRead.tidy {d : Development} (h : d.AsRead) : d.layout.Tidy := by
  have hnewline : ∀ (l : Layout) (depth : Nat), ∀ p ∈ (newline depth ++ l).head?,
      ∃ depth, p = .newline depth := by
    rintro l depth p ⟨⟩
    exact ⟨depth, rfl⟩
  fun_induction layout d with
  | case1 => exact tidy_nil
  | case2 i =>
    have hi : i.AsRead := h i (.head _)
    exact hi.line.append (tidy_nil.newline 0) (hnewline [] 0)
  | case3 i j rest ih =>
    rw [Development.AsRead, List.forall_mem_cons] at h
    have := h.1.line.append (((ih h.2).newline 0).newline 0) (hnewline _ 0)
    simpa using this

end GameHop
