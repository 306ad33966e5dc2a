import GameHop.Proofs.Reading.Exprs
import GameHop.Proofs.Reading.Layouts
import GameHop.Proofs.Term.Children

/-!
Holes. The parser reads no holes, but in a text they stand out: only a hole puts a closing bracket
right after an opening one.
-/

namespace GameHop

open GameHop.Parser

/-- The expression with a variable in the place of a hole at its root. -/
def Expr.fillRoot (h : String) : Expr → Expr
  | .hole s => .lookup s (.plain h)
  | e => e

/-- The expression with a variable in the place of each hole outside formulas. -/
def Expr.fill (h : String) (e : Expr) : Expr :=
  e.bottomUp true (fillRoot h)

theorem Expr.fill_eq (h : String) {e : Expr} (he : e.isHole = false) :
    e.fill h = e.withChildren (e.children.map (fill h)) := by
  rw [fill, bottomUp_eq]
  cases e with
  | hole s => cases he
  | _ => rfl

theorem Expr.fill_of_holeFree (h : String) (e : Expr) (he : e.HoleFree) : e.fill h = e := by
  induction e using inductNode with
  | step e ih =>
    obtain ⟨hhole, hchildren⟩ := (e.holeFree_iff).1 he
    rw [fill_eq h hhole, map_eq_self fun c hc => ih c hc (hchildren c hc), withChildren_children]

/-! ## Tokens -/

/-- The tokens with a name in the place of each pair of brackets around nothing. -/
def sealHoles (h : String) : List TokenKind → List TokenKind
  | .sym .lBracket :: .sym .rBracket :: ks => .ident h :: sealHoles h ks
  | k :: ks => k :: sealHoles h ks
  | [] => []

theorem sealHoles_cons {h : String} {k : TokenKind} (hk : k ≠ .sym .lBracket) (ks : List TokenKind) :
    sealHoles h (k :: ks) = k :: sealHoles h ks := by
  rw [sealHoles]
  rintro ks rfl
  exact absurd rfl hk

/-- Whether sealing turns the tokens of the one layout into those of the other, whatever comes after. -/
abbrev SealsTo (h : String) (l m : Layout) : Prop :=
  ∀ rest, sealHoles h (l.kinds ++ rest) = m.kinds ++ sealHoles h rest

attribute [local simp] SealsTo sealHoles_cons

section
variable {h : String} {l m : Layout}

/-- Brackets around something. -/
theorem SealsTo.bracket (hl : SealsTo h l m) (hb : l.Block) (rest : List TokenKind) :
    sealHoles h (.sym .lBracket :: (l.kinds ++ rest)) = .sym .lBracket :: (m.kinds ++ sealHoles h rest) := by
  obtain ⟨p, hp, hopen⟩ := hb.first
  obtain ⟨l, rfl⟩ : ∃ l', l = p :: l' := by cases l <;> simp_all
  cases p with
  | tok k =>
    rw [← hl rest]
    show sealHoles h (_ :: k :: _) = _
    rw [sealHoles]
    · rfl
    · rintro ks - ⟨⟩
      simp [Piece.Opening, opens] at hopen
  | space => exact hopen.elim
  | newline d => exact hopen.elim

theorem SealsTo.parensIf (hl : SealsTo h l m) (needed : Bool) :
    SealsTo h (Layout.parensIf needed l) (Layout.parensIf needed m) := by
  cases needed <;> simp [Layout.parensIf, hl]

theorem SealsTo.place (hl : SealsTo h l m) (position : Position) (prec : ExprPrec) :
    SealsTo h (position.place prec l) (position.place prec m) := by
  cases position with
  | body => exact hl
  | operand least => exact hl.parensIf _

theorem sealsTo_commas {ls ms : List Layout} (hls : List.Forall₂ (SealsTo h) ls ms) :
    SealsTo h (Layout.commas ls) (Layout.commas ms) := by
  induction hls with
  | nil => simp [Layout.commas]
  | @cons a b ls ms hab hls ih =>
    cases hls with
    | nil => exact hab
    | cons hcd hls => simp_all [Layout.commas]

theorem sealsTo_lines (depth : Nat) {ls ms : List Layout} (hls : List.Forall₂ (SealsTo h) ls ms) :
    SealsTo h (ls.map fun l => Layout.newline depth ++ l).flatten
      (ms.map fun l => Layout.newline depth ++ l).flatten := by
  induction hls with
  | nil => simp
  | cons hab _ ih => simp_all

theorem sealsTo_idents (xs : List Ident) : SealsTo h (Layout.idents xs) (Layout.idents xs) := by
  refine sealsTo_commas (List.forall₂_same.2 fun l hl => ?_)
  obtain ⟨x, -, rfl⟩ := List.mem_map.1 hl
  simp

theorem sealsTo_classHints (cs : List Ident) :
    SealsTo h (Layout.classHints cs) (Layout.classHints cs) := by
  cases cs <;> simp [Layout.classHints, sealsTo_idents]

theorem sealsTo_formals (ps : List Param) : SealsTo h (Layout.formals ps) (Layout.formals ps) := by
  have hps : SealsTo h (Layout.commas (ps.map fun p => Layout.ident p.name.name ++ Layout.typeAnnotation p.ty)) _ :=
    sealsTo_commas (List.forall₂_same.2 fun l hl => by
      obtain ⟨p, -, rfl⟩ := List.mem_map.1 hl
      cases p.ty <;> simp [Layout.typeAnnotation])
  simp [Layout.formals, hps]

end

/-! ## Terms -/

theorem BinaryOp.sym_ne (op : BinaryOp) : op.sym ≠ .lBracket := by
  rcases op with op | op | op <;> cases op <;> decide

theorem FormulaOp.sym_ne (op : FormulaOp) : op.sym ≠ .lBracket := by
  rcases op with op | op | op <;> cases op <;> decide

mutual

/-- **The tokens of an expression determine those of the filled expression.** -/
theorem Expr.seals_layout (h : String) (e : Expr) (he : e.Legible) (depth : Nat) (position : Position) :
    SealsTo h (e.layout depth position) ((e.fill h).layout depth position) := by
  cases e
  case hole =>
    intro rest
    show sealHoles h (.sym .lBracket :: .sym .rBracket :: rest) = _
    rw [sealHoles]
    rfl
  all_goals rw [Expr.fill_eq h rfl]
  case new s o =>
    obtain ⟨c, fields, methods⟩ := o
    have hfields := sealsTo_commas (Field.seals_layouts h fields he.2.1 depth)
    have hmethods := sealsTo_lines (depth + 1) (Method.seals_layouts h methods he.2.2 (depth + 1))
    rw [Expr.withChildren_new]
    simp only [Expr.layout, Object.layout, List.isEmpty_map]
    cases c <;> cases methods.isEmpty <;>
      simp [Layout.braces, hfields, hmethods]
  all_goals
    simp only [Expr.Legible] at he
    simp only [Expr.children, Expr.withChildren, List.map_cons, List.map_nil]
  case index s a b =>
    have hb := (Expr.seals_layout h b he.2 depth (.operand .assign)).bracket (b.block_layout he.2 depth _)
    simp [Expr.layout, he, Expr.seals_layout, hb]
  case update s a b c =>
    have hb := (Expr.seals_layout h b he.2.1 depth (.operand .assign)).bracket
      (b.block_layout he.2.1 depth _)
    simp [Expr.layout, he, Expr.seals_layout, hb]
  case call s f args =>
    simp [Expr.layout, sealsTo_commas (Expr.seals_layouts h args he.2 depth)]
  case invoke s t m cs args =>
    simp [Expr.layout, he, Expr.seals_layout, sealsTo_classHints,
      sealsTo_commas (Expr.seals_layouts h args he.2.2.2 depth)]
  case' paren s l a => cases l
  case' unary s op a => cases op
  case' seq s a b => cases position
  all_goals
    simp only [Expr.layout]
    try apply SealsTo.place
    simp [Layout.label, he, Expr.seals_layout, Formula.seals_layout, BinaryOp.sym_ne]

theorem Expr.seals_layouts (h : String) : ∀ es : List Expr, Expr.LegibleList es → ∀ depth,
    List.Forall₂ (SealsTo h) (Expr.layouts depth es) (Expr.layouts depth (es.map (Expr.fill h)))
  | [], _, _ => .nil
  | e :: es, he, depth =>
    .cons (Expr.seals_layout h e he.1 depth _) (Expr.seals_layouts h es he.2 depth)

theorem Field.seals_layouts (h : String) : ∀ fs : List Field, Field.LegibleList fs → ∀ depth,
    List.Forall₂ (SealsTo h) (Field.layouts depth fs)
      (Field.layouts depth (fs.map fun f => { f with value := f.value.fill h }))
  | [], _, _ => .nil
  | ⟨_, _, value⟩ :: fs, hf, depth =>
    .cons (by simp [Expr.seals_layout h value hf.2.1])
      (Field.seals_layouts h fs hf.2.2 depth)

theorem Method.seals_layouts (h : String) : ∀ ms : List Method, Method.LegibleList ms → ∀ depth,
    List.Forall₂ (SealsTo h) (Method.layouts depth ms)
      (Method.layouts depth (ms.map fun m => { m with body := m.body.fill h }))
  | [], _, _ => .nil
  | ⟨_, _, ps, body⟩ :: ms, hm, depth => by
    refine .cons ?_ (Method.seals_layouts h ms hm.2.2.2 depth)
    simp [Method.layout, Layout.braces, Expr.seals_layout h body hm.2.2.1, sealsTo_formals]

theorem Expr.seals_contextLayout (h : String) : ∀ cs : List Expr, Expr.LegibleContexts cs →
    SealsTo h (Expr.contextLayout cs) (Expr.contextLayout cs)
  | [], _ => by simp [Expr.contextLayout]
  | c :: cs, hc => by
    have hfill := Expr.seals_layout h c hc.1 0 (.operand .lowest)
    rw [Expr.fill_of_holeFree h c hc.2.1] at hfill
    simp [Expr.contextLayout, hfill, Expr.seals_contextLayout h cs hc.2.2]

theorem Formula.seals_layout (h : String) (p : Formula) (hp : p.Legible) (least : FormulaPrec) :
    SealsTo h (p.layout least) (p.layout least) := by
  cases p
  case' unary s op p => cases op
  case' objectIs s o c => cases c
  all_goals simp only [Formula.Legible] at hp
  case index s p q =>
    have hq := (Formula.seals_layout h q hp.2 .lowest).bracket (q.block_layout hp.2 _)
    simp [Formula.layout, hp, Formula.seals_layout, hq]
  case update s p q r =>
    have hq := (Formula.seals_layout h q hp.2.1 .lowest).bracket (q.block_layout hp.2.1 _)
    simp [Formula.layout, hp, Formula.seals_layout, hq]
  case call s f args => simp [Formula.layout, sealsTo_commas (Formula.seals_layouts h args hp.2.2)]
  case fieldsEqualExcept => simp [Formula.layout, sealsTo_idents]
  all_goals
    simp only [Formula.layout, FormulaPrec.place]
    try apply SealsTo.parensIf
    simp [Layout.commas, hp, Formula.seals_layout, sealsTo_formals, ObjectTerm.seals_layout,
      HeapTerm.seals_layout, Expr.seals_contextLayout, FormulaOp.sym_ne]

theorem Formula.seals_layouts (h : String) : ∀ ps : List Formula, Formula.LegibleList ps →
    List.Forall₂ (SealsTo h) (Formula.layouts ps) (Formula.layouts ps)
  | [], _ => .nil
  | p :: ps, hp =>
    .cons (Formula.seals_layout h p hp.1 .lowest) (Formula.seals_layouts h ps hp.2)

theorem ObjectTerm.seals_layout (h : String) (o : ObjectTerm) (ho : o.Legible) :
    SealsTo h o.layout o.layout := by
  cases o <;> simp_all [ObjectTerm.layout, ObjectTerm.Legible, Layout.commas, HeapTerm.seals_layout, Formula.seals_layout]

theorem HeapTerm.seals_layout (h : String) (k : HeapTerm) (hk : k.Legible) :
    SealsTo h k.layout k.layout := by
  cases k <;> simp_all [HeapTerm.layout, HeapTerm.Legible, Layout.commas, HeapTerm.seals_layout, Formula.seals_layout]

end

end GameHop
