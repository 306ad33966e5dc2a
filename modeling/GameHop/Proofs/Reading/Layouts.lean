import GameHop.Printer.Term
import GameHop.Proofs.Reading.Input
import GameHop.Proofs.Reading.Lexing

/-!
The layouts of legible terms are tidy. The layout of a term is a block: it begins with a token that
may follow any bracket, blank or negation, and ends with a token that any bracket, blank or
separator may follow.
-/

namespace GameHop

open GameHop.Parser Lexer

namespace Piece

/-- Whether the piece may begin a term. -/
def Opening : Piece → Prop
  | .tok k => opens k = true
  | _ => False

/-- Whether the piece may end a term. -/
def Closing : Piece → Prop
  | .tok (.sym s) => s = .rParen ∨ s = .rBrace ∨ s = .rBracket ∨ s = .ellipsis
  | .tok .eof => False
  | .tok _ => True
  | _ => False

/-- Whether no word goes on with the piece. -/
def Breaks (p : Piece) : Prop :=
  ∀ c ∈ p.text.toList.head?, isIdentRest c = false

theorem breaks_sym (s : Sym) : Breaks (.tok (.sym s)) := by
  have hhead : ∃ d, s.text.toList.head? = some d ∧ isIdentRest d = false := by
    cases s <;> exact ⟨_, rfl, by decide⟩
  obtain ⟨d, hd, hrest⟩ := hhead
  intro c hc
  rwa [← Option.some.inj (hd.symm.trans hc)]

theorem breaks_space : Breaks .space := by
  intro c hc
  obtain rfl : ' ' = c := Option.some.inj hc
  decide

theorem breaks_newline (depth : Nat) : Breaks (.newline depth) := by
  intro c hc
  obtain rfl : '\n' = c := by simpa [text] using hc
  decide

theorem Closing.apart {p q : Piece} (hp : p.Closing) (hq : q.Breaks) : p.Apart q := by
  cases p with
  | tok k =>
    intro c hc
    have hrest := hq c hc
    cases k with
    | sym s => rcases hp with rfl | rfl | rfl | rfl <;> rfl
    | keyword k => simp [TokenKind.endsBefore, hrest]
    | ident x => simp [TokenKind.endsBefore, hrest]
    | int n =>
      simp only [isIdentRest, Bool.or_eq_false_iff] at hrest
      simp [TokenKind.endsBefore, hrest]
    | eof => exact hp.elim
  | space => trivial
  | newline d => trivial

/-- A symbol that no character makes longer. -/
theorem apart_of_fixed {s : Sym} (hs : ∀ c, s.growsWith c = false) (q : Piece) :
    Apart (.tok (.sym s)) q := by
  intro c _
  simp [TokenKind.endsBefore, hs]

theorem Opening.head_ne {q : Piece} (hq : q.Opening) (hv : q.Valid) :
    ∀ c ∈ q.text.toList.head?, c ≠ '=' := by
  cases q with
  | tok k =>
    cases k with
    | sym s =>
      simp only [Opening, opens, Bool.or_eq_true, beq_iff_eq] at hq
      rintro c hc rfl
      rcases hq with ((rfl | rfl) | rfl) | rfl <;> exact absurd hc (by decide)
    | keyword k =>
      rintro c hc rfl
      cases k <;> exact absurd hc (by decide)
    | ident x =>
      rintro c hc rfl
      have hx : isName x = true := hv
      unfold isName at hx
      split at hx
      · exact absurd hx (by simp)
      · rename_i c cs htext
        simp only [text, TokenKind.text, htext, List.head?_cons, Option.mem_some_iff] at hc
        subst hc
        exact absurd hx (by simp [isIdentStart])
    | int n =>
      rintro c hc rfl
      have hdigits : ∀ c ∈ Nat.toDigits 10 n.toNat, c.isDigit = true :=
        fun c hc => Nat.isDigit_of_mem_toDigits (by decide) (by decide) hc
      simp only [text, TokenKind.text, Nat.toString_eq_ofList_toDigits, String.toList_ofList] at hc
      exact absurd (hdigits _ (List.mem_of_mem_head? hc)) (by decide)
    | eof => simp [Opening, opens] at hq
  | space => exact hq.elim
  | newline d => exact hq.elim

end Piece

namespace Layout

/-! ## Blocks -/

theorem Tidy.append {l m : Layout} (hl : l.Tidy) (hm : m.Tidy)
    (h : ∀ p ∈ l.getLast?, ∀ q ∈ m.head?, p.Apart q) : Tidy (l ++ m) := by
  refine ⟨List.isChain_append.2 ⟨hl.chain, hm.chain, h⟩, fun p hp => ?_⟩
  rcases List.mem_append.1 hp with hp | hp
  · exact hl.valid p hp
  · exact hm.valid p hp

theorem tidy_nil : Tidy [] :=
  ⟨.nil, by simp⟩

theorem tidy_singleton {p : Piece} (hp : p.Valid) : Tidy [p] :=
  ⟨.singleton p, by simpa using hp⟩

theorem tidy_sym (s : Sym) : Tidy (sym s) :=
  tidy_singleton trivial

theorem tidy_space : Tidy space :=
  tidy_singleton trivial

/-- Whether a layout begins and ends as a term does. -/
structure Block (l : Layout) : Prop where
  tidy : l.Tidy
  first : ∃ p, l.head? = some p ∧ p.Opening
  last : ∃ p, l.getLast? = some p ∧ p.Closing

/-- Whether a layout may follow a block and ends as one. -/
structure Tail (l : Layout) : Prop where
  tidy : l.Tidy
  first : ∀ p ∈ l.head?, p.Breaks
  last : ∃ p, l.getLast? = some p ∧ p.Closing

/-- Whether a layout may stand between two blocks. -/
structure Joint (l : Layout) : Prop where
  tidy : l.Tidy
  first : ∃ p, l.head? = some p ∧ p.Breaks
  last : ∀ p ∈ l.getLast?, ∀ q : Piece, q.Opening → q.Valid → p.Apart q

theorem Block.append {l m : Layout} (hl : l.Block) (hm : m.Tail) : Block (l ++ m) := by
  obtain ⟨p, hp, hopen⟩ := hl.first
  obtain ⟨q, hq, hclose⟩ := hl.last
  obtain ⟨r, hr, hclose'⟩ := hm.last
  refine ⟨hl.tidy.append hm.tidy ?_, ⟨p, by simp [hp], hopen⟩, ⟨r, by simp [hr], hclose'⟩⟩
  intro a ha b hb
  obtain rfl : q = a := by simpa [hq] using ha
  exact hclose.apart (hm.first b hb)

theorem Joint.append {l m : Layout} (hl : l.Joint) (hm : m.Block) : Tail (l ++ m) := by
  obtain ⟨p, hp, hbreaks⟩ := hl.first
  obtain ⟨q, hq, hopen⟩ := hm.first
  obtain ⟨r, hr, hclose⟩ := hm.last
  refine ⟨hl.tidy.append hm.tidy ?_, ?_, ⟨r, by simp [hr], hclose⟩⟩
  · intro a ha b hb
    have hv := hm.tidy.valid b (List.mem_of_mem_head? hb)
    obtain rfl : q = b := by simpa [hq] using hb
    exact hl.last a ha q hopen hv
  · intro a ha
    obtain rfl : p = a := by simpa [hp] using ha
    exact hbreaks

theorem Tail.append {l m : Layout} (hl : l.Tail) (hm : m.Tail) : Tail (l ++ m) := by
  obtain ⟨q, hq, hclose⟩ := hl.last
  obtain ⟨r, hr, hclose'⟩ := hm.last
  obtain ⟨p, hp⟩ : ∃ p, l.head? = some p := by cases l <;> simp_all
  refine ⟨hl.tidy.append hm.tidy ?_, ?_, ⟨r, by simp [hr], hclose'⟩⟩
  · intro a ha b hb
    obtain rfl : q = a := by simpa [hq] using ha
    exact hclose.apart (hm.first b hb)
  · intro a ha
    exact hl.first a (by simpa [hp] using ha)

theorem Block.tail {l : Layout} (hl : l.Block) (hfirst : ∀ p ∈ l.head?, p.Breaks) : Tail l :=
  ⟨hl.tidy, hfirst, hl.last⟩

/-! ## Joints -/

theorem joint_sym {s : Sym} (hs : ∀ c, c ≠ '=' → s.growsWith c = false) : Joint (sym s) := by
  refine ⟨tidy_singleton trivial, ⟨_, rfl, Piece.breaks_sym s⟩, ?_⟩
  rintro p ⟨⟩ q hopen hv c hc
  simp [TokenKind.endsBefore, hs c (hopen.head_ne hv c hc)]

theorem joint_space : Joint space :=
  ⟨tidy_singleton trivial, ⟨_, rfl, Piece.breaks_space⟩, by rintro p ⟨⟩ q _ _; trivial⟩

theorem joint_newline (depth : Nat) : Joint (newline depth) :=
  ⟨tidy_singleton trivial, ⟨_, rfl, Piece.breaks_newline depth⟩, by rintro p ⟨⟩ q _ _; trivial⟩

theorem apart_blank {s : Sym} {l : Layout} (hl : l = space ∨ ∃ depth, l = newline depth) :
    ∀ q ∈ l.head?, Piece.Apart (.tok (.sym s)) q := by
  rcases hl with rfl | ⟨depth, rfl⟩
  · rintro q ⟨⟩ c hc
    obtain rfl : ' ' = c := by simpa [Piece.text] using hc
    cases s <;> rfl
  · rintro q ⟨⟩ c hc
    obtain rfl : '\n' = c := by simpa [Piece.text] using hc
    cases s <;> rfl

/-- A symbol and a blank. -/
theorem joint_sym_blank (s : Sym) {l : Layout} (hl : l = space ∨ ∃ depth, l = newline depth) :
    Joint (sym s ++ l) := by
  have hj : Joint l := by
    rcases hl with rfl | ⟨depth, rfl⟩
    · exact joint_space
    · exact joint_newline depth
  obtain ⟨r, hr, -⟩ := hj.first
  obtain ⟨r', hr'⟩ : ∃ p, l.getLast? = some p := by cases l <;> simp_all [List.getLast?_cons]
  refine ⟨(tidy_sym s).append hj.tidy ?_, ⟨_, rfl, Piece.breaks_sym s⟩, ?_⟩
  · rintro p ⟨⟩ q hq
    exact apart_blank hl q hq
  · intro p hp
    rw [List.getLast?_append, hr'] at hp
    exact hj.last p (hr'.trans hp)

/-- An operator between blanks. -/
theorem joint_operator (s : Sym) : Joint (space ++ (sym s ++ space)) := by
  have hj := joint_sym_blank s (.inl rfl)
  refine ⟨tidy_space.append hj.tidy (by rintro p ⟨⟩ q _; trivial),
    ⟨_, rfl, Piece.breaks_space⟩, ?_⟩
  intro p hp
  exact hj.last p (by simpa [sym, space] using hp)

/-! ## Tails -/

theorem tail_sym {s : Sym} (hs : Piece.Closing (.tok (.sym s))) : Tail (sym s) :=
  ⟨tidy_singleton trivial, by rintro p ⟨⟩; exact Piece.breaks_sym s, ⟨_, rfl, hs⟩⟩

theorem Tail.cons {p : Piece} {l : Layout} (hl : l.Tail) (hv : p.Valid) (hb : p.Breaks)
    (ha : ∀ q ∈ l.head?, p.Apart q) : Tail ([p] ++ l) := by
  obtain ⟨r, hr, hclose⟩ := hl.last
  refine ⟨(tidy_singleton hv).append hl.tidy ?_, ?_, ⟨r, by rw [List.getLast?_append, hr]; rfl, hclose⟩⟩
  · rintro a ⟨⟩ q hq
    exact ha q hq
  · rintro a ⟨⟩
    exact hb

theorem Tail.space {l : Layout} (hl : l.Tail) : Tail (space ++ l) :=
  hl.cons trivial Piece.breaks_space fun _ _ => trivial

/-- `.m` -/
theorem tail_member {x : String} (hx : isName x = true) : Tail (sym .dot ++ ident x) := by
  have hhead : ∀ c ∈ x.toList.head?, c ≠ '.' := by
    rintro c hc rfl
    unfold isName at hx
    split at hx
    · exact absurd hx (by simp)
    · rename_i c cs htext
      simp only [htext, List.head?_cons, Option.mem_some_iff] at hc
      subst hc
      exact absurd hx (by simp [isIdentStart])
  have hident : Tidy (ident x) := tidy_singleton hx
  refine ⟨(tidy_sym .dot).append hident ?_, ?_, ⟨_, rfl, trivial⟩⟩
  · rintro p ⟨⟩ q ⟨⟩ c hc
    have := hhead c hc
    simp [TokenKind.endsBefore, Sym.growsWith, this]
  · rintro p ⟨⟩
    exact Piece.breaks_sym .dot

/-! ## Words, brackets and lists -/

theorem block_word {k : TokenKind} (hv : k.Valid) (ho : opens k = true)
    (hc : Piece.Closing (.tok k)) : Block [.tok k] :=
  ⟨tidy_singleton hv, ⟨_, rfl, ho⟩, ⟨_, rfl, hc⟩⟩

theorem block_ident {x : String} (hx : isName x = true) : Block (ident x) :=
  block_word hx rfl trivial

theorem block_keyword (k : Keyword) : Block (word k) :=
  block_word trivial rfl trivial

/-- Something or nothing between brackets. -/
theorem block_brackets {l : Layout} {o c : Sym} (ho : opens (.sym o) = true)
    (hfix : ∀ d, o.growsWith d = false) (hc : Piece.Closing (.tok (.sym c)))
    (hl : l = [] ∨ l.Block) : Block (sym o ++ l ++ sym c) := by
  rcases hl with rfl | hl
  · refine ⟨?_, ⟨_, rfl, ho⟩, ⟨_, rfl, hc⟩⟩
    refine (tidy_sym o).append (tidy_sym c) ?_
    rintro p ⟨⟩ q _
    exact Piece.apart_of_fixed hfix q
  · have ht := ((joint_sym fun d _ => hfix d).append hl).append (tail_sym hc)
    exact ⟨ht.tidy, ⟨_, rfl, ho⟩, ht.last⟩

theorem block_parens {l : Layout} (hl : l = [] ∨ l.Block) : Block (parens l) :=
  block_brackets rfl (fun _ => rfl) (.inl rfl) hl

theorem tail_parens {l : Layout} (hl : l = [] ∨ l.Block) : Tail (parens l) :=
  (block_parens hl).tail (by rintro p ⟨⟩; exact Piece.breaks_sym .lParen)

theorem Block.parensIf {l : Layout} (hl : l.Block) (needed : Bool) : Block (parensIf needed l) := by
  unfold Layout.parensIf
  split
  · exact block_parens (.inr hl)
  · exact hl

theorem Block.infixed {l m : Layout} (hl : l.Block) (s : Sym) (hm : m.Block) :
    Block (infixed l s m) := by
  have := hl.append ((joint_operator s).append hm)
  simpa [Layout.infixed] using this

theorem block_commas_cons {l : Layout} (hl : l.Block) : ∀ {ls : List Layout},
    (∀ m ∈ ls, m.Block) → Block (commas (l :: ls))
  | [], _ => hl
  | m :: ls, h => by
    rw [List.forall_mem_cons] at h
    have := hl.append ((joint_sym_blank .comma (.inl rfl)).append (block_commas_cons h.1 h.2))
    simpa [commas] using this

theorem block_commas {ls : List Layout} (h : ∀ l ∈ ls, l.Block) :
    commas ls = [] ∨ Block (commas ls) := by
  cases ls with
  | nil => exact .inl rfl
  | cons l ls =>
    rw [List.forall_mem_cons] at h
    exact .inr (block_commas_cons h.1 h.2)

/-- Whether a layout may stand on a line of its own. -/
structure Line (l : Layout) : Prop where
  tidy : l.Tidy
  last : ∀ p ∈ l.getLast?, ∀ depth, p.Apart (.newline depth)

theorem line_of_closing {l : Layout} (ht : l.Tidy)
    (hlast : ∃ p, l.getLast? = some p ∧ p.Closing) : Line l := by
  obtain ⟨r, hr, hclose⟩ := hlast
  refine ⟨ht, fun p hp depth => ?_⟩
  obtain rfl : r = p := by simpa [hr] using hp
  exact hclose.apart (Piece.breaks_newline depth)

theorem Tail.line {l : Layout} (hl : l.Tail) : Line l :=
  line_of_closing hl.tidy hl.last

theorem Block.line {l : Layout} (hl : l.Block) : Line l :=
  line_of_closing hl.tidy hl.last

/-- `l;` -/
theorem Block.semi {l : Layout} (hl : l.Block) : Line (l ++ sym .semi) := by
  obtain ⟨r, hr, hclose⟩ := hl.last
  refine ⟨hl.tidy.append (tidy_sym .semi) ?_, fun p hp depth => ?_⟩
  · rintro p hp q ⟨⟩
    obtain rfl : r = p := by simpa [hr] using hp
    exact hclose.apart (Piece.breaks_sym .semi)
  · obtain rfl : .tok (.sym .semi) = p := by simpa [sym] using hp
    exact Piece.apart_of_fixed (fun _ => rfl) _

/-- A line and the lines after it. -/
theorem Line.append {l m : Layout} (hl : l.Line) (hm : m.Tidy)
    (hfirst : ∀ p ∈ m.head?, ∃ depth, p = .newline depth) : Tidy (l ++ m) := by
  refine hl.tidy.append hm fun p hp q hq => ?_
  obtain ⟨depth, rfl⟩ := hfirst q hq
  exact hl.last p hp depth

theorem Tidy.newline {l : Layout} (hl : l.Tidy) (depth : Nat) : Tidy (newline depth ++ l) :=
  (joint_newline depth).tidy.append hl (by rintro p ⟨⟩ q _; trivial)

/-- Lines between braces. -/
theorem tail_lines (depth : Nat) {lines : List Layout} (h : ∀ l ∈ lines, l.Line) :
    Tail (braces depth lines) := by
  have hend : Tail (newline depth ++ sym .rBrace) :=
    (tail_sym (.inr (.inl rfl))).cons trivial (Piece.breaks_newline depth) fun _ _ => trivial
  -- what follows a line begins with a line end, be it that of the next line or of the brace
  have hlines : ∃ m, Tail m ∧ (∀ p ∈ m.head?, ∃ depth, p = .newline depth) ∧
      m = (lines.map fun l => newline (depth + 1) ++ l).flatten ++
        (newline depth ++ sym .rBrace) := by
    induction lines with
    | nil => exact ⟨_, hend, by rintro p ⟨⟩; exact ⟨depth, rfl⟩, rfl⟩
    | cons l lines ih =>
      rw [List.forall_mem_cons] at h
      obtain ⟨m, hm, hfirst, rfl⟩ := ih h.2
      obtain ⟨r, hr, hclose⟩ := hm.last
      refine ⟨_, ⟨(h.1.append hm.tidy hfirst).newline (depth + 1), ?_, ⟨r, ?_, hclose⟩⟩, ?_, ?_⟩
      · rintro p ⟨⟩
        exact Piece.breaks_newline (depth + 1)
      · rw [List.getLast?_append, List.getLast?_append, hr]
        rfl
      · rintro p ⟨⟩
        exact ⟨depth + 1, rfl⟩
      · simp
  obtain ⟨m, hm, -, rfl⟩ := hlines
  have := hm.cons (p := .tok (.sym .lBrace)) trivial (Piece.breaks_sym _)
    fun q _ => Piece.apart_of_fixed (fun _ => rfl) q
  simpa [braces, sym] using this

theorem tail_braces (depth : Nat) {lines : List Layout} (h : ∀ l ∈ lines, l.Block) :
    Tail (braces depth lines) :=
  tail_lines depth fun l hl => (h l hl).line

theorem tail_noLines : Tail (sym .lBrace ++ sym .rBrace) :=
  (tail_sym (.inr (.inl rfl))).cons (p := .tok (.sym .lBrace)) trivial (Piece.breaks_sym _)
    fun q _ => Piece.apart_of_fixed (fun _ => rfl) q

theorem block_idents_cons {x : Ident} {xs : List Ident} (h : ∀ y ∈ x :: xs, y.Legible) :
    Block (idents (x :: xs)) := by
  rw [List.forall_mem_cons] at h
  refine block_commas_cons (block_ident h.1) fun l hl => ?_
  obtain ⟨y, hy, rfl⟩ := List.mem_map.1 hl
  exact block_ident (h.2 y hy)

theorem block_idents {xs : List Ident} (h : ∀ x ∈ xs, x.Legible) :
    idents xs = [] ∨ Block (idents xs) := by
  cases xs with
  | nil => exact .inl rfl
  | cons x xs => exact .inr (block_idents_cons h)

theorem Block.annotated {l : Layout} (hl : l.Block) (ty : Option Ty) :
    Block (l ++ typeAnnotation ty) := by
  cases ty with
  | none => simpa [ typeAnnotation] using hl
  | some ty =>
    have hty : isName ty.keyword = true := by cases ty <;> decide
    have := hl.append ((joint_sym_blank .colon (.inl rfl)).append (block_ident hty))
    simpa [ typeAnnotation] using this

theorem tail_formals {ps : List Param} (h : ∀ p ∈ ps, p.name.Legible) : Tail (formals ps) := by
  refine tail_parens (block_commas fun l hl => ?_)
  obtain ⟨p, hp, rfl⟩ := List.mem_map.1 hl
  exact (block_ident (h p hp)).annotated p.ty

end Layout

/-! ## Terms -/

open Layout

theorem Position.block_place {l : Layout} (h : l.Block) (position : Position) (prec : ExprPrec) :
    (position.place prec l).Block := by
  cases position with
  | body => exact h
  | operand least => exact h.parensIf _

theorem FormulaPrec.block_place {l : Layout} (h : l.Block) (least prec : FormulaPrec) :
    (least.place prec l).Block :=
  h.parensIf _

/-- A word and something or nothing in parentheses. -/
theorem Layout.block_applied {k : TokenKind} {l : Layout} (hk : Block [.tok k])
    (hl : l = [] ∨ l.Block) : Block ([.tok k] ++ parens l) :=
  hk.append (tail_parens hl)

theorem Layout.tail_classHints {cs : List Ident} {l : Layout} (hcs : ∀ c ∈ cs, c.Legible)
    (hl : l = [] ∨ l.Block) : Tail (classHints cs ++ parens l) := by
  cases cs with
  | nil => exact tail_parens hl
  | cons c cs =>
    have hlt : Joint (sym .lt) := joint_sym (by simp [Sym.growsWith])
    have hgt : Joint (sym .gt) := joint_sym (by simp [Sym.growsWith])
    have hnames : Block (idents (c :: cs)) := block_idents_cons hcs
    have := (hlt.append hnames).append (hgt.append (block_parens hl))
    simpa [classHints] using this

theorem Layout.tail_brackets {l : Layout} (hl : l.Block) :
    Tail (sym .lBracket ++ (l ++ sym .rBracket)) := by
  have hopen : Joint (sym .lBracket) := joint_sym fun _ _ => rfl
  have := (hopen.append hl).append (tail_sym (.inr (.inr (.inl rfl))))
  simpa using this

mutual

/-- **The layout of a legible expression is a block.** -/
theorem Expr.block_layout : ∀ (e : Expr), e.Legible → ∀ depth position,
    (e.layout depth position).Block
  | .int _ _, _, _, _ => block_word trivial rfl trivial
  | .bool _ _, _, _, _ => block_keyword _
  | .lookup _ _, h, _, _ => block_ident h
  | .paren _ l e, h, depth, _ => by
    have he := e.block_layout h.2 depth (.operand .lowest)
    cases l with
    | none => exact block_parens (.inr he)
    | some l =>
      have hat : Joint (sym .at_) := joint_sym fun _ _ => rfl
      have := (block_ident (h.1 l rfl)).append (hat.append (block_parens (.inr he)))
      simpa [Expr.layout, label] using this
  | .seq _ a b, h, depth, position => by
    have ha := a.block_layout h.1 depth (.operand .assign)
    cases position with
    | body =>
      have hj := joint_sym_blank .semi (.inr ⟨depth, rfl⟩)
      have := ha.append (hj.append (b.block_layout h.2 depth .body))
      simpa [Expr.layout] using this
    | operand least =>
      have hj := joint_sym_blank .semi (.inl rfl)
      have := ha.append (hj.append (b.block_layout h.2 depth (.operand .lowest)))
      exact Position.block_place (by simpa using this) (.operand least) .lowest
  | .assign _ _ e, h, depth, position =>
    Position.block_place ((block_ident h.1).infixed .eq (e.block_layout h.2 depth _)) position _
  | .ternary _ a b c, h, depth, position => by
    have ha := a.block_layout h.1 depth (.operand .or)
    have hb := b.block_layout h.2.1 depth (.operand .assign)
    have hc := c.block_layout h.2.2 depth (.operand .assign)
    have := (ha.append ((joint_operator .question).append hb)).append ((joint_operator .colon).append hc)
    exact Position.block_place (by simpa using this) position _
  | .unary _ .not e, h, depth, position => by
    have hbang : Joint (sym .bang) := joint_sym (by simp [Sym.growsWith])
    have he := hbang.append (e.block_layout h depth (.operand .not))
    exact Position.block_place ⟨he.tidy, ⟨_, rfl, rfl⟩, he.last⟩ position _
  | .unary _ .ref e, h, depth, _ =>
    block_applied (block_keyword .ref_) (.inr (e.block_layout h depth _))
  | .unary _ .tobits e, h, depth, _ =>
    block_applied (block_keyword .tobits_) (.inr (e.block_layout h depth _))
  | .binary _ op a b, h, depth, position =>
    Position.block_place ((a.block_layout h.2.1 depth _).infixed op.sym
      (b.block_layout h.2.2 depth _)) position _
  | .call _ _ args, h, depth, _ =>
    block_applied (block_ident h.1) (block_commas (Expr.block_layouts args h.2 depth))
  | .invoke _ t _ _ args, h, depth, _ => by
    have ht := t.block_layout h.2.2.1 depth (.operand .suffix)
    have htail := tail_classHints h.2.1 (block_commas (Expr.block_layouts args h.2.2.2 depth))
    have := ht.append ((tail_member h.1).append htail)
    simpa [Expr.layout] using this
  | .new _ o, h, depth, _ => o.block_layout h depth
  | .index _ a b, h, depth, _ => by
    have := (a.block_layout h.1 depth (.operand .suffix)).append
      (tail_brackets (b.block_layout h.2 depth (.operand .assign)))
    simpa [Expr.layout] using this
  | .update _ a b c, h, depth, _ => by
    have := (a.block_layout h.1 depth (.operand .suffix)).append
      (tail_brackets ((b.block_layout h.2.1 depth (.operand .assign)).infixed .colonEq
        (c.block_layout h.2.2 depth (.operand .assign))))
    simpa [Expr.layout] using this
  | .assert _ p, h, _, _ =>
    block_applied (block_keyword .assert_) (.inr (p.block_layout h .lowest))
  | .assume _ p, h, _, _ =>
    block_applied (block_keyword .admit_) (.inr (p.block_layout h .lowest))
  | .ellipsis _, _, _, _ => block_word trivial rfl (.inr (.inr (.inr rfl)))
  | .hole _, _, _, _ =>
    block_brackets (l := []) rfl (fun _ => rfl) (.inr (.inr (.inl rfl))) (.inl rfl)

theorem Expr.block_layouts : ∀ es : List Expr, Expr.LegibleList es → ∀ depth,
    ∀ l ∈ Expr.layouts depth es, l.Block
  | [], _, _ => by simp [Expr.layouts]
  | e :: es, h, depth => by
    simp only [Expr.layouts, List.forall_mem_cons]
    exact ⟨e.block_layout h.1 depth _, Expr.block_layouts es h.2 depth⟩

theorem Object.block_layout : ∀ o : Object, o.Legible → ∀ depth, (o.layout depth).Block
  | ⟨c, fields, methods⟩, h, depth => by
    have hfields := block_commas (Field.block_layouts fields h.2.1 depth)
    have hmethods : Tail (if methods.isEmpty then Layout.sym .lBrace ++ Layout.sym .rBrace
        else braces depth (Method.layouts (depth + 1) methods)) := by
      split
      · exact tail_noLines
      · exact tail_braces depth (Method.block_layouts methods h.2.2 (depth + 1))
    cases c with
    | none =>
      have hhead := joint_space.append (block_parens hfields)
      have := (block_keyword .new_).append (hhead.append hmethods.space)
      simpa [Object.layout] using this
    | some c =>
      have hhead := joint_space.append ((block_ident (h.1 c rfl)).append (tail_parens hfields))
      have := (block_keyword .new_).append (hhead.append hmethods.space)
      simpa [Object.layout] using this

theorem Field.block_layouts : ∀ fs : List Field, Field.LegibleList fs → ∀ depth,
    ∀ l ∈ Field.layouts depth fs, l.Block
  | [], _, _ => by simp [Field.layouts]
  | ⟨_, _, value⟩ :: fs, h, depth => by
    simp only [Field.layouts, List.forall_mem_cons]
    exact ⟨(block_ident h.1).infixed .eq (value.block_layout h.2.1 depth _),
      Field.block_layouts fs h.2.2 depth⟩

theorem Method.block_layouts : ∀ ms : List Method, Method.LegibleList ms → ∀ depth,
    ∀ l ∈ Method.layouts depth ms, l.Block
  | [], _, _ => by simp [Method.layouts]
  | ⟨_, m, ps, body⟩ :: ms, h, depth => by
    simp only [Method.layouts, List.forall_mem_cons]
    refine ⟨?_, Method.block_layouts ms h.2.2.2 depth⟩
    have hbody : Tail (braces depth [body.layout (depth + 1) .body]) :=
      tail_braces depth (by simpa using body.block_layout h.2.2.1 (depth + 1) .body)
    have hname := joint_space.append (block_ident h.1)
    have := (block_keyword .method_).append
      ((hname.append (tail_formals h.2.1)).append hbody.space)
    simpa [Method.layout] using this

theorem Expr.tail_contextLayout : ∀ cs : List Expr, Expr.LegibleContexts cs →
    Expr.contextLayout cs = [] ∨ Tail (Expr.contextLayout cs)
  | [], _ => .inl rfl
  | c :: cs, h => by
    right
    have hc := (tail_parens (.inr (c.block_layout h.1 0 (.operand .lowest)))).space
    rcases Expr.tail_contextLayout cs h.2.2 with hnil | htail
    · simpa [Expr.contextLayout, hnil] using hc
    · simpa [Expr.contextLayout] using hc.append htail

/-- **The layout of a legible formula is a block.** -/
theorem Formula.block_layout : ∀ p : Formula, p.Legible → ∀ least, (p.layout least).Block
  | .int _ _, _, _ => block_word trivial rfl trivial
  | .bool _ _, _, _ => block_keyword _
  | .lookup _ _, h, _ => block_ident h.1
  | .paren _ p, h, _ => block_parens (.inr (p.block_layout h .lowest))
  | .quant _ q ps p, h, least => by
    have hps := (tail_formals h.1).space
    have hp := (joint_sym_blank .dot (.inl rfl)).append (p.block_layout h.2 .lowest)
    cases q with
    | all =>
      have := (block_keyword .forall_).append (hps.append hp)
      exact FormulaPrec.block_place (by simpa using this) least _
    | some =>
      have := (block_keyword .exists_).append (hps.append hp)
      exact FormulaPrec.block_place (by simpa using this) least _
  | .unary _ .not p, h, least => by
    have hbang : Joint (sym .bang) := joint_sym (by simp [Sym.growsWith])
    have hp := hbang.append (p.block_layout h .not)
    exact FormulaPrec.block_place ⟨hp.tidy, ⟨_, rfl, rfl⟩, hp.last⟩ least _
  | .unary _ .tobits p, h, _ =>
    block_applied (block_keyword .tobits_) (.inr (p.block_layout h .lowest))
  | .unary _ .isBits p, h, _ =>
    block_applied (block_keyword .isbits_) (.inr (p.block_layout h .lowest))
  | .binary _ op p q, h, least =>
    FormulaPrec.block_place ((p.block_layout h.1 _).infixed op.sym
      (q.block_layout h.2 _)) least _
  | .call _ _ args, h, _ =>
    block_applied (block_ident h.1) (block_commas (Formula.block_layouts args h.2.2))
  | .index _ p q, h, _ => by
    have := (p.block_layout h.1 .suffix).append
      (tail_brackets (q.block_layout h.2 .lowest))
    simpa [Formula.layout] using this
  | .update _ p q r, h, _ => by
    have := (p.block_layout h.1 .suffix).append
      (tail_brackets ((q.block_layout h.2.1 .lowest).infixed .colonEq
        (r.block_layout h.2.2 .lowest)))
    simpa [Formula.layout] using this
  | .env _ cs, h, _ => by
    rcases Expr.tail_contextLayout cs h with hnil | htail
    · simpa [Formula.layout, hnil] using block_keyword .env_
    · exact (block_keyword .env_).append htail
  | .sameObject _ a b, h, _ => by
    refine block_applied (block_ident (by decide)) (block_commas ?_)
    simpa using ⟨a.block_layout h.1, b.block_layout h.2⟩
  | .independence _ k p q, h, _ => by
    refine block_applied (block_keyword .independence_) (block_commas ?_)
    simpa using ⟨k.block_layout h.1, p.block_layout h.2.1 .lowest,
      q.block_layout h.2.2 .lowest⟩
  | .objectIs _ o (.named c), h, _ => by
    have := ((o.block_layout h.1).append (joint_space.append (block_keyword .is_))).append
      (joint_space.append (block_ident h.2.1))
    simpa [Formula.layout] using this
  | .objectIs _ o .invalid, h, _ => by
    have hname : Block (ident "invalid") := block_ident (by decide)
    have := ((o.block_layout h).append (joint_space.append (block_keyword .is_))).append
      (joint_space.append hname)
    simpa [Formula.layout] using this
  | .field _ o _, h, _ => by
    have := (o.block_layout h.1).append (tail_member h.2)
    simpa [Formula.layout] using this
  | .frameAll _, _, _ => block_keyword .frame_
  | .frame _ p q, h, _ => by
    refine block_applied (block_keyword .frame_) (block_commas ?_)
    simpa using ⟨p.block_layout h.1 .lowest, q.block_layout h.2 .lowest⟩
  | .frameHeap _ k l p q, h, _ => by
    refine block_applied (block_keyword .frameHeap_) (block_commas ?_)
    simpa using ⟨k.block_layout h.1, l.block_layout h.2.1,
      p.block_layout h.2.2.1 .lowest, q.block_layout h.2.2.2 .lowest⟩
  | .fieldsEqual _, _, _ => block_keyword .fieldsEqual_
  | .fieldsEqualExcept _ _, h, _ =>
    block_applied (block_keyword .fieldsEqualExcept_) (block_idents h)

theorem Formula.block_layouts : ∀ ps : List Formula, Formula.LegibleList ps →
    ∀ l ∈ Formula.layouts ps, l.Block
  | [], _ => by simp [Formula.layouts]
  | p :: ps, h => by
    simp only [Formula.layouts, List.forall_mem_cons]
    exact ⟨p.block_layout h.1 .lowest, Formula.block_layouts ps h.2⟩

theorem ObjectTerm.block_layout : ∀ o : ObjectTerm, o.Legible → o.layout.Block
  | .side s, _ => block_ident (by cases s <;> decide)
  | .inHeap k p, h => by
    refine block_applied (block_ident (by decide)) (block_commas ?_)
    simpa using ⟨k.block_layout h.1, p.block_layout h.2 .lowest⟩

theorem HeapTerm.block_layout : ∀ k : HeapTerm, k.Legible → k.layout.Block
  | .side s, _ =>
    block_applied (block_ident (by decide)) (.inr (block_ident (by cases s <;> decide)))
  | .inHeap k p, h => by
    refine block_applied (block_ident (by decide)) (block_commas ?_)
    simpa using ⟨k.block_layout h.1, p.block_layout h.2 .lowest⟩

end

/-! ## Bounds -/

mutual

theorem Bound.layout_bare : ∀ (b : Bound) (least : BoundPrec), b.bare.layout least = b.layout least
  | .int _ _, _ | .lookup _ _, _ => rfl
  | .paren _ b, _ => by simp [bare, layout, b.layout_bare]
  | .call _ _ args, _ => by simp [bare, layout, layouts_bare args]
  | .env _ cs, _ => by simp [bare, layout, Expr.contextLayout_bare cs]
  | .binary _ _ a b, _ => by
    simp [bare, layout, a.layout_bare, b.layout_bare]

theorem Bound.layouts_bare : ∀ bs : List Bound,
    layouts (bareList bs) = layouts bs
  | [] => rfl
  | b :: bs => by simp [bareList, layouts, b.layout_bare, layouts_bare bs]

end

mutual

/-- **The layout of a legible bound is a block.** -/
theorem Bound.block_layout : ∀ b : Bound, b.Legible → ∀ least, (b.layout least).Block
  | .int _ _, _, _ => Layout.block_word trivial rfl trivial
  | .lookup _ _, h, _ => Layout.block_ident h
  | .paren _ b, h, _ => Layout.block_parens (.inr (b.block_layout h .lowest))
  | .call _ _ args, h, _ =>
    Layout.block_applied (Layout.block_ident h.1)
      (Layout.block_commas (block_layouts args h.2))
  | .env _ cs, h, _ => by
    rcases Expr.tail_contextLayout cs h with hnil | htail
    · simpa [layout, hnil] using Layout.block_keyword .env_
    · exact (Layout.block_keyword .env_).append htail
  | .binary _ op a b, h, _ =>
    ((a.block_layout h.1 _).infixed op.sym (b.block_layout h.2 _)).parensIf _

theorem Bound.block_layouts : ∀ bs : List Bound, Bound.LegibleList bs →
    ∀ l ∈ layouts bs, l.Block
  | [], _ => by simp [layouts]
  | b :: bs, h => by
    simp only [layouts, List.forall_mem_cons]
    exact ⟨b.block_layout h.1 .lowest, block_layouts bs h.2⟩

end

end GameHop
