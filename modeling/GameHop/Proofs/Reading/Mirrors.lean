import GameHop.Proofs.Reading.Input
import GameHop.Proofs.Reading.Outlines
import GameHop.Proofs.Reading.Spelling

/-!
What parsers do, whatever the tokens. A parser is run three times: with the parsers of a level below it, with those
of another level, and on tokens without places (`Mirrors`). The first two runs are the same. The third one fails
too, or gives the same without places and stops before the same token. What is read has its parts where the text
has them (`Spread`).
-/

namespace GameHop

open Outline

/-- The kinds of the tokens to come. -/
def Input.kinds (i : Input) : List TokenKind :=
  i.rest.map (·.kind)

/-- Whether the name in a token, if there is one, is an identifier for the lexer. -/
def TokenKind.Legible (k : TokenKind) : Prop :=
  ∀ x, k = .ident x → Lexer.isName x = true

/-- The token without its place. -/
def Token.bare (t : Token) : Token :=
  ⟨t.kind, .nowhere⟩

/-- Whether tokens are those of a text. -/
structure Scanned (text : String) (ts : List Token) : Prop where
  fits : ∀ t ∈ ts, t.span.Fits text
  order : ts.Pairwise fun t u => t.span.stop ≤ u.span.offset
  legible : ∀ t ∈ ts, t.kind.Legible
  symbol : ∀ t ∈ ts, ∀ y, t.kind = .sym y → t.span.len = y.text.utf8ByteSize

/-- Whether a phrase may start where the span does: tokens from there on end no earlier than the span. -/
structure Span.Opens (text : String) (ts : List Token) (a : Span) : Prop where
  fits : a.Fits text
  stop_le : ∀ t ∈ ts, 0 < t.span.len → a.offset ≤ t.span.offset → a.stop ≤ t.span.stop

theorem Scanned.sublist {text : String} {ts us : List Token} (h : Scanned text ts) (hs : us.Sublist ts) : Scanned text us :=
  ⟨fun t ht => h.fits t (hs.subset ht), h.order.sublist hs, fun t ht => h.legible t (hs.subset ht),
    fun t ht => h.symbol t (hs.subset ht)⟩

theorem Scanned.opens {text : String} {ts : List Token} (h : Scanned text ts) {t : Token} (ht : t ∈ ts) :
    t.span.Opens text ts := by
  refine ⟨h.fits t ht, fun u hu hlen hle => ?_⟩
  obtain ⟨i, hi, rfl⟩ := List.getElem_of_mem ht
  obtain ⟨j, hj, rfl⟩ := List.getElem_of_mem hu
  have horder := List.pairwise_iff_getElem.1 h.order
  rcases Nat.lt_trichotomy i j with hij | rfl | hij
  · exact Nat.le_trans (horder i j hi hj hij) (Nat.le_add_right ..)
  · exact Nat.le_refl _
  · have := horder j i hj hi hij
    simp only [Span.stop] at this
    omega

/-! ## Places in order -/

/-- Whether a span neither starts nor ends after another. -/
structure Span.Upto (a b : Span) : Prop where
  start : a.offset ≤ b.offset
  stop : a.stop ≤ b.stop

theorem Span.Upto.refl (a : Span) : a.Upto a :=
  ⟨Nat.le_refl _, Nat.le_refl _⟩

theorem Span.Upto.trans {a b c : Span} (h : a.Upto b) (h' : b.Upto c) : a.Upto c :=
  ⟨Nat.le_trans h.start h'.start, Nat.le_trans h.stop h'.stop⟩

theorem Span.upto_of_stop_le {a b : Span} (h : a.stop ≤ b.offset) : a.Upto b :=
  ⟨Nat.le_trans (Nat.le_add_right ..) h, Nat.le_trans h (Nat.le_add_right ..)⟩

/-- Whether outlines lie in a text one after the other, from `start` on and up to `last`. -/
structure Spread (text : String) (start : Nat) (last : Span) (os : List Outline) : Prop where
  sound : ∀ o ∈ os, o.Sound text
  order : os.Pairwise Before
  start : ∀ o ∈ os, start ≤ o.span.offset
  upto : ∀ o ∈ os, o.span.Upto last

/-- Where what comes after outlines starts at the earliest. -/
def past (n : Nat) (os : List Outline) : Nat :=
  os.foldr (fun o m => max o.span.stop m) n

theorem le_past (n : Nat) (os : List Outline) : n ≤ past n os := by
  induction os with
  | nil => exact Nat.le_refl n
  | cons o os ih => exact Nat.le_trans ih (Nat.le_max_right ..)

theorem stop_le_past (n : Nat) {os : List Outline} {o : Outline} (h : o ∈ os) : o.span.stop ≤ past n os := by
  induction h with
  | head => exact Nat.le_max_left ..
  | tail _ _ ih => exact Nat.le_trans ih (Nat.le_max_right ..)

theorem past_le {n m : Nat} {os : List Outline} (hn : n ≤ m) (h : ∀ o ∈ os, o.span.stop ≤ m) : past n os ≤ m := by
  induction os with
  | nil => exact hn
  | cons o os ih => exact Nat.max_le.2 ⟨h o (by simp), ih fun o ho => h o (by simp [ho])⟩

section
variable {text : String} {n : Nat} {last : Span} {xs ys parts : List Outline}

theorem spread_nil : Spread text n last [] :=
  ⟨List.forall_mem_nil _, .nil, List.forall_mem_nil _, List.forall_mem_nil _⟩

theorem Spread.sublist (h : Spread text n last ys) (hs : xs.Sublist ys) : Spread text n last xs :=
  ⟨fun o ho => h.sound o (hs.subset ho), h.order.sublist hs, fun o ho => h.start o (hs.subset ho),
    fun o ho => h.upto o (hs.subset ho)⟩

theorem Spread.append {last' : Span} (h : Spread text n last xs) (h' : Spread text (past n xs) last' ys)
    (hlast : last.Upto last') : Spread text n last' (xs ++ ys) where
  sound := List.forall_mem_append.2 ⟨h.sound, h'.sound⟩
  order := List.pairwise_append.2
    ⟨h.order, h'.order, fun _ hx y hy => Nat.le_trans (stop_le_past n hx) (h'.start y hy)⟩
  start := List.forall_mem_append.2 ⟨h.start, fun o ho => Nat.le_trans (le_past n xs) (h'.start o ho)⟩
  upto := List.forall_mem_append.2 ⟨fun o ho => (h.upto o ho).trans hlast, h'.upto⟩

/-- **A phrase and its parts**, from `a` to `b`. -/
theorem Spread.node {a b : Span} (h : Spread text n last ys) (hparts : parts.Sublist ys) (hab : a.Upto b)
    (ha : a.Fits text) (hb : b.Fits text) (hstart : n ≤ a.offset) (hlast : b.Upto last)
    (hin : ∀ o ∈ parts, a.offset ≤ o.span.offset ∧ o.span.stop ≤ b.stop) :
    Spread text n last [.node (a.join b) parts] := by
  have hoffset : (a.join b).offset = a.offset := by rw [Span.offset_join, Nat.min_eq_left hab.start]
  have hstop : (a.join b).stop = b.stop := by rw [Span.stop_join_of_le hab.start, Nat.max_eq_left hab.stop]
  have hs := h.sublist hparts
  constructor <;> simp only [List.forall_mem_singleton, List.pairwise_singleton]
  · refine .node ⟨hoffset ▸ ha.start, hstop ▸ hb.stop⟩ hs.order (fun o ho => ?_) hs.sound
    exact ⟨hoffset ▸ (hin o ho).1, hstop ▸ (hin o ho).2⟩
  · exact hoffset ▸ hstart
  · exact ⟨hoffset ▸ Nat.le_trans hab.start hlast.start, hstop ▸ hlast.stop⟩

theorem Spread.after_first {o : Outline} (h : Spread text n last (o :: ys)) :
    ∀ o' ∈ o :: ys, o.span.offset ≤ o'.span.offset :=
  List.forall_mem_cons.2 ⟨Nat.le_refl _, fun o' ho' =>
    (Span.upto_of_stop_le ((List.pairwise_cons.1 h.order).1 o' ho')).start⟩

theorem Spread.upto_last {o : Outline} (h : Spread text n last (ys ++ [o])) :
    ∀ o' ∈ ys ++ [o], o'.span.Upto o.span :=
  List.forall_mem_append.2 ⟨fun o' ho' => Span.upto_of_stop_le
    ((List.pairwise_append.1 h.order).2.2 o' ho' o (List.mem_singleton_self o)),
    List.forall_mem_singleton.2 (.refl _)⟩

/-- From what was read first to what was read last. -/
theorem Spread.node_last {o l : Outline} (h : Spread text n last (o :: (ys ++ [l])))
    (hparts : parts.Sublist (o :: (ys ++ [l]))) : Spread text n last [.node (o.span.join l.span) parts] := by
  have hlast : ∀ o' ∈ (o :: ys) ++ [l], o'.span.Upto l.span := upto_last h
  exact h.node hparts (hlast o (by simp)) (h.sound o (by simp)).fits (h.sound l (by simp)).fits
    (h.start o (by simp)) (h.upto l (by simp)) fun o' ho' =>
      ⟨h.after_first o' (hparts.subset ho'), (hlast o' (hparts.subset ho')).stop⟩

end

namespace Parser

variable {α β γ δ : Type}

/-! ## Stages -/

/-- Tokens, and the text that they are from if that is known. -/
structure Setting where
  tokens : List Token
  text : String
  Known : Prop
  scanned : Known → Scanned text tokens

/-- How far a parser has come: whether a token was read, and what was read in the phrase at hand, which starts at
    `start` at the earliest. -/
structure Stage where
  moved : Bool
  start : Nat
  read : List Outline

namespace Stage

structure Holds (s : Stage) (w : Setting) (i : Input) : Prop where
  within : i.rest <:+ w.tokens
  moved : s.moved = true → i.rest.length < w.tokens.length
  prev : w.Known → i.prev.Fits w.text
  ahead : w.Known → ∀ t ∈ i.rest, i.prev.stop ≤ t.span.offset ∧ s.start ≤ t.span.offset
  read : w.Known → Spread w.text s.start i.prev s.read

/-- Whether what a stage says another one says too. -/
def Yields (w : Setting) (s t : Stage) : Prop :=
  ∀ i, s.Holds w i → t.Holds w i

variable {m m' : Bool} {n : Nat} {xs ys zs : List Outline} {i j : Input} {w : Setting}

theorem Yields.rfl {s : Stage} : s.Yields w s :=
  fun _ hi => hi

theorem yields_of_spread (h : w.Known → ∀ i, Spread w.text n i xs → Spread w.text n i ys) :
    Yields w ⟨m, n, xs⟩ ⟨m, n, ys⟩ :=
  fun _ hi => { hi with read := fun hw => h hw _ (hi.read hw) }

theorem yields_sublist (h : ys.Sublist xs) : Yields w ⟨m, n, xs⟩ ⟨m, n, ys⟩ :=
  yields_of_spread fun _ _ hi => hi.sublist h

theorem yields_tail {o : Outline} : Yields w ⟨m, n, o :: xs⟩ ⟨m, n, xs⟩ :=
  yields_sublist (List.sublist_cons_self ..)

theorem yields_moved : Yields w ⟨true, n, xs⟩ ⟨m, n, xs⟩ :=
  fun _ hi => { hi with moved := fun _ => hi.moved (Eq.refl true) }

/-- A phrase begins. -/
theorem Holds.enter (h : Holds ⟨m, n, xs⟩ w i) : Holds ⟨m, past n xs, []⟩ w i :=
  { h with
    ahead := fun hw t ht => ⟨(h.ahead hw t ht).1, past_le (h.ahead hw t ht).2 fun o ho =>
      Nat.le_trans ((h.read hw).upto o ho).stop (h.ahead hw t ht).1⟩
    read := fun _ => spread_nil }

/-- A phrase ends. -/
theorem Holds.leave (h : Holds ⟨m, n, xs⟩ w i) (hj : Holds ⟨m', past n xs, ys⟩ w j)
    (hprev : w.Known → i.prev.Upto j.prev) : Holds ⟨m', n, xs ++ ys⟩ w j :=
  { hj with
    ahead := fun hw t ht => ⟨(hj.ahead hw t ht).1, Nat.le_trans (le_past n xs) (hj.ahead hw t ht).2⟩
    read := fun hw => (h.read hw).append (hj.read hw) (hprev hw) }

/-- A phrase begins with the next token. -/
theorem Holds.begin {t : Token} {ts : List Token} {prev : Span} (h : Holds ⟨m, n, []⟩ w ⟨prev, t :: ts⟩) :
    Holds ⟨m, t.span.offset, []⟩ w ⟨prev, t :: ts⟩ :=
  { h with
    ahead := fun hw => List.forall_mem_cons.2 ⟨⟨(h.ahead hw t (by simp)).1, Nat.le_refl _⟩, fun u hu =>
      ⟨(h.ahead hw u (by simp [hu])).1, (Span.upto_of_stop_le ((List.pairwise_cons.1
        ((w.scanned hw).order.sublist h.within.sublist)).1 u hu)).start⟩⟩
    read := fun _ => spread_nil }

theorem Holds.looser {n' : Nat} (h : Holds ⟨m, n, xs⟩ w i) (hn : w.Known → n' ≤ n) : Holds ⟨m, n', xs⟩ w i :=
  { h with
    ahead := fun hw t ht => ⟨(h.ahead hw t ht).1, Nat.le_trans (hn hw) (h.ahead hw t ht).2⟩
    read := fun hw => { h.read hw with start := fun o ho => Nat.le_trans (hn hw) ((h.read hw).start o ho) } }

/-- The next token is read. -/
theorem Holds.next {t : Token} {ts : List Token} {prev : Span} (h : Holds ⟨m, n, []⟩ w ⟨prev, t :: ts⟩) :
    Holds ⟨true, n, [leaf t.span]⟩ w ⟨t.span, ts⟩ where
  within := (List.suffix_cons t ts).trans h.within
  moved _ := Nat.lt_of_lt_of_le (Nat.lt_succ_self _) h.within.length_le
  prev hw := (w.scanned hw).fits t (h.within.subset (List.mem_cons_self ..))
  ahead hw u hu := ⟨(List.pairwise_cons.1 ((w.scanned hw).order.sublist h.within.sublist)).1 u hu,
    (h.ahead hw u (List.mem_cons_of_mem _ hu)).2⟩
  read hw := ⟨List.forall_mem_singleton.2 (sound_leaf ((w.scanned hw).fits t (h.within.subset (List.mem_cons_self ..)))),
    List.pairwise_singleton .., List.forall_mem_singleton.2 (h.ahead hw t (List.mem_cons_self ..)).2,
    List.forall_mem_singleton.2 (.refl _)⟩

/-- All that was read in the phrase is part of it. -/
theorem yields_node {o l : Outline} :
    Yields w ⟨m, n, o :: (ys ++ [l])⟩ ⟨m, n, [.node (o.span.join l.span) (o :: (ys ++ [l]))]⟩ :=
  yields_of_spread fun _ _ h => h.node_last (List.Sublist.refl _)

/-- All but the first word. -/
theorem yields_node_from {o l : Outline} :
    Yields w ⟨m, n, o :: (ys ++ [l])⟩ ⟨m, n, [.node (o.span.join l.span) (ys ++ [l])]⟩ :=
  yields_of_spread fun _ _ h => h.node_last (List.sublist_cons_self ..)

/-- All but the last word. -/
theorem yields_node_to {o l : Outline} :
    Yields w ⟨m, n, o :: (ys ++ [l])⟩ ⟨m, n, [.node (o.span.join l.span) (o :: ys)]⟩ :=
  yields_of_spread fun _ _ h => h.node_last (List.sublist_append_left (o :: ys) [l])

/-- All but the first and the last word. -/
theorem yields_node_between {a b : Span} :
    Yields w ⟨m, n, leaf a :: (ys ++ [leaf b])⟩ ⟨m, n, [.node (a.join b) ys]⟩ :=
  yields_of_spread fun _ _ h => h.node_last (o := leaf a) (l := leaf b) ((List.sublist_append_left ..).cons _)

end Stage

open Stage

/-! ## Runs -/

/-- `b` is what `f` makes of `a`, and `a` has the property if the text is known. -/
structure Via (w : Setting) (f : α → β) (P : α → Prop) (a : α) (b : β) : Prop where
  eq : b = f a
  prop : w.Known → P a

/-- Whether the one input comes after the other, at least a token later if `c` says so. -/
structure Reaches (w : Setting) (c : Bool) (i j : Input) : Prop where
  rest : j.rest <:+ i.rest
  moved : c = true → j.rest.length < i.rest.length
  prev : w.Known → i.prev.Upto j.prev

theorem Reaches.refl (w : Setting) (i : Input) : Reaches w false i i :=
  ⟨List.suffix_refl _, nofun, fun _ => .refl _⟩

theorem Reaches.trans {w : Setting} {c d : Bool} {i j k : Input} (h : Reaches w d i j)
    (h' : Reaches w (!d && c) j k) : Reaches w c i k where
  rest := h'.rest.trans h.rest
  moved hc := by
    cases d with
    | true => exact Nat.lt_of_le_of_lt h'.rest.length_le (h.moved rfl)
    | false => exact Nat.lt_of_lt_of_le (h'.moved hc) h.rest.length_le
  prev hw := (h.prev hw).trans (h'.prev hw)

/-- Two ends of runs from `i` that go together. -/
inductive Agree (w : Setting) (i : Input) (c : Bool) (R : α → β → Prop) (t : α → Stage) :
    Except ParseError (α × Input) → Except ParseError (β × Input) → Prop
  | ok {a : α} {b : β} {j : Input} : R a b → Reaches w c i j → (t a).Holds w j →
      Agree w i c R t (.ok (a, j)) (.ok (b, bareInput j.kinds))
  | error {e e' : ParseError} : (w.Known → e.span.Fits w.text) → Agree w i c R t (.error e) (.error e')

/-- Whether, from the stage `s` on, two parsers do the same and a third one does it without places. Those that
    succeed reach the stage `t`, and have read a token if `c` says so. -/
def Mirrors (w : Setting) (s : Stage) (p p' : Parser α) (q : Parser β) (R : Input → α → β → Prop) (c : Bool)
    (t : α → Stage) : Prop :=
  ∀ i, s.Holds w i → StateT.run p' i = StateT.run p i ∧
    Agree w i c (R i) t (StateT.run p i) (StateT.run q (bareInput i.kinds))

variable {w : Setting} {s : Stage} {m m' c d : Bool} {n : Nat} {xs ys : List Outline}

section
variable {p p' : Parser α} {q : Parser β} {R : Input → α → β → Prop} {t : α → Stage} {i j : Input}
  {x : Except ParseError (α × Input)} {y : Except ParseError (β × Input)}

theorem Agree.mono {R S : α → β → Prop} {u : α → Stage} (h : Agree w i c R t x y)
    (hRS : ∀ a b, R a b → S a b) (htu : ∀ a j, (t a).Holds w j → (u a).Holds w j) : Agree w i c S u x y := by
  cases h with
  | ok hab hij hj => exact .ok (hRS _ _ hab) hij (htu _ _ hj)
  | error he => exact .error he

theorem mirrors_pure {R : α → β → Prop} {a : α} {b : β} (h : R a b) (hs : s.Yields w (t a)) :
    Mirrors w s (pure a) (pure a) (pure b) (fun _ => R) false t :=
  fun i hi => ⟨rfl, .ok h (.refl w i) (hs i hi)⟩

theorem mirrors_fail_nowhere (f g : ParseFault) :
    Mirrors w s (fail f .nowhere) (fail f .nowhere) (fail g .nowhere) R c t :=
  fun _ _ => ⟨rfl, .error fun _ => Span.fits_nowhere _⟩

/-- A failure at what was read. -/
theorem mirrors_fail (f g : ParseFault) {e : Span} (e' : Span) (h : leaf e ∈ s.read) :
    Mirrors w s (fail f e) (fail f e) (fail g e') R c t :=
  fun _ hi => ⟨rfl, .error fun hw => ((hi.read hw).sound (leaf e) h).fits⟩

theorem Mirrors.bind {k k' : α → Parser γ} {l : β → Parser δ} {S : Input → γ → δ → Prop} {u : γ → Stage}
    (h : Mirrors w s p p' q R d t)
    (hk : ∀ i a b, R i a b → Mirrors w (t a) (k a) (k' a) (l b) (fun _ => S i) (!d && c) u) :
    Mirrors w s (p >>= k) (p' >>= k') (q >>= l) S c u := by
  intro i hi
  obtain ⟨heq, hends⟩ := h i hi
  rw [StateT.run_bind, StateT.run_bind, StateT.run_bind, heq]
  generalize StateT.run p i = x at hends ⊢
  generalize StateT.run q (bareInput i.kinds) = y at hends ⊢
  cases hends with
  | error he => exact ⟨rfl, .error he⟩
  | ok hab hij hj =>
    obtain ⟨heq, hends⟩ := hk i _ _ hab _ hj
    refine ⟨heq, ?_⟩
    simp only [ok_bind]
    generalize StateT.run (k _) _ = x at hends ⊢
    generalize StateT.run (l _) _ = y at hends ⊢
    cases hends with
    | error he => exact .error he
    | ok hab' hij' hj' => exact .ok hab' (hij.trans hij') hj'

theorem Mirrors.mono {S : Input → α → β → Prop} {u : α → Stage} (h : Mirrors w s p p' q R c t)
    (hRS : ∀ i a b, R i a b → S i a b) (htu : ∀ a, (t a).Yields w (u a)) : Mirrors w s p p' q S c u :=
  fun i hi => ⟨(h i hi).1, (h i hi).2.mono (hRS i) htu⟩

theorem Mirrors.from {s' : Stage} (h : Mirrors w s p p' q R c t) (hs : s'.Yields w s) :
    Mirrors w s' p p' q R c t :=
  fun i hi => h i (hs i hi)

/-- A phrase within another one. -/
theorem Mirrors.within {out : α → List Outline}
    (h : Mirrors w ⟨m, past n xs, []⟩ p p' q R c fun a => ⟨m', past n xs, out a⟩) :
    Mirrors w ⟨m, n, xs⟩ p p' q R c fun a => ⟨m', n, xs ++ out a⟩ := by
  intro i hi
  obtain ⟨heq, hends⟩ := h i hi.enter
  refine ⟨heq, ?_⟩
  generalize StateT.run p i = x at hends ⊢
  generalize StateT.run q (bareInput i.kinds) = y at hends ⊢
  cases hends with
  | ok hab hij hj => exact .ok hab hij (hi.leave hj hij.prev)
  | error he => exact .error he

end

theorem Mirrors.map {p p' : Parser α} {q : Parser β} {g : α → γ} {j : β → δ} {R : Input → α → β → Prop}
    {S : Input → γ → δ → Prop} {t : α → Stage} {u : γ → Stage} (h : Mirrors w s p p' q R c t)
    (hg : ∀ i a b, R i a b → S i (g a) (j b)) (hu : ∀ a, (t a).Yields w (u (g a))) :
    Mirrors w s (g <$> p) (g <$> p') (j <$> q) S c u := by
  intro i hi
  obtain ⟨heq, hends⟩ := h i hi
  rw [StateT.run_map, StateT.run_map, StateT.run_map, heq]
  generalize StateT.run p i = x at hends ⊢
  generalize StateT.run q (bareInput i.kinds) = y at hends ⊢
  cases hends with
  | error he => exact ⟨rfl, .error he⟩
  | ok hab hij hj => exact ⟨rfl, .ok (hg i _ _ hab) hij (hu _ _ hj)⟩

/-- A parser that counts on a token read before starts where one was read. -/
class Licensed (b m : Bool) : Prop where
  moved : b = true → m = true

instance {m : Bool} : Licensed false m := ⟨nofun⟩

instance {b : Bool} : Licensed b true := ⟨fun _ => rfl⟩

instance {b m : Bool} : Licensed b (true || m) := ⟨fun _ => rfl⟩

instance {b d m : Bool} [h : Licensed b m] : Licensed b (d || m) := ⟨fun hb => by rw [h.moved hb, Bool.or_true]⟩

/-- Whether a parser does the same with the parsers of another level below it, gives without places what `f` makes
    of what it gives with them, which has the property, and has read what `out` outlines. It may count on a token
    that was read before if `b` says so, and reads one itself if `c` says so. -/
def Reflects (w : Setting) (b c : Bool) (p p' : Parser α) (f : α → α) (P : List TokenKind → α → Prop)
    (out : α → List Outline) : Prop :=
  ∀ (m : Bool) (n : Nat) [Licensed b m],
    Mirrors w ⟨m, n, []⟩ p p' p (fun i => Via w f (P i.kinds)) c fun a => ⟨c || m, n, out a⟩

section
variable {b : Bool} {p p' : Parser α} {f : α → α} {P Q : List TokenKind → α → Prop} {out : α → List Outline}
  {S : Input → γ → δ → Prop} {u : γ → Stage}

theorem Reflects.via [Licensed b m] {k k' : α → Parser γ} {l : α → Parser δ} (h : Reflects w b d p p' f P out)
    (hk : ∀ i a, (w.Known → P i.kinds a) →
      Mirrors w ⟨d || m, n, xs ++ out a⟩ (k a) (k' a) (l (f a)) (fun _ => S i) (!d && c) u) :
    Mirrors w ⟨m, n, xs⟩ (p >>= k) (p' >>= k') (p >>= l) S c u :=
  (h m _).within.bind fun i a _ ha => ha.eq ▸ hk i a ha.prop

/-- What the first parser gives does not matter. -/
theorem Reflects.then [Licensed b m] {p₂ p₂' : Parser γ} {q₂ : Parser δ} (h : Reflects w b d p p' f P out)
    (h' : ∀ i, Mirrors w ⟨d || m, n, xs⟩ p₂ p₂' q₂ (fun _ => S i) (!d && c) u) :
    Mirrors w ⟨m, n, xs⟩ (discard p >>= fun _ => p₂) (discard p' >>= fun _ => p₂')
      (discard p >>= fun _ => q₂) S c u := by
  have hdrop : Mirrors w ⟨m, n, xs⟩ (discard p) (discard p') (discard p) (fun _ _ _ => True) d
      fun _ => ⟨d || m, n, xs⟩ :=
    Mirrors.map (g := Function.const α ()) (j := Function.const α ()) (h m _).within
      (fun _ _ _ _ => trivial) fun _ => yields_sublist (List.sublist_append_left ..)
  exact hdrop.bind fun i _ _ _ => h' i

/-- Nothing comes after the phrase. -/
theorem Reflects.tail [Licensed b m] {Q : α → Prop} {t : α → Stage} (h : Reflects w b d p p' f (fun _ => Q) out)
    (ht : ∀ a, Yields w ⟨d || m, n, xs ++ out a⟩ (t a)) :
    Mirrors w ⟨m, n, xs⟩ p p' p (fun _ => Via w f Q) false t := by
  rw [← bind_pure p, ← bind_pure p']
  refine h.via fun _ a ha => ?_
  rw [Bool.and_false]
  exact mirrors_pure ⟨rfl, ha⟩ (ht a)

theorem Reflects.mono (h : Reflects w b c p p' f P out) (hPQ : ∀ ks a, P ks a → Q ks a) :
    Reflects w b c p p' f Q out :=
  fun m n _ i hi => ⟨(h m n i hi).1, (h m n i hi).2.mono
    (fun a _ ha => ⟨ha.eq, fun hw => hPQ _ a (ha.prop hw)⟩) fun _ _ hj => hj⟩

theorem Reflects.left (h : Reflects w b c p p' f P out) : Reflects w b c p p f P out :=
  fun m n _ i hi => ⟨rfl, (h m n i hi).2⟩

theorem Reflects.map {g : α → γ} {f' : γ → γ} {Q : List TokenKind → γ → Prop} {out' : γ → List Outline}
    (h : Reflects w b c p p' f P out) (hPQ : ∀ ks a, P ks a → Q ks (g a))
    (hf : ∀ a, g (f a) = f' (g a)) (hout : ∀ a, out' (g a) = out a) :
    Reflects w b c (g <$> p) (g <$> p') f' Q out' :=
  fun m n _ => Mirrors.map (h m n) (fun i a _ ha => ⟨ha.eq ▸ hf a, fun hw => hPQ _ a (ha.prop hw)⟩)
    fun a => by rw [hout]; exact .rfl

end

/-! ## Single tokens -/

/-- Whether a parser only looks at tokens. -/
def Looks (p : Parser α) : Prop :=
  ∀ i, ∃ a, StateT.run p i = .ok (a, i) ∧ StateT.run p (bareInput i.kinds) = .ok (a, bareInput i.kinds)

theorem looks_peek : Looks peek := by
  rintro ⟨_, rest⟩
  exact ⟨rest.head?.map (·.kind), rfl, by cases rest <;> rfl⟩

theorem looks_peekSecond : Looks peekSecond := by
  rintro ⟨_, rest⟩
  exact ⟨rest.tail.head?.map (·.kind), rfl, by rcases rest with _ | ⟨_, _ | _⟩ <;> rfl⟩

theorem looks_remaining : Looks remaining := by
  rintro ⟨_, rest⟩
  exact ⟨rest.length, rfl, by simp [Input.kinds]⟩

theorem looks_sees (k : TokenKind) : Looks (sees k) := by
  rintro ⟨_, rest⟩
  exact ⟨rest.head?.map (·.kind) == some k, rfl, by cases rest <;> rfl⟩

theorem Looks.same {p : Parser α} {k k' : α → Parser γ} {l : α → Parser δ} {S : Input → γ → δ → Prop}
    {u : γ → Stage} (h : Looks p) (hk : ∀ a, Mirrors w s (k a) (k' a) (l a) S c u) :
    Mirrors w s (p >>= k) (p >>= k') (p >>= l) S c u := by
  intro i hi
  obtain ⟨a, hp, hq⟩ := h i
  rw [StateT.run_bind, StateT.run_bind, StateT.run_bind, hp, hq]
  exact hk a i hi

theorem mirrors_failHere {R : Input → α → β → Prop} {t : α → Stage} (f : ParseFault) :
    Mirrors w s (failHere f) (failHere f) (failHere f) R c t := by
  rintro ⟨prev, rest⟩ hi
  cases rest with
  | nil => exact ⟨rfl, .error fun _ => Span.fits_nowhere _⟩
  | cons t rest =>
    exact ⟨rfl, .error fun hw => (w.scanned hw).fits t (hi.within.subset (List.mem_cons_self ..))⟩

theorem mirrors_next :
    Reflects w false true next next Token.bare (fun _ => (· ∈ w.tokens)) fun t => [leaf t.span] := by
  rintro m n - ⟨prev, rest⟩ hi
  cases rest with
  | nil => exact ⟨rfl, .error fun _ => Span.fits_nowhere _⟩
  | cons t rest =>
    refine ⟨rfl, .ok (j := ⟨t.span, rest⟩) ⟨rfl, fun _ => hi.within.subset (List.mem_cons_self ..)⟩
      ⟨List.suffix_cons .., fun _ => Nat.lt_succ_self _, fun hw => ?_⟩ hi.next⟩
    exact Span.upto_of_stop_le (hi.ahead hw t (List.mem_cons_self ..)).1

theorem mirrors_expect (k : TokenKind) : Reflects w false true (expect k) (expect k) (fun _ => .nowhere)
    (fun _ e => ⟨k, e⟩ ∈ w.tokens) fun e => [leaf e] := by
  intro m n _
  refine mirrors_next.via fun _ t ht => ?_
  obtain ⟨k', e⟩ := t
  by_cases hk : k' = k
  · subst hk
    simp only [Token.bare, beq_self_eq_true, if_true]
    exact mirrors_pure ⟨rfl, ht⟩ .rfl
  · simp only [Token.bare, beq_iff_eq, hk, if_false]
    exact mirrors_fail _ _ _ (List.mem_singleton_self _)

theorem mirrors_sym (y : Sym) : Reflects w false true (sym y) (sym y) (fun _ => .nowhere)
    (fun _ e => ⟨.sym y, e⟩ ∈ w.tokens) fun e => [leaf e] :=
  mirrors_expect _

theorem mirrors_keyword (k : Keyword) : Reflects w false true (keyword k) (keyword k) (fun _ => .nowhere)
    (fun _ e => ⟨.keyword k, e⟩ ∈ w.tokens) fun e => [leaf e] :=
  mirrors_expect _

theorem mirrors_ident :
    Reflects w false true ident ident Ident.bare (fun _ => Ident.Legible) fun x => [x.outline] := by
  intro m n _
  refine mirrors_next.via fun _ t ht => ?_
  obtain ⟨k, e⟩ := t
  cases k with
  | ident x => exact mirrors_pure ⟨rfl, fun hw => (w.scanned hw).legible _ (ht hw) x rfl⟩ .rfl
  | _ => exact mirrors_fail _ _ _ (List.mem_singleton_self _)

/-- Whether a parser gives the same without places, and reads nothing that has an outline. -/
def Passes (w : Setting) (p : Parser α) (moved : α → Bool) : Prop :=
  ∀ (m : Bool) (n : Nat) (xs : List Outline), Mirrors w ⟨m, n, xs⟩ p p p (fun _ a b => b = a) false fun a =>
    ⟨moved a || m, n, xs⟩

theorem Passes.same {p : Parser α} {k k' : α → Parser γ} {l : α → Parser δ} {S : Input → γ → δ → Prop}
    {moved : α → Bool} {u : γ → Stage} (h : Passes w p moved)
    (hk : ∀ i a, Mirrors w ⟨moved a || m, n, xs⟩ (k a) (k' a) (l a) (fun _ => S i) c u) :
    Mirrors w ⟨m, n, xs⟩ (p >>= k) (p >>= k') (p >>= l) S c u :=
  (h m n xs).bind fun i a _ hb => hb ▸ hk i a

theorem mirrors_accept (y : Sym) : Passes w (accept y) id := by
  intro m n xs
  refine (looks_sees _).same fun b => ?_
  cases b with
  | true => exact mirrors_next.then fun _ => mirrors_pure rfl .rfl
  | false => exact mirrors_pure rfl .rfl

theorem mirrors_atEnd : Passes w atEnd fun _ => false := by
  intro m n xs
  refine (looks_sees _).same fun b => ?_
  cases b with
  | true => exact mirrors_pure rfl .rfl
  | false => exact mirrors_failHere _

/-! ## Lists -/

/-- What a list is made of is what its members are made of. -/
class Gathers (out : α → List Outline) (outs : List α → List Outline) : Prop where
  nil : outs [] = []
  cons : ∀ a as, outs (a :: as) = out a ++ outs as

instance {g : α → Outline} : Gathers (fun a => [g a]) (List.map g) := ⟨rfl, fun _ _ => rfl⟩

instance {g : α → List Outline} : Gathers g (List.flatMap g) := ⟨rfl, fun _ _ => rfl⟩

instance : Gathers (fun e => [Expr.outline e]) Expr.outlines := ⟨rfl, fun _ _ => rfl⟩

instance : Gathers (fun f => [Field.outline f]) Field.outlines := ⟨rfl, fun a _ => by cases a; rfl⟩

instance : Gathers (fun m => [Method.outline m]) Method.outlines := ⟨rfl, fun a _ => by cases a; rfl⟩

instance : Gathers (fun p => [Formula.outline p]) Formula.outlines := ⟨rfl, fun _ _ => rfl⟩

instance : Gathers (fun b => [Bound.outline b]) Bound.outlines := ⟨rfl, fun _ _ => rfl⟩

instance : Gathers (fun t => [Tactic.outline t]) Tactic.outlines := ⟨rfl, fun _ _ => rfl⟩

section
variable {b : Bool} {p p' : Parser α} {f : α → α} {P : List TokenKind → α → Prop} {Q : α → Prop}
  {out : α → List Outline} (outs : List α → List Outline) [hs : Gathers out outs]
include hs

theorem mirrors_itemsFrom (h : Reflects w b true p p' f (fun _ => Q) out) (k : Nat) :
    Reflects w b false (itemsFrom p k) (itemsFrom p' k) (List.map f)
      (fun _ as => (0 < k → as ≠ []) ∧ ∀ a ∈ as, Q a) outs := by
  induction k with
  | zero => exact fun _ _ _ => mirrors_pure ⟨rfl, fun _ => ⟨nofun, List.forall_mem_nil _⟩⟩ (hs.nil ▸ .rfl)
  | succ k ih =>
    intro m n _
    refine h.via fun _ a ha => ?_
    refine (mirrors_accept _).same fun _ more => ?_
    cases more with
    | true =>
      refine (ih.via (m := m) fun _ as has => ?_).from yields_moved
      exact mirrors_pure ⟨rfl, fun hw => ⟨fun _ => List.cons_ne_nil _ _,
        List.forall_mem_cons.2 ⟨ha hw, (has hw).2⟩⟩⟩ (hs.cons a as ▸ .rfl)
    | false =>
      refine mirrors_pure ⟨rfl, fun hw => ⟨fun _ => List.cons_ne_nil _ _, List.forall_mem_singleton.2 (ha hw)⟩⟩ ?_
      rw [hs.cons, hs.nil, List.append_nil]
      exact yields_moved

theorem mirrors_items (h : Reflects w b true p p' f (fun _ => Q) out) :
    Reflects w b false (items p) (items p') (List.map f) (fun _ as => as ≠ [] ∧ ∀ a ∈ as, Q a) outs := by
  intro m n _
  refine looks_remaining.same fun k => ?_
  refine (mirrors_itemsFrom outs h (k + 1) m n).mono (fun _ as _ has => ?_) fun _ => .rfl
  exact ⟨has.eq, fun hw => ⟨(has.prop hw).1 (Nat.succ_pos k), (has.prop hw).2⟩⟩

theorem mirrors_itemsBefore (close : Sym) (h : Reflects w b true p p' f (fun _ => Q) out) :
    Reflects w b false (itemsBefore close p) (itemsBefore close p') (List.map f)
      (fun _ as => ∀ a ∈ as, Q a) outs := by
  intro m n _
  refine (looks_sees _).same fun closed => ?_
  cases closed with
  | true => exact mirrors_pure ⟨rfl, fun _ => List.forall_mem_nil _⟩ (hs.nil ▸ .rfl)
  | false =>
    exact (mirrors_items outs h m n).mono
      (fun _ as _ has => ⟨has.eq, fun hw => (has.prop hw).2⟩) fun _ => .rfl

theorem mirrors_manyFrom (goesOn : Option TokenKind → Bool) (h : Reflects w b true p p' f (fun _ => Q) out) (k : Nat) :
    Reflects w b false (manyFrom goesOn p k) (manyFrom goesOn p' k) (List.map f) (fun _ as => ∀ a ∈ as, Q a)
      outs := by
  induction k with
  | zero => exact fun _ _ _ => mirrors_pure ⟨rfl, fun _ => List.forall_mem_nil _⟩ (hs.nil ▸ .rfl)
  | succ k ih =>
    intro m n _
    refine looks_peek.same fun t => ?_
    split
    · refine h.via fun _ a ha => ?_
      refine (ih.via (m := m) fun _ as has => ?_).from yields_moved
      exact mirrors_pure ⟨rfl, fun hw => List.forall_mem_cons.2 ⟨ha hw, has hw⟩⟩ (hs.cons a as ▸ .rfl)
    · exact mirrors_pure ⟨rfl, fun _ => List.forall_mem_nil _⟩ (hs.nil ▸ .rfl)

theorem mirrors_many (goesOn : Option TokenKind → Bool) (h : Reflects w b true p p' f (fun _ => Q) out) :
    Reflects w b false (many goesOn p) (many goesOn p') (List.map f) (fun _ as => ∀ a ∈ as, Q a) outs := by
  intro m n _
  refine looks_remaining.same fun k => ?_
  exact mirrors_manyFrom outs goesOn h _ m n

end

/-! ## Chains and suffixes -/

section
variable {p p' : Parser α} {f : α → α} {P : List TokenKind → α → Prop} {out : α → List Outline}

/-- Whether two phrases, one after the other, make a third one. -/
def Combines (w : Setting) (f : α → α) (P Q S : List TokenKind → α → Prop) (out : α → List Outline)
    (combine : α → α → α) : Prop :=
  ∀ a b, Via w f (fun c => ∀ ks ls, P ks a → Q ls b → S ks c) (combine a b) (combine (f a) (f b)) ∧
    ∀ n, Yields w ⟨true, n, out a ++ out b⟩ ⟨true, n, out (combine a b)⟩

/-- A chain starts with an operand, and each operator makes of what was read so far and an operand
    something like what was read so far. -/
theorem mirrors_chain {op? : TokenKind → Option (α → α → α)} {Q : List TokenKind → α → Prop}
    (h : Reflects w false true p p' f Q out) (hfirst : ∀ ks a, Q ks a → P ks a)
    (hop : ∀ k combine, op? k = some combine → Combines w f P Q P out combine) :
    Reflects w false true (chain p op?) (chain p' op?) f P out := by
  have hloop : ∀ n ks a, (w.Known → P ks a) → ∀ st, Mirrors w ⟨true, st, out a⟩ (chainFrom p op? n a)
      (chainFrom p' op? n a) (chainFrom p op? n (f a)) (fun _ => Via w f (P ks)) false
        fun b => ⟨true, st, out b⟩ := by
    intro n ks
    induction n with
    | zero => exact fun a ha _ => mirrors_pure ⟨rfl, ha⟩ .rfl
    | succ n ih =>
      intro a ha st
      refine looks_peek.same fun k => ?_
      split
      · exact mirrors_pure ⟨rfl, ha⟩ .rfl
      · rename_i combine hcombine
        obtain ⟨k, -, hk⟩ := Option.bind_eq_some_iff.1 hcombine
        refine mirrors_next.then fun _ => ?_
        refine h.via fun i b hb => ?_
        obtain ⟨⟨heq, hab⟩, hyields⟩ := hop k combine hk a b
        rw [heq]
        exact (ih _ (fun hw => hab hw ks _ (ha hw) (hb hw)) st).from (hyields st)
  intro m st _
  refine h.via fun i a ha => ?_
  refine looks_remaining.same fun n => ?_
  exact hloop _ i.kinds a (fun hw => hfirst _ a (ha hw)) _

/-- The three parsers of a suffix, or none. -/
def SuffixMirrors (w : Setting) (f : α → α) (P : List TokenKind → α → Prop) (out : α → List Outline) (a : α) :
    Option (Parser α) → Option (Parser α) → Option (Parser α) → Prop
  | none, none, none => True
  | some p, some p', some q => ∀ {n}, Mirrors w ⟨true, n, out a⟩ p p' q
      (fun _ => Via w f fun b => ∀ ks, P ks a → P ks b) false fun b => ⟨true, n, out b⟩
  | _, _, _ => False

theorem mirrors_suffixes {suffix? suffix?' : α → TokenKind → Option (Parser α)}
    (h : Reflects w false true p p' f P out)
    (hsuffix : ∀ a k, SuffixMirrors w f P out a (suffix? a k) (suffix?' a k) (suffix? (f a) k)) :
    Reflects w false true (suffixes p suffix?) (suffixes p' suffix?') f P out := by
  have hloop : ∀ n ks a, (w.Known → P ks a) → ∀ st, Mirrors w ⟨true, st, out a⟩ (suffixesFrom suffix? n a)
      (suffixesFrom suffix?' n a) (suffixesFrom suffix? n (f a)) (fun _ => Via w f (P ks)) false
        fun b => ⟨true, st, out b⟩ := by
    intro n ks
    induction n with
    | zero => exact fun a ha _ => mirrors_pure ⟨rfl, ha⟩ .rfl
    | succ n ih =>
      intro a ha st
      refine looks_peek.same fun k => ?_
      cases k with
      | none => exact mirrors_pure ⟨rfl, ha⟩ .rfl
      | some k =>
        have hk := hsuffix a k
        simp only [Option.bind_some]
        generalize suffix? a k = r at hk
        generalize suffix?' a k = r' at hk
        generalize suffix? (f a) k = t at hk
        cases r <;> cases r' <;> cases t <;> try exact hk.elim
        · exact mirrors_pure ⟨rfl, ha⟩ .rfl
        · exact Mirrors.bind hk fun _ b _ hb => hb.eq ▸ ih b (fun hw => hb.prop hw ks (ha hw)) st
  intro m st _
  refine h.via fun i a ha => ?_
  refine looks_remaining.same fun n => ?_
  exact hloop _ i.kinds a ha _

end

/-! ## Brackets, parameters -/

section
variable {p p' : Parser α} {q : Parser β} {f : α → α} {P : List TokenKind → α → Prop} {Q : α → Prop}
  {out : α → List Outline}

theorem mirrors_parens {b : Bool} (h : Reflects w b d p p' f (fun _ => Q) out) :
    Reflects w false true (parens p) (parens p') f (fun _ => Q) out := by
  intro m n _
  refine (mirrors_sym _).then fun _ => ?_
  refine h.via fun _ a ha => ?_
  refine (mirrors_sym _).then fun _ => ?_
  exact mirrors_pure ⟨rfl, ha⟩ .rfl

/-- A phrase from what was read first to the token read last. -/
theorem mirrors_toPrev {g : Span → α} {g' : Span → β} {R : α → β → Prop} {o : Outline} {parts : List Outline}
    {outline : α → Outline} (h : ∀ e, R (g e) (g' .nowhere)) (hparts : parts.Sublist (o :: xs))
    (houtline : ∀ e, outline (g e) = .node (o.span.join e) parts) :
    Mirrors w ⟨m, n, o :: xs⟩ (do return g (← prevSpan)) (do return g (← prevSpan))
      (do return g' (← prevSpan)) (fun _ => R) false fun a => ⟨m, n, [outline a]⟩ := by
  refine fun i hi => ⟨rfl, .ok (h i.prev) (.refl w i) { hi with read := fun hw => ?_ }⟩
  have hread := hi.read hw
  show Spread _ _ _ [outline _]
  rw [houtline]
  exact hread.node hparts (hread.upto o (by simp)) (hread.sound o (by simp)).fits (hi.prev hw)
    (hread.start o (by simp)) (.refl _) fun o' ho' =>
      ⟨hread.after_first o' (hparts.subset ho'), (hread.upto o' (hparts.subset ho')).stop⟩

/-- What waits for its span, with places and without them. -/
structure Builds (w : Setting) (f : α → α) (P : α → Prop) (outline : α → Outline) (parts : α → List Outline)
    (build bareBuild : Span → α) : Prop where
  via : ∀ e, Via w f P (build e) (bareBuild .nowhere)
  outline : ∀ e, outline (build e) = .node e (parts (build .nowhere))

theorem mirrors_builds {build bareBuild : Span → α} {R : Input → α → Prop} {outline : α → Outline}
    {parts : α → List Outline} (h : ∀ i e, Via w f (R i) (build e) (bareBuild .nowhere))
    (hs : s.Yields w ⟨m, n, parts (build .nowhere)⟩)
    (houtline : ∀ e, outline (build e) = .node e (parts (build .nowhere))) :
    Mirrors w s (pure build) (pure build) (pure bareBuild) (fun i => Builds w f (R i) outline parts) false
      fun build => ⟨m, n, parts (build .nowhere)⟩ :=
  fun i hi => ⟨rfl, .ok ⟨h i, houtline⟩ (.refl w i) (hs i hi)⟩

/-- A phrase from its first token to the token read last. -/
theorem mirrors_build {first first' : Token → Parser (Span → α)} {outline : α → Outline}
    {parts : α → List Outline}
    (h : ∀ t, (w.Known → t ∈ w.tokens) → Mirrors w ⟨true, t.span.offset, [leaf t.span]⟩ (first t) (first' t)
      (first t.bare) (fun i => Builds w f (P (t.kind :: i.kinds)) outline parts) false
        fun build => ⟨true, t.span.offset, parts (build .nowhere)⟩) :
    Reflects w false true
      (do let t ← next; let build ← first t; return build (t.span.join (← prevSpan)))
      (do let t ← next; let build ← first' t; return build (t.span.join (← prevSpan)))
      f P fun a => [outline a] := by
  rintro m n - ⟨prev, rest⟩ hi
  cases rest with
  | nil => exact ⟨rfl, .error fun _ => Span.fits_nowhere _⟩
  | cons t rest =>
    have hahead (hw : w.Known) := hi.ahead hw t (List.mem_cons_self ..)
    have hnext := hi.begin.next
    obtain ⟨heq, hends⟩ := h t (fun _ => hi.within.subset (List.mem_cons_self ..)) _ hnext
    let ends (r : Except ParseError ((Span → α) × Input)) : Except ParseError (α × Input) :=
      r >>= fun x => pure (x.1 (t.span.join x.2.prev), x.2)
    let bareEnds (r : Except ParseError ((Span → α) × Input)) : Except ParseError (α × Input) :=
      r >>= fun x => pure (x.1 (Span.nowhere.join x.2.prev), x.2)
    refine ⟨congrArg ends heq, ?_⟩
    show Agree w _ _ _ _ (ends (StateT.run (first t) ⟨t.span, rest⟩))
      (bareEnds (StateT.run (first t.bare) (bareInput (Input.kinds ⟨t.span, rest⟩))))
    generalize StateT.run (first t) ⟨t.span, rest⟩ = x at hends ⊢
    generalize StateT.run (first t.bare) (bareInput _) = y at hends ⊢
    cases hends with
    | error he => exact .error he
    | @ok build _ j hbuild hij hj =>
      have hdone : Holds ⟨true, t.span.offset, [.node (t.span.join j.prev) (parts (build .nowhere))]⟩ w j := by
        refine { hj with read := fun hw => ?_ }
        have hread := hj.read hw
        exact hread.node (List.Sublist.refl _) (hij.prev hw) (hnext.prev hw) (hj.prev hw) (Nat.le_refl _) (.refl _)
          fun o ho => ⟨hread.start o ho, (hread.upto o ho).stop⟩
      refine .ok (hbuild.via _) ⟨hij.rest.trans (List.suffix_cons ..),
        fun _ => Nat.lt_succ_of_le hij.rest.length_le, fun hw =>
          (Span.upto_of_stop_le (hahead hw).1).trans (hij.prev hw)⟩ ?_
      show Holds ⟨true, n, [outline _]⟩ w j
      rw [hbuild.outline]
      exact hdone.looser fun hw => (hahead hw).2

/-- A phrase from the next token on. -/
theorem mirrors_here {b : Bool} {o : α → List Outline} {k k' : Span → Parser α} {l : Span → Parser β}
    {R : Input → α → β → Prop} (hk : ∀ a, (w.Known → a.Opens w.text w.tokens) →
      Mirrors w ⟨m, a.offset, []⟩ (k a) (k' a) (l .nowhere) R true fun x => ⟨b, a.offset, o x⟩) :
    Mirrors w ⟨m, n, []⟩ (here >>= k) (here >>= k') (here >>= l) R true fun x => ⟨b, n, o x⟩ := by
  rintro ⟨prev, rest⟩ hi
  cases rest with
  | nil =>
    -- there is nothing to read, so that no phrase starts here
    have hnil : Holds ⟨m, 0, []⟩ w ⟨prev, []⟩ :=
      { hi with ahead := fun _ => List.forall_mem_nil _, read := fun _ => spread_nil }
    obtain ⟨heq, hends⟩ := hk .nowhere (fun _ => ⟨Span.fits_nowhere _, fun _ _ _ _ => Nat.zero_le _⟩) _ hnil
    refine ⟨heq, ?_⟩
    show Agree w _ _ _ _ (StateT.run (k .nowhere) ⟨prev, []⟩)
      (StateT.run (l .nowhere) (bareInput (Input.kinds ⟨prev, []⟩)))
    generalize StateT.run (k .nowhere) ⟨prev, []⟩ = x at hends ⊢
    generalize StateT.run (l .nowhere) (bareInput _) = y at hends ⊢
    cases hends with
    | error he => exact .error he
    | ok _ hij _ => exact absurd (hij.moved rfl) (Nat.not_lt_zero _)
  | cons t rest =>
    have ht : t ∈ w.tokens := hi.within.subset (List.mem_cons_self ..)
    obtain ⟨heq, hends⟩ := hk t.span (fun hw => (w.scanned hw).opens ht) _ hi.begin
    refine ⟨heq, ?_⟩
    show Agree w _ _ _ _ (StateT.run (k t.span) ⟨prev, t :: rest⟩)
      (StateT.run (l .nowhere) (bareInput (Input.kinds ⟨prev, t :: rest⟩)))
    generalize StateT.run (k t.span) ⟨prev, t :: rest⟩ = x at hends ⊢
    generalize StateT.run (l .nowhere) (bareInput _) = y at hends ⊢
    cases hends with
    | error he => exact .error he
    | ok hab hij hj => exact .ok hab hij (hj.looser fun hw => (hi.ahead hw t (List.mem_cons_self ..)).2)

/-- What was read, from where the phrase starts to the last symbol. -/
theorem yields_fromHere {a b : Span} {y : Sym} {parts : List Outline} (ha : w.Known → a.Opens w.text w.tokens)
    (hb : w.Known → ⟨.sym y, b⟩ ∈ w.tokens) (hparts : w.Known → a.Upto b → parts.Sublist (xs ++ [leaf b])) :
    Yields w ⟨m, a.offset, xs ++ [leaf b]⟩ ⟨m, a.offset, [.node (a.join b) parts]⟩ := by
  refine yields_of_spread fun hw _ h => ?_
  have hlen : 0 < b.len := by
    rw [(w.scanned hw).symbol _ (hb hw) y rfl]
    cases y <;> decide
  have hstart := h.start (leaf b) (by simp)
  have hab : a.Upto b := ⟨hstart, (ha hw).stop_le _ (hb hw) hlen hstart⟩
  exact h.node (hparts hw hab) hab (ha hw).fits (h.sound (leaf b) (by simp)).fits (Nat.le_refl _)
    (h.upto (leaf b) (by simp)) fun o ho =>
      ⟨h.start o ((hparts hw hab).subset ho), (h.upto_last o ((hparts hw hab).subset ho)).stop⟩

/-- The last character of a block is its brace. -/
theorem closing_join {a b : Span} (hw : w.Known) (hb : ⟨.sym .rBrace, b⟩ ∈ w.tokens) (h : a.Upto b) :
    (a.join b).closing = b := by
  have hlen : b.len = 1 := (w.scanned hw).symbol _ hb _ rfl
  have hstop : (a.join b).stop = b.offset + 1 := by
    rw [Span.stop_join_of_le h.start, Nat.max_eq_left h.stop, Span.stop, hlen]
  obtain ⟨o, l⟩ := b
  cases hlen
  simp [Span.closing, hstop]

end

theorem mirrors_typeAnnotation : Passes w typeAnnotation fun _ => false := by
  intro m n xs
  refine (mirrors_accept _).same fun _ given => ?_
  cases given with
  | true =>
    refine mirrors_ident.via fun _ x _ => ?_
    simp only [Ident.name_bare]
    split
    · exact mirrors_pure rfl fun i hi => yields_moved i (yields_sublist (List.sublist_append_left ..) i hi)
    · exact mirrors_fail _ _ _ (List.mem_append_right _ (List.mem_singleton_self _))
  | false => exact mirrors_pure rfl .rfl

theorem mirrors_param :
    Reflects w false true param param Param.bare (fun _ p => p.name.Legible) fun p => [p.outline] := by
  intro m n _
  refine mirrors_ident.via fun _ x hx => ?_
  refine mirrors_typeAnnotation.same fun _ ty => ?_
  exact mirrors_toPrev (o := x.outline) (fun _ => ⟨rfl, hx⟩) (List.Sublist.refl _) fun _ => rfl

theorem mirrors_params : Reflects w false true params params (List.map Param.bare)
    (fun _ ps => ∀ p ∈ ps, p.name.Legible) (List.map Param.outline) :=
  mirrors_parens (mirrors_itemsBefore _ _ mirrors_param)

end Parser

end GameHop
