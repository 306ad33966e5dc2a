import GameHop.Parser.Term
import GameHop.Printer.Layout
import Mathlib.Data.List.Basic

/-!
Runs of parsers on tokens without places. On such an input all spans of the result are the span of
what was built rather than read, so that results can be compared as they are.
-/

/-! ## Tokens of layouts -/

namespace GameHop.Layout

@[simp] theorem kinds_nil : kinds [] = [] := rfl

@[simp] theorem kinds_sym (s : Sym) : (sym s).kinds = [.sym s] := rfl

@[simp] theorem kinds_word (k : Keyword) : (word k).kinds = [.keyword k] := rfl

@[simp] theorem kinds_ident (x : String) : (ident x).kinds = [.ident x] := rfl

@[simp] theorem kinds_number (n : UInt64) : (number n).kinds = [.int n] := rfl

@[simp] theorem kinds_space : space.kinds = [] := rfl

@[simp] theorem kinds_newline (depth : Nat) : (newline depth).kinds = [] := rfl

@[simp] theorem kinds_truth (b : Bool) :
    (truth b).kinds = [.keyword (if b then .true_ else .false_)] := rfl

@[simp] theorem kinds_parens (l : Layout) :
    (parens l).kinds = .sym .lParen :: (l.kinds ++ [.sym .rParen]) := by
  simp [parens]

@[simp] theorem kinds_infixed (l r : Layout) (s : Sym) :
    (infixed l s r).kinds = l.kinds ++ .sym s :: r.kinds := by
  simp [infixed]

theorem kinds_commas_singleton (l : Layout) : (commas [l]).kinds = l.kinds := rfl

theorem kinds_commas_cons (l m : Layout) (ls : List Layout) :
    (commas (l :: m :: ls)).kinds = l.kinds ++ .sym .comma :: (commas (m :: ls)).kinds := by
  simp [commas]

end GameHop.Layout

namespace GameHop.Parser

variable {α β : Type}

/-- Tokens of the given kinds, without places. -/
def bareInput (ks : List TokenKind) : Input :=
  ⟨.nowhere, ks.map (⟨·, .nowhere⟩)⟩

/-- Whether the parser reads the tokens up to `rs` as `a`. -/
@[simp] abbrev Runs (p : Parser α) (ks : List TokenKind) (a : α) (rs : List TokenKind) : Prop :=
  StateT.run p (bareInput ks) = .ok (a, bareInput rs)

@[simp] theorem join_nowhere : Span.nowhere.join .nowhere = .nowhere := rfl

@[simp] theorem span_plain (x : String) : (Ident.plain x).span = .nowhere := rfl

@[simp] theorem except_pure {ε : Type} (a : α) : (pure a : Except ε α) = .ok a := rfl

@[simp] theorem ok_bind {ε : Type} (a : α) (f : α → Except ε β) : (Except.ok a >>= f) = f a := rfl

@[simp] theorem map_ok {ε : Type} (a : α) (f : α → β) :
    (f <$> (Except.ok a : Except ε α)) = .ok (f a) := rfl

/-! ## Single tokens -/

@[simp] theorem run_peek (ks : List TokenKind) :
    Runs peek ks ks.head? ks := by
  cases ks <;> rfl

@[simp] theorem run_peekSecond (ks : List TokenKind) :
    Runs peekSecond ks ks.tail.head? ks := by
  rcases ks with _ | ⟨k, _ | ⟨l, ks⟩⟩ <;> rfl

@[simp] theorem run_next (k : TokenKind) (ks : List TokenKind) :
    Runs next (k :: ks) ⟨k, .nowhere⟩ ks := rfl

@[simp] theorem run_prevSpan (ks : List TokenKind) :
    Runs prevSpan ks .nowhere ks := rfl

@[simp] theorem run_remaining (ks : List TokenKind) :
    Runs remaining ks ks.length ks := by
  simp [remaining, bareInput]

@[simp] theorem run_discard (p : Parser α) (i : Input) :
    StateT.run (discard p) i = (fun r => ((), r.2)) <$> StateT.run p i := by
  simp only [discard, Functor.discard]
  rfl

@[simp] theorem run_sees (k : TokenKind) (ks : List TokenKind) :
    Runs (sees k) ks (ks.head? == some k) ks := by
  simp [sees]

@[simp] theorem run_expect (k : TokenKind) (ks : List TokenKind) :
    Runs (expect k) (k :: ks) .nowhere ks := by
  simp [expect]

@[simp] theorem run_sym (s : Sym) (ks : List TokenKind) :
    Runs (sym s) (.sym s :: ks) .nowhere ks :=
  run_expect _ _

@[simp] theorem run_keyword (k : Keyword) (ks : List TokenKind) :
    Runs (keyword k) (.keyword k :: ks) .nowhere ks :=
  run_expect _ _

@[simp] theorem run_accept_self (s : Sym) (ks : List TokenKind) :
    Runs (accept s) (.sym s :: ks) true ks := by
  simp [accept]

theorem run_accept_of_ne {s : Sym} {ks : List TokenKind} (h : ks.head? ≠ some (.sym s)) :
    Runs (accept s) ks false ks := by
  simp [accept, h]

@[simp] theorem run_ident (x : String) (ks : List TokenKind) :
    Runs ident (.ident x :: ks) (.plain x) ks := by
  simp [ident, Ident.plain]

theorem run_parens {p : Parser α} {ks rs : List TokenKind} {a : α}
    (h : Runs p ks a (.sym .rParen :: rs)) :
    Runs (parens p) (.sym .lParen :: ks) a rs := by
  simp [parens, h]

/-! ## Chains and suffixes -/

section
variable {operand : Parser α} {op? : TokenKind → Option (α → α → α)}

theorem run_chain {ks rs : List TokenKind} {a : α}
    (h : Runs operand ks a rs) :
    StateT.run (chain operand op?) (bareInput ks) =
      StateT.run (chainFrom operand op? rs.length a) (bareInput rs) := by
  simp [chain, h]

theorem run_chainFrom_stop (n : Nat) (a : α) {rs : List TokenKind} (h : rs.head?.bind op? = none) :
    Runs (chainFrom operand op? n a) rs a rs := by
  cases n with
  | zero => rfl
  | succ n => simp [chainFrom, h]

theorem run_chainFrom_round (n : Nat) (a : α) {b : α} {k : TokenKind} {ks rs : List TokenKind}
    {combine : α → α → α} (hk : op? k = some combine)
    (h : Runs operand ks b rs) :
    StateT.run (chainFrom operand op? (n + 1) a) (bareInput (k :: ks)) =
      StateT.run (chainFrom operand op? n (combine a b)) (bareInput rs) := by
  simp [chainFrom, hk, h]

end

section
variable {suffix? : α → TokenKind → Option (Parser α)}

theorem run_suffixes {first : Parser α} {ks rs : List TokenKind} {a : α}
    (h : Runs first ks a rs) :
    StateT.run (suffixes first suffix?) (bareInput ks) =
      StateT.run (suffixesFrom suffix? rs.length a) (bareInput rs) := by
  simp [suffixes, h]

theorem run_suffixesFrom_stop (n : Nat) (a : α) {rs : List TokenKind}
    (h : rs.head?.bind (suffix? a) = none) :
    Runs (suffixesFrom suffix? n a) rs a rs := by
  cases n with
  | zero => rfl
  | succ n => simp [suffixesFrom, h]

theorem run_suffixesFrom_round (n : Nat) (a : α) {b : α} {k : TokenKind}
    {ks rs : List TokenKind} {suffix : Parser α} (hk : suffix? a k = some suffix)
    (h : Runs suffix (k :: ks) b rs) :
    StateT.run (suffixesFrom suffix? (n + 1) a) (bareInput (k :: ks)) =
      StateT.run (suffixesFrom suffix? n b) (bareInput rs) := by
  simp [suffixesFrom, hk, h]

end

/-! ## Lists -/

/-- Whether a parser reads the tokens of a layout, if what comes next may follow. -/
def Reads (p : Parser α) (follow : List TokenKind → Prop) (l : Layout) (a : α) : Prop :=
  ∀ rs : List TokenKind, follow rs → Runs p (l.kinds ++ rs) a rs

/-- Whether a token may be the first of a term, a name or a list. -/
def opens : TokenKind → Bool
  | .keyword _ | .int _ | .ident _ => true
  | .sym s => s == .lParen || s == .lBracket || s == .bang || s == .ellipsis
  | .eof => false

/-- Whether a layout begins with such a token. -/
def Opens (l : Layout) : Prop :=
  ∃ k ks, l.kinds = k :: ks ∧ opens k = true

section
variable {ι : Type} {p : Parser α} (follow : List TokenKind → Prop) {l : ι → Layout} {f : ι → α} {xs : List ι}

theorem run_itemsFrom {close : TokenKind} (hcomma : ∀ rs, follow (.sym .comma :: rs))
    (hclose : ∀ rs, follow (close :: rs)) (hne : close ≠ .sym .comma) (rs : List TokenKind) (x : ι) (n : Nat)
    (h : ∀ y ∈ x :: xs, Reads p follow (l y) (f y)) (hn : xs.length < n) :
    Runs (itemsFrom p n) ((Layout.commas ((x :: xs).map l)).kinds ++ close :: rs) ((x :: xs).map f)
      (close :: rs) := by
  induction xs generalizing x n with
  | nil =>
    obtain ⟨n, rfl⟩ : ∃ m, n = m + 1 := ⟨n - 1, by omega⟩
    have hx := h x (by simp) (close :: rs) (hclose rs)
    have hend : Runs (accept .comma) (close :: rs) _ _ := run_accept_of_ne (by simpa using hne)
    simp [itemsFrom, Layout.commas, hx, hend]
  | cons y ys ih =>
    obtain ⟨n, rfl⟩ : ∃ m, n = m + 1 := ⟨n - 1, by omega⟩
    have hrest := ih y n (fun z hz => h z (by simp [hz])) (by simpa using hn)
    have hx := h x (by simp) (.sym .comma :: ((Layout.commas ((y :: ys).map l)).kinds ++ close :: rs)) (hcomma _)
    rw [List.map_cons] at hrest hx
    simp [itemsFrom, Layout.kinds_commas_cons, hx, hrest]

theorem length_le_commas (x : ι) (h : ∀ y ∈ x :: xs, Opens (l y)) :
    xs.length < (Layout.commas ((x :: xs).map l)).kinds.length := by
  induction xs generalizing x with
  | nil =>
    obtain ⟨k, ks, hx, -⟩ := h x (by simp)
    simp [Layout.commas, hx]
  | cons y ys ih =>
    have := ih y fun z hz => h z (by simp [hz])
    rw [List.map_cons] at this
    simp only [List.map_cons, Layout.kinds_commas_cons, List.length_append, List.length_cons]
    omega

theorem run_items (x : ι) (h : ∀ y ∈ x :: xs, Reads p follow (l y) (f y) ∧ Opens (l y)) (close : Sym)
    (rs : List TokenKind) (hne : close ≠ .comma) (hcomma : ∀ rs, follow (.sym .comma :: rs))
    (hclose : ∀ rs, follow (.sym close :: rs)) :
    Runs (items p) ((Layout.commas ((x :: xs).map l)).kinds ++ .sym close :: rs) ((x :: xs).map f)
      (.sym close :: rs) := by
  have hlen := length_le_commas x fun y hy => (h y hy).2
  simp only [Runs, items, StateT.run_bind, run_remaining, ok_bind]
  exact run_itemsFrom follow hcomma hclose (by simpa using hne) rs x _ (fun y hy => (h y hy).1)
    (by simp only [List.length_append]; omega)

/-- **Items between commas.** -/
theorem run_itemsBefore (h : ∀ x ∈ xs, Reads p follow (l x) (f x) ∧ Opens (l x)) (close : Sym)
    (rs : List TokenKind) (hopen : opens (.sym close) = false) (hne : close ≠ .comma)
    (hcomma : ∀ rs, follow (.sym .comma :: rs)) (hclose : ∀ rs, follow (.sym close :: rs)) :
    Runs (itemsBefore close p) ((Layout.commas (xs.map l)).kinds ++ .sym close :: rs) (xs.map f)
      (.sym close :: rs) := by
  cases xs with
  | nil => simp [itemsBefore, Layout.commas]
  | cons x xs =>
    obtain ⟨k, ks, hk, ho⟩ : Opens (Layout.commas ((x :: xs).map l)) := by
      obtain ⟨k, ks, hx, ho⟩ := (h x (by simp)).2
      cases xs with
      | nil => exact ⟨k, ks, hx, ho⟩
      | cons y ys => exact ⟨k, _, by rw [List.map_cons, List.map_cons, Layout.kinds_commas_cons, hx]; rfl, ho⟩
    have hkc : k ≠ .sym close := by rintro rfl; simp [hopen] at ho
    have hitems := run_items follow x h close rs hne hcomma hclose
    rw [hk, List.cons_append] at hitems ⊢
    simpa [itemsBefore, hkc] using hitems

variable {goesOn : Option TokenKind → Bool}

/-- Whether a layout begins with a token that goes on. -/
def GoesOn (goesOn : Option TokenKind → Bool) (follow : List TokenKind → Prop) (l : Layout) : Prop :=
  ∃ k ks, l.kinds = k :: ks ∧ goesOn (some k) = true ∧ ∀ rs, follow (k :: rs)

theorem run_manyFrom {rs : List TokenKind} (hrs : follow rs) (hstop : goesOn rs.head? = false) (n : Nat)
    (h : ∀ x ∈ xs, Reads p follow (l x) (f x) ∧ GoesOn goesOn follow (l x)) (hn : xs.length ≤ n) :
    Runs (manyFrom goesOn p n) (xs.flatMap (fun x => (l x).kinds) ++ rs) (xs.map f) rs := by
  induction xs generalizing n with
  | nil => cases n <;> simp [manyFrom, hstop]
  | cons x xs ih =>
    obtain ⟨n, rfl⟩ : ∃ m, n = m + 1 := ⟨n - 1, by simp at hn; omega⟩
    obtain ⟨hx, k, ks, hk, hgo, -⟩ := h x (by simp)
    have hrest := ih n (fun y hy => h y (by simp [hy])) (by simpa using hn)
    have hread := hx (xs.flatMap (fun x => (l x).kinds) ++ rs) (by
      cases xs with
      | nil => exact hrs
      | cons y ys =>
        obtain ⟨-, k', ks', hy, -, hf⟩ := h y (by simp)
        simpa [hy] using hf _)
    rw [hk, List.cons_append] at hread
    simp [manyFrom, hk, hgo, hread, hrest]

/-- **Items one after the other.** -/
theorem run_many (h : ∀ x ∈ xs, Reads p follow (l x) (f x) ∧ GoesOn goesOn follow (l x)) (rs : List TokenKind)
    (hrs : follow rs) (hstop : goesOn rs.head? = false) :
    Runs (many goesOn p) (xs.flatMap (fun x => (l x).kinds) ++ rs) (xs.map f) rs := by
  have hlen : xs.length ≤ (xs.flatMap fun x => (l x).kinds).length := by
    induction xs with
    | nil => simp
    | cons x xs ih =>
      obtain ⟨-, k, ks, hk, -⟩ := h x (by simp)
      have := ih fun y hy => h y (by simp [hy])
      simp only [List.flatMap_cons, hk, List.length_append, List.length_cons] at this ⊢
      omega
  simp only [Runs, many, StateT.run_bind, run_remaining, ok_bind]
  exact run_manyFrom follow hrs hstop _ h (by simp only [List.length_append]; omega)

end

end GameHop.Parser
