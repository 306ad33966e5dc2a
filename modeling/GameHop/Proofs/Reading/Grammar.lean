import GameHop.Proofs.Reading.TermRuns

/-!
Grammars with levels. The parser of a level reads a term of the next tighter level and goes on as long as there are
operators or suffixes of its own level. A term of a level is a term of every looser level, and in parentheses a term
of every level (`Grammar.Reads.place`).
-/

namespace GameHop.Parser

variable {α : Type}

/-- Whether no term of a level from `least` on can go on with these tokens. -/
def Stops (rank? : TokenKind → Option Nat) (least : Nat) (rs : List TokenKind) : Prop :=
  ∀ k ∈ rs.head?, ∀ r ∈ rank? k, r < least

section
variable {rank? : TokenKind → Option Nat} {m n r : Nat} {k : TokenKind} {rs : List TokenKind}

@[simp] theorem stops_nil : Stops rank? n [] := by
  simp [Stops]

@[simp] theorem stops_cons : Stops rank? n (k :: rs) ↔ ∀ r ∈ rank? k, r < n := by
  simp [Stops]

theorem Stops.mono (h : Stops rank? m rs) (hmn : m ≤ n) : Stops rank? n rs :=
  fun k hk r hr => Nat.lt_of_lt_of_le (h k hk r hr) hmn

theorem Stops.ne (h : Stops rank? n rs) (hk : rank? k = some r) (hr : n ≤ r) : rs.head? ≠ some k := by
  intro hnext
  have := h k hnext r hk
  omega

theorem Stops.bind_eq_none {β : Type} {f : TokenKind → Option β} (h : Stops rank? n rs)
    (hf : ∀ k b, f k = some b → rank? k = some n) : rs.head?.bind f = none := by
  refine Option.eq_none_iff_forall_ne_some.2 fun b hb => ?_
  obtain ⟨k, hk, hb⟩ := Option.bind_eq_some_iff.1 hb
  exact h.ne (hf k b hb) (Nat.le_refl n) hk

end

/-- How the parser of a level goes on after a term. -/
inductive Loop (α : Type) where
  | none
  | chain (op? : TokenKind → Option (α → α → α))
  | suffix (suffix? : α → TokenKind → Option (Parser α))

/-- The parsers of terms, from the loosest level to the level `top`. -/
structure Grammar (α : Type) where
  /-- The tightest level at which a token may go on after a term. Tokens past the last level change the meaning of
      the word before them. -/
  rank? : TokenKind → Option Nat
  /-- The tightest level at which no term begins with a token. -/
  first? : TokenKind → Option Nat
  /-- The tightest level at which a token is not the second one. -/
  second? : TokenKind → Option Nat
  top : Nat
  parser : Nat → Parser α
  loop : Nat → Loop α
  /-- What no operator opens, from its first token on. -/
  start : Token → Parser (Span → α)
  paren : Span → α → α

namespace Grammar

variable (G : Grammar α)

def primary : Parser α := do
  let t ← next
  let build ← G.start t
  return build (t.span.join (← prevSpan))

/-- What the parser of a level does after a first term. -/
def goOn (r n : Nat) (a : α) : Parser α :=
  match G.loop r with
  | .none => pure a
  | .chain op? => chainFrom (G.parser (r + 1)) op? n a
  | .suffix suffix? => suffixesFrom suffix? n a

/-- The level whose tokens stop the parser of a level before it goes on. -/
def limit (r : Nat) : Nat :=
  match G.loop r with
  | .none => r
  | _ => r + 1

/-- Whether the parser of a level comes to go on with `a` after the tokens. -/
def Takes (r : Nat) (ks : List TokenKind) (a : α) : Prop :=
  ∀ rs : List TokenKind, Stops G.rank? (G.limit r) rs → ∃ n, rs.length ≤ n ∧
    StateT.run (G.parser r) (bareInput (ks ++ rs)) = StateT.run (G.goOn r n a) (bareInput rs)

/-- Whether tokens begin like those of a term of a level. -/
structure Plain (own : Nat) (ks : List TokenKind) : Prop where
  opens : ∃ k ls, ks = k :: ls ∧ opens k = true
  first : ∀ k ∈ ks.head?, ∀ r ∈ G.first? k, own < r
  second : ∀ k ∈ ks.tail.head?, ∀ r ∈ G.second? k, own < r

/-- Whether the tokens are read as a term of a level. -/
structure Reads (r : Nat) (ks : List TokenKind) (a : α) : Prop where
  le_top : r ≤ G.top
  takes : G.Takes r ks a
  plain : G.Plain r ks

structure Lawful : Prop where
  chain : ∀ {r op?}, G.loop r = .chain op? → r < G.top ∧ G.parser r = chain (G.parser (r + 1)) op? ∧
    ∀ k combine, op? k = some combine → G.rank? k = some r
  suffix : ∀ {suffix?}, G.loop G.top = .suffix suffix? → G.parser G.top = suffixes G.primary suffix? ∧
    ∀ a k p, suffix? a k = some p → G.rank? k = some G.top
  primary : G.loop G.top = .none → G.parser G.top = G.primary
  loop_top : ∀ op?, G.loop G.top ≠ .chain op?
  loop_lt : ∀ r < G.top, ∀ suffix?, G.loop r ≠ .suffix suffix?
  looser : ∀ {r ks a rs}, r < G.top → G.loop r = .none → G.Plain (r + 1) ks → Stops G.rank? r rs →
    Runs (G.parser (r + 1)) (ks ++ rs) a rs → Runs (G.parser r) (ks ++ rs) a rs
  start : G.start ⟨.sym .lParen, .nowhere⟩ = do
    let a ← G.parser 0
    discard <| sym .rParen
    return (G.paren · a)
  second : ∀ k, opens k = true → G.second? k = none
  first : G.first? (.sym .lParen) = none
  close : G.rank? (.sym .rParen) = none

variable {G} {own r : Nat} {k : TokenKind} {ks ls rs : List TokenKind} {a b : α}

theorem le_limit (r : Nat) : r ≤ G.limit r := by
  unfold limit
  split <;> omega

theorem Plain.mono (h : G.Plain own ks) (hr : r ≤ own) : G.Plain r ks :=
  ⟨h.opens, fun k hk n hn => Nat.lt_of_le_of_lt hr (h.first k hk n hn),
    fun k hk n hn => Nat.lt_of_le_of_lt hr (h.second k hk n hn)⟩

theorem Plain.append (h : G.Plain own ks) (hk : ∀ n ∈ G.second? k, own < n) (ls : List TokenKind) :
    G.Plain own (ks ++ k :: ls) := by
  obtain ⟨k', ks, rfl, ho⟩ := h.opens
  refine ⟨⟨k', _, rfl, ho⟩, h.first, ?_⟩
  cases ks with
  | nil => simpa using hk
  | cons k'' ks => exact h.second

theorem plain_cons (ho : opens k = true) (hfirst : G.first? k = none)
    (hsecond : ∀ l ∈ ks.head?, G.second? l = none) : G.Plain own (k :: ks) :=
  ⟨⟨k, ks, rfl, ho⟩, by simp [hfirst], fun l hl n hn => by simp [hsecond l hl] at hn⟩

/-! ## Whole terms -/

/-- **What a level takes for a term it reads as one**, if nothing goes on after it. -/
theorem Reads.run (h : G.Reads r ks a) (hG : G.Lawful) (hrs : Stops G.rank? r rs) :
    Runs (G.parser r) (ks ++ rs) a rs := by
  obtain ⟨n, -, hrun⟩ := h.takes rs (hrs.mono (le_limit r))
  rw [Runs, hrun]
  unfold goOn
  split
  · rfl
  · rename_i op? hl
    exact run_chainFrom_stop n a (hrs.bind_eq_none (hG.chain hl).2.2)
  · rename_i suffix? hl
    obtain rfl : r = G.top := by
      refine Nat.le_antisymm h.le_top (Nat.le_of_not_lt fun hlt => ?_)
      exact hG.loop_lt r hlt suffix? hl
    exact run_suffixesFrom_stop n a (hrs.bind_eq_none ((hG.suffix hl).2 a))

theorem reads_of_run (hr : r ≤ G.top) (hl : G.loop r = .none) (hplain : G.Plain r ks)
    (h : ∀ rs, Stops G.rank? r rs → Runs (G.parser r) (ks ++ rs) a rs) : G.Reads r ks a := by
  refine ⟨hr, fun rs hrs => ⟨rs.length, Nat.le_refl _, ?_⟩, hplain⟩
  simp only [limit, goOn, hl] at hrs ⊢
  exact h rs hrs

/-- What no operator opens. -/
theorem reads_start (hG : G.Lawful) (build : Span → α) (hsecond : ∀ l ∈ ks.head?, G.second? l = none)
    (h : ∀ rs, Stops G.rank? (G.limit G.top) rs → Runs (G.start ⟨k, .nowhere⟩) (ks ++ rs) build rs)
    (ho : opens k = true) (hfirst : G.first? k = none) :
    G.Reads G.top (k :: ks) (build .nowhere) := by
  have hrun (rs : List TokenKind) (hrs : Stops G.rank? (G.limit G.top) rs) :
      Runs G.primary (k :: ks ++ rs) (build .nowhere) rs := by
    simp [primary, h rs hrs]
  refine ⟨Nat.le_refl _, fun rs hrs => ⟨rs.length, Nat.le_refl _, ?_⟩, plain_cons ho hfirst hsecond⟩
  cases hl : G.loop G.top with
  | none =>
    simp only [goOn, hl, hG.primary hl]
    exact hrun rs hrs
  | chain op? => exact absurd hl (hG.loop_top op?)
  | suffix suffix? => simpa only [goOn, hl, (hG.suffix hl).1] using run_suffixes (hrun rs hrs)

/-! ## Operators and suffixes -/

theorem Reads.chain {op? : TokenKind → Option (α → α → α)} {combine : α → α → α} (ha : G.Reads r ks a)
    (hb : G.Reads (r + 1) ls b) (hG : G.Lawful) (hl : G.loop r = .chain op?) (hk : op? k = some combine)
    (hsecond : G.second? k = none) : G.Reads r (ks ++ k :: ls) (combine a b) := by
  obtain ⟨-, -, hrank⟩ := hG.chain hl
  refine ⟨ha.le_top, fun rs hrs => ?_, ha.plain.append (by simp [hsecond]) ls⟩
  have hnext : Stops G.rank? (G.limit r) (k :: (ls ++ rs)) := by
    simp [limit, hl, hrank k combine hk]
  obtain ⟨n, hn, hrun⟩ := ha.takes _ hnext
  obtain ⟨n, rfl⟩ : ∃ m, n = m + 1 := ⟨n - 1, by simp at hn; omega⟩
  refine ⟨n, by simp at hn; omega, ?_⟩
  simp only [limit, goOn, hl] at hrs hrun ⊢
  rw [List.append_assoc, List.cons_append, hrun]
  exact run_chainFrom_round n a hk (hb.run hG hrs)

theorem Reads.suffix {suffix? : α → TokenKind → Option (Parser α)} {p : Parser α} (ha : G.Reads G.top ks a)
    (ls : List TokenKind) (hG : G.Lawful) (hl : G.loop G.top = .suffix suffix?) (hk : suffix? a k = some p)
    (hsecond : G.second? k = none) (hp : ∀ rs, Runs p (k :: (ls ++ rs)) b rs) :
    G.Reads G.top (ks ++ k :: ls) b := by
  refine ⟨ha.le_top, fun rs hrs => ?_, ha.plain.append (by simp [hsecond]) ls⟩
  have hnext : Stops G.rank? (G.limit G.top) (k :: (ls ++ rs)) := by
    simp [limit, hl, (hG.suffix hl).2 a k p hk]
  obtain ⟨n, hn, hrun⟩ := ha.takes _ hnext
  obtain ⟨n, rfl⟩ : ∃ m, n = m + 1 := ⟨n - 1, by simp at hn; omega⟩
  refine ⟨n, by simp at hn; omega, ?_⟩
  simp only [goOn, hl] at hrun ⊢
  rw [List.append_assoc, List.cons_append, hrun]
  exact run_suffixesFrom_round n a hk (hp rs)

/-! ## Looser levels -/

theorem Reads.ofTighter (h : G.Reads (r + 1) ks a) (hG : G.Lawful) : G.Reads r ks a := by
  have hlt : r < G.top := h.le_top
  have hplain := h.plain.mono (Nat.le_succ r)
  cases hl : G.loop r with
  | none =>
    exact reads_of_run (Nat.le_of_lt hlt) hl hplain fun rs hrs =>
      hG.looser hlt hl h.plain hrs (h.run hG (hrs.mono (Nat.le_succ r)))
  | chain op? =>
    refine ⟨Nat.le_of_lt hlt, fun rs hrs => ⟨rs.length, Nat.le_refl _, ?_⟩, hplain⟩
    simp only [limit, goOn, hl] at hrs ⊢
    rw [(hG.chain hl).2.1]
    exact run_chain (h.run hG hrs)
  | suffix suffix? => exact absurd hl (hG.loop_lt r hlt suffix?)

/-- **A term of a level is a term of every looser level.** -/
theorem Reads.loosen (h : G.Reads own ks a) (hG : G.Lawful) (hr : r ≤ own) : G.Reads r ks a := by
  obtain ⟨n, rfl⟩ := Nat.exists_eq_add_of_le hr
  induction n with
  | zero => exact h
  | succ n ih => exact ih (h.ofTighter hG) (Nat.le_add_right ..)

theorem Reads.parens (h : G.Reads own ks a) (hG : G.Lawful) :
    G.Reads G.top (.sym .lParen :: (ks ++ [.sym .rParen])) (G.paren .nowhere a) := by
  refine reads_start hG (G.paren · a) ?_ (fun rs _ => ?_) rfl hG.first
  · obtain ⟨k, ls, rfl, ho⟩ := h.plain.opens
    simp [hG.second k ho]
  · have hrun : Runs (G.parser 0) _ a (.sym .rParen :: rs) :=
      (h.loosen hG (Nat.zero_le own)).run hG (by simp [hG.close])
    simp [hG.start, hrun]

/-- **A term is read at every level**, in parentheses if it needs them. -/
theorem Reads.place {l : Layout} (h : G.Reads own l.kinds a) (hG : G.Lawful) (hr : r ≤ G.top) :
    G.Reads r (Layout.parensIf (own < r) l).kinds (if own < r then G.paren .nowhere a else a) := by
  unfold Layout.parensIf
  by_cases hlt : own < r
  · simp only [hlt, decide_true, if_true, Layout.kinds_parens]
    exact (h.parens hG).loosen hG hr
  · simp only [hlt, decide_false, Bool.false_eq_true, if_false]
    exact h.loosen hG (Nat.le_of_not_lt hlt)

end Grammar

end GameHop.Parser
