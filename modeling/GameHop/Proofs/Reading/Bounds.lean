import GameHop.Proofs.Reading.Layouts
import GameHop.Proofs.Reading.Terms

/-!
Bounds that are read from their layouts. Bounds contain expressions, as contexts of adversaries, but no expression
contains a bound, so that their grammar stands apart: sums, products, powers, which group to the right, and what no
operator opens.
-/

namespace GameHop.Parser

open Level

def boundRank? : TokenKind → Option Nat
  | .sym .lParen => some 3
  | .sym .caret => some 2
  | .sym .star | .sym .slash => some 1
  | .sym .plus | .sym .minus => some 0
  | _ => none

@[simp] theorem boundRank_close : boundRank? (.sym .rParen) = none ∧ boundRank? (.sym .rBracket) = none ∧
    boundRank? (.sym .comma) = none := by
  decide

def bounds : Grammar Bound where
  rank? := boundRank?
  first? _ := none
  second? _ := none
  top := 3
  parser
    | 0 => full.sumBound
    | 1 => full.productBound
    | 2 => full.powerBound
    | _ => full.primaryBound
  loop
    | 0 => .chain fun
      | .sym .plus => some (binaryBound .add)
      | .sym .minus => some (binaryBound .sub)
      | _ => none
    | 1 => .chain fun
      | .sym .star => some (binaryBound .mul)
      | .sym .slash => some (binaryBound .div)
      | _ => none
    | _ => .none
  start := full.primaryBoundFrom
  paren := .paren

theorem lawful_bounds : bounds.Lawful where
  chain {r op?} h := by
    rcases r with _ | _ | _ | _ <;> cases h <;> refine ⟨by decide, rfl, fun k combine hk => ?_⟩ <;>
      (dsimp only at hk; split at hk <;> first | rfl | cases hk)
  suffix := nofun
  primary _ := rfl
  loop_top _ := nofun
  loop_lt r _ _ h := by rcases r with _ | _ | r <;> cases h
  looser {r ks a rs} hr hl _ hrs h := by
    obtain rfl : r = 2 := by
      rcases r with _ | _ | _ | r
      · cases hl
      · cases hl
      · rfl
      · exact absurd hr (Nat.not_lt.2 (Nat.le_add_left 3 r))
    have hend := run_accept_of_ne (hrs.ne (k := .sym .caret) rfl (by decide))
    simp only [bounds] at h ⊢
    simp [powerBound, h, hend]
  start := by
    rw [show bounds.parser 0 = full.bound from full_bound.symm]
    rfl
  second _ _ := rfl
  first := rfl
  close := rfl

end GameHop.Parser

namespace GameHop

open GameHop.Parser

/-- Whether the parsers read the layouts of a bound as what it spells. -/
def Bound.Read (b : Bound) : Prop :=
  ∀ least : BoundPrec, bounds.Reads least.rank (b.layout least).kinds (b.spelled least)

theorem Bound.Read.run_bound {b : Bound} {rs : List TokenKind} (h : b.Read) (hrs : Stops boundRank? 0 rs) :
    Runs Level.full.bound ((b.layout .lowest).kinds ++ rs) (b.spelled .lowest) rs :=
  Level.full_bound ▸ (h .lowest).run lawful_bounds hrs

/-- Reading a bound that no operator opens. -/
theorem Bound.read_of_start {b : Bound} (k : TokenKind) (ks : List TokenKind) (build : Span → Bound)
    (ho : opens k = true) (hb : ∀ least, (b.layout least).kinds = k :: ks ∧ b.spelled least = build .nowhere)
    (h : ∀ rs, Stops boundRank? 3 rs → Runs (Level.full.primaryBoundFrom ⟨k, .nowhere⟩) (ks ++ rs) build rs) :
    b.Read := by
  intro least
  rw [(hb least).1, (hb least).2]
  exact (Grammar.reads_start lawful_bounds build (fun _ _ => rfl) h ho rfl).loosen lawful_bounds
    (by cases least <;> decide)

/-- Reading an operation, in parentheses where its level asks for them. -/
theorem Bound.read_of_own {b : Bound} (own : BoundPrec) (a : Bound) (inner : Layout)
    (hb : ∀ least : BoundPrec,
      b.layout least = Layout.parensIf (own.rank < least.rank) inner ∧ b.spelled least = least.wrap own a)
    (h : bounds.Reads own.rank inner.kinds a) : b.Read := by
  intro least
  rw [(hb least).1, (hb least).2]
  exact h.place lawful_bounds (by cases least <;> decide)

/-! ## One constructor at a time -/

theorem Bound.read_int (s : Span) (v : UInt64) : (int s v).Read :=
  read_of_start (.int v) [] (int · v) rfl (fun _ => ⟨rfl, rfl⟩) fun _ _ => rfl

theorem Bound.read_lookup (s : Span) (x : Ident) : (lookup s x).Read := by
  refine read_of_start (.ident x.name) [] (lookup · x.bare) rfl (fun _ => ⟨rfl, rfl⟩) fun rs hrs => ?_
  have hparen := hrs.ne (k := .sym .lParen) rfl (by decide)
  simp [Level.primaryBoundFrom, hparen]
  rfl

theorem Bound.read_paren (s : Span) {b : Bound} (hb : b.Read) : (paren s b).Read :=
  read_of_start (.sym .lParen) ((b.layout .lowest).kinds ++ [.sym .rParen]) (paren · (b.spelled .lowest)) rfl
    (fun _ => ⟨by simp [layout], rfl⟩) fun rs _ => by simp [Level.primaryBoundFrom, hb.run_bound]

theorem Bound.read_env (s : Span) {cs : List Expr} (h : ∀ c ∈ cs, c.Read) : (env s cs).Read := by
  refine read_of_start (.keyword .env_) (Expr.contextLayout cs).kinds (env · (Expr.spelledContexts cs)) rfl (fun _ => ⟨rfl, rfl⟩)
    fun rs hrs => ?_
  simp [Level.primaryBoundFrom, Expr.run_contexts h (hrs.ne (k := .sym .lParen) rfl (by decide))]

theorem Bound.read_call (s : Span) (f : Ident) {args : List Bound} (h : ∀ b ∈ args, b.Read) :
    (call s f args).Read := by
  refine read_of_start (.ident f.name) (Layout.parens (Layout.commas (layouts args))).kinds
    (call · f.bare (spelledList args)) rfl (fun _ => ⟨rfl, rfl⟩) fun rs _ => ?_
  have hargs := run_parens (run_itemsBefore (Stops boundRank? 0)
    (fun b hb => ⟨fun rs hrs => (h b hb).run_bound hrs, (h b hb .lowest).plain.opens⟩) .rParen rs rfl (by simp) (by simp) (by simp))
  rw [← layouts_eq, ← spelledList_eq] at hargs
  simp [Level.primaryBoundFrom, hargs]
  rfl

/-- Reading an operation that groups to the left. -/
theorem Bound.read_chain (own right : BoundPrec) (s : Span) {op : BoundOp} {a b : Bound} (ha : a.Read) (hb : b.Read)
    {op? : TokenKind → Option (Bound → Bound → Bound)} (hloop : bounds.loop own.rank = .chain op?)
    (hop : op? (.sym op.sym) = some (binaryBound op)) (hright : right.rank = own.rank + 1)
    (hprecs : op.precs = (own, own, right)) : (binary s op a b).Read := by
  refine read_of_own own (.binary .nowhere op (a.spelled own) (b.spelled right))
    (Layout.infixed (a.layout own) op.sym (b.layout right)) (fun least => ?_) ?_
  · simp only [layout, spelled, hprecs, and_self]
  · have hround := (ha own).chain (hright ▸ hb right) lawful_bounds hloop hop rfl
    simpa [binaryBound] using hround

theorem Bound.read_pow (s : Span) {a b : Bound} (ha : a.Read) (hb : b.Read) : (binary s .pow a b).Read := by
  refine read_of_own .pow (.binary .nowhere .pow (a.spelled .primary) (b.spelled .pow))
    (Layout.infixed (a.layout .primary) .caret (b.layout .pow)) (fun _ => ⟨rfl, rfl⟩) ?_
  rw [Layout.kinds_infixed]
  refine Grammar.reads_of_run (by decide) rfl (((ha .primary).plain.mono (by decide)).append nofun _) fun rs hrs => ?_
  have hbase : Runs Level.full.primaryBound _ _ (.sym .caret :: ((b.layout .pow).kinds ++ rs)) :=
    (ha .primary).run lawful_bounds (by simp [bounds, boundRank?, BoundPrec.rank])
  have hexponent : Runs Level.full.powerBound _ _ _ := (hb .pow).run lawful_bounds hrs
  rw [← Level.full_power] at hexponent
  simp [bounds, BoundPrec.rank, Level.powerBound, hbase, hexponent, binaryBound]

mutual

/-- **A legible bound is read from its layouts.** -/
theorem Bound.read : ∀ b : Bound, b.Legible → b.Read
  | .int s v, _ => read_int s v
  | .lookup s x, _ => read_lookup s x
  | .paren s b, h => read_paren s (b.read h)
  | .call s f args, h => read_call s f (readAll args h.2)
  | .env s cs, h => read_env s (Expr.readContexts cs h)
  | .binary s op a b, h => by
    have ha := a.read h.1
    have hb := b.read h.2
    cases op with
    | add | sub => exact read_chain .lowest .mul s ha hb rfl rfl rfl rfl
    | mul | div => exact read_chain .mul .pow s ha hb rfl rfl rfl rfl
    | pow => exact read_pow s ha hb

theorem Bound.readAll : ∀ bs : List Bound, Bound.LegibleList bs → ∀ b ∈ bs, b.Read
  | [], _ => by simp
  | b :: bs, h => by
    simp only [List.forall_mem_cons]
    exact ⟨b.read h.1, readAll bs h.2⟩

end

end GameHop
