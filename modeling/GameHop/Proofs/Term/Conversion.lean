import GameHop.Proofs.Check.Runs
import GameHop.Proofs.Term.Core
import Mathlib.Data.List.Forall2

/-!
Bounds as expressions and back.
-/

namespace GameHop

/-! ## Parts of bounds -/

/-- The bounds that the root is made of. -/
def Bound.operands : Bound → List Bound
  | .paren _ b => [b]
  | .call _ _ args => args
  | .binary _ _ a b => [a, b]
  | .int .. | .lookup .. | .env .. => []

/-- Whether a bound is part of another one. -/
inductive Bound.IsPart (b : Bound) : Bound → Prop
  | self : IsPart b b
  | operand {c d : Bound} : c ∈ d.operands → IsPart b c → IsPart b d

theorem Bound.forall_isPart {P : Bound → Prop} {b : Bound} :
    (∀ c, c.IsPart b → P c) ↔ P b ∧ ∀ d ∈ b.operands, ∀ c, c.IsPart d → P c := by
  constructor
  · intro h
    exact ⟨h b .self, fun d hd c hc => h c (.operand hd hc)⟩
  · rintro ⟨hb, h⟩ c hc
    cases hc with
    | self => exact hb
    | operand hd hc => exact h _ hd c hc

mutual

/-- **Induction on operands.** -/
theorem Bound.inductOperands {P : Bound → Prop}
    (step : ∀ b : Bound, (∀ c ∈ b.operands, P c) → P b) : ∀ b : Bound, P b
  | .int .. | .lookup .. | .env .. => step _ (by simp [operands])
  | .paren _ b => step _ (by simpa [operands] using inductOperands step b)
  | .call _ _ args => step _ (by simpa [operands] using inductOperandsList step args)
  | .binary _ _ a b =>
    step _ (by
      simpa [operands] using ⟨inductOperands step a, inductOperands step b⟩)

theorem Bound.inductOperandsList {P : Bound → Prop}
    (step : ∀ b : Bound, (∀ c ∈ b.operands, P c) → P b) : ∀ bs : List Bound, ∀ b ∈ bs, P b
  | [] => by simp
  | b :: bs => by simpa using ⟨inductOperands step b, inductOperandsList step bs⟩

end

/-! ## Lists -/

theorem mapM_eq_ok_iff {α β ε : Type} {f : α → Except ε β} {as : List α} {bs : List β} :
    as.mapM f = .ok bs ↔ List.Forall₂ (fun a b => f a = .ok b) as bs := by
  induction as generalizing bs with
  | nil =>
    rw [List.mapM_nil, List.forall₂_nil_left_iff]
    exact ⟨fun h => (Except.ok.inj h).symm, fun h => h ▸ rfl⟩
  | cons a as ih =>
    rw [List.mapM_cons, List.forall₂_cons_left_iff]
    constructor
    · intro h
      obtain ⟨b, hb, h⟩ := except_bind_eq_ok h
      obtain ⟨bs, hbs, h⟩ := except_bind_eq_ok h
      exact ⟨b, bs, hb, ih.1 hbs, (Except.ok.inj h).symm⟩
    · rintro ⟨b, bs, hb, hbs, rfl⟩
      rw [hb, ih.2 hbs]
      rfl

theorem exists_forall₂ {α β : Type} {R : α → β → Prop} {as : List α} :
    (∃ bs, List.Forall₂ R as bs) ↔ ∀ a ∈ as, ∃ b, R a b := by
  induction as with
  | nil => simp
  | cons a as ih =>
    rw [List.forall_mem_cons, ← ih]
    constructor
    · rintro ⟨_, h⟩
      cases h with
      | cons hb hbs => exact ⟨⟨_, hb⟩, _, hbs⟩
    · rintro ⟨⟨b, hb⟩, bs, hbs⟩
      exact ⟨b :: bs, .cons hb hbs⟩

theorem forall₂_imp_of_mem {α β : Type} {P Q : α → β → Prop} {as : List α} {bs : List β}
    (h : ∀ a ∈ as, ∀ b, P a b → Q a b) (hbs : List.Forall₂ P as bs) : List.Forall₂ Q as bs :=
  ((List.forall₂_and_left as bs).2 ⟨h, hbs⟩).imp fun _ b hab => hab.1 b hab.2

/-- Lists that agree with a third one element by element. -/
theorem forall₂_of_common {α β γ : Type} {P : α → β → Prop} {Q : α → γ → Prop} {R : β → γ → Prop}
    {as : List α} {bs : List β} {cs : List γ} (h : ∀ a ∈ as, ∀ b c, P a b → Q a c → R b c)
    (hbs : List.Forall₂ P as bs) (hcs : List.Forall₂ Q as cs) : List.Forall₂ R bs cs := by
  induction hbs generalizing cs with
  | nil =>
    cases hcs
    exact .nil
  | cons hb _ ih =>
    rw [List.forall_mem_cons] at h
    cases hcs with
    | cons hc hcs => exact .cons (h.1 _ _ hb hc) (ih h.2 hcs)

/-- Results for the elements of a list, chosen with equal images. -/
theorem exists_forall₂_map_eq {α β γ δ : Type} {R : β → γ → Prop} {f : α → δ} {g : γ → δ}
    {as : List α} {bs : List β} (h : List.Forall₂ (fun a b => ∃ c, R b c ∧ g c = f a) as bs) :
    ∃ cs, List.Forall₂ R bs cs ∧ cs.map g = as.map f := by
  induction h with
  | nil => exact ⟨[], .nil, rfl⟩
  | cons hab _ ih =>
    obtain ⟨c, hc, heq⟩ := hab
    obtain ⟨cs, hcs, heqs⟩ := ih
    exact ⟨c :: cs, .cons hc hcs, by rw [List.map_cons, List.map_cons, heq, heqs]⟩

namespace Bound

theorem toExprList_eq (bs : List Bound) : toExprList bs = bs.mapM toExpr := by
  induction bs with
  | nil => rfl
  | cons b bs ih => rw [toExprList, List.mapM_cons, ih]

theorem ofExprList_eq (es : List Expr) : ofExprList es = es.mapM ofExpr := by
  induction es with
  | nil => rfl
  | cons e es ih => rw [ofExprList, List.mapM_cons, ih]

theorem substituteList_eq (s : Substitution) (bs : List Bound) :
    substituteList s bs = bs.mapM (substitute s) := by
  induction bs with
  | nil => rfl
  | cons b bs ih => rw [substituteList, List.mapM_cons, ih]

/-! ## Runs by constructors -/

section
variable {s : Span} {b b' l r : Bound} {e : Expr} {op : BoundOp} {σ : Substitution}

theorem toExpr_paren : (Bound.paren s b).toExpr = .ok e ↔
    ∃ a, b.toExpr = .ok a ∧ .paren s none a = e := by
  rw [toExpr]
  cases b.toExpr <;> simp [bind, Except.bind, pure, Except.pure]

theorem toExpr_call {f : Ident} {args : List Bound} : (Bound.call s f args).toExpr = .ok e ↔
    ∃ es, List.Forall₂ (fun b e => b.toExpr = .ok e) args es ∧ .call s f es = e := by
  simp only [toExpr, toExprList_eq, ← mapM_eq_ok_iff]
  cases args.mapM toExpr <;> simp [bind, Except.bind, pure, Except.pure]

theorem toExpr_binary : (Bound.binary s op l r).toExpr = .ok e ↔
    ∃ o a c, arithOp? op = some o ∧ l.toExpr = .ok a ∧ r.toExpr = .ok c ∧
      .binary s (.arith o) a c = e := by
  rw [toExpr]
  cases arithOp? op <;> cases l.toExpr <;> cases r.toExpr <;>
    simp [bind, Except.bind, pure, Except.pure]

theorem substitute_paren : (Bound.paren s b).substitute σ = .ok b' ↔
    ∃ c, b.substitute σ = .ok c ∧ .paren s c = b' := by
  rw [substitute]
  cases b.substitute σ <;> simp [bind, Except.bind, pure, Except.pure]

theorem substitute_call {f : Ident} {args : List Bound} :
    (Bound.call s f args).substitute σ = .ok b' ↔
      ∃ bs, List.Forall₂ (fun b c => b.substitute σ = .ok c) args bs ∧ .call s f bs = b' := by
  simp only [substitute, substituteList_eq, ← mapM_eq_ok_iff]
  cases args.mapM (substitute σ) <;> simp [bind, Except.bind, pure, Except.pure]

theorem substitute_binary : (Bound.binary s op l r).substitute σ = .ok b' ↔
    ∃ c d, l.substitute σ = .ok c ∧ r.substitute σ = .ok d ∧ .binary s op c d = b' := by
  rw [substitute]
  cases l.substitute σ <;> cases r.substitute σ <;> simp [bind, Except.bind, pure, Except.pure]

theorem ofExpr_paren {label : Option Ident} : ofExpr (.paren s label e) = .ok b ↔
    ∃ c, ofExpr e = .ok c ∧ .paren s c = b := by
  rw [ofExpr]
  cases ofExpr e <;> simp [bind, Except.bind, pure, Except.pure]

theorem ofExpr_call {f : Ident} {args : List Expr} : ofExpr (.call s f args) = .ok b ↔
    ∃ bs, List.Forall₂ (fun e c => ofExpr e = .ok c) args bs ∧ .call s f bs = b := by
  simp only [ofExpr, ofExprList_eq, ← mapM_eq_ok_iff]
  cases args.mapM ofExpr <;> simp [bind, Except.bind, pure, Except.pure]

theorem ofExpr_binary {op : ArithOp} {x y : Expr} : ofExpr (.binary s (.arith op) x y) = .ok b ↔
    ∃ o c d, ofArithOp? op = some o ∧ ofExpr x = .ok c ∧ ofExpr y = .ok d ∧
      .binary s o c d = b := by
  rw [ofExpr]
  cases ofArithOp? op <;> cases ofExpr x <;> cases ofExpr y <;>
    simp [bind, Except.bind, pure, Except.pure]

end

theorem ofArithOp?_of_arithOp? {op : BoundOp} {o : ArithOp} (h : arithOp? op = some o) :
    ofArithOp? o = some op := by
  cases op <;> cases h <;> rfl

theorem arithOp?_of_ofArithOp? {op : BoundOp} {o : ArithOp} (h : ofArithOp? o = some op) :
    arithOp? op = some o := by
  cases o <;> cases h <;> rfl

/-! ## Bounds with expressions -/

/-- Whether the root is neither a context nor a power. -/
def isArithmetic : Bound → Bool
  | .env .. => false
  | .binary _ op _ _ => (arithOp? op).isSome
  | _ => true

theorem exists_toExpr {b : Bound} :
    (∃ e, b.toExpr = .ok e) ↔ ∀ c : Bound, c.IsPart b → c.isArithmetic = true := by
  induction b using Bound.inductOperands with
  | step b ih =>
    rw [forall_isPart, ← forall₂_congr ih]
    cases b with
    | int | lookup => simp [toExpr, isArithmetic, operands]
    | env => simp [toExpr, isArithmetic]
    | paren s b => simp [toExpr_paren, isArithmetic, operands]
    | call s f args => simp [toExpr_call, isArithmetic, operands, ← exists_forall₂]
    | binary s op l r =>
      simp only [toExpr_binary, isArithmetic, operands, Option.isSome_iff_exists, List.mem_cons,
        List.not_mem_nil, or_false, forall_eq_or_imp, forall_eq]
      grind

/-- **A bound is read back from its expression.** -/
theorem ofExpr_toExpr {b : Bound} {e : Expr} (h : b.toExpr = .ok e) : ofExpr e = .ok b := by
  induction b using Bound.inductOperands generalizing e with
  | step b ih =>
    cases b with
    | int | lookup =>
      cases h
      rfl
    | env => cases h
    | paren s b =>
      obtain ⟨a, ha, rfl⟩ := toExpr_paren.1 h
      exact ofExpr_paren.2 ⟨b, ih b (.head _) ha, rfl⟩
    | call s f args =>
      obtain ⟨es, hes, rfl⟩ := toExpr_call.1 h
      have hargs : List.Forall₂ (fun b e => ofExpr e = .ok b) args es :=
        forall₂_imp_of_mem (fun b hb e he => ih b hb he) hes
      exact ofExpr_call.2 ⟨args, hargs.flip, rfl⟩
    | binary s op l r =>
      obtain ⟨o, a, c, ho, ha, hc, rfl⟩ := toExpr_binary.1 h
      exact ofExpr_binary.2 ⟨op, l, r, ofArithOp?_of_arithOp? ho, ih l (.head _) ha,
        ih r (.tail _ (.head _)) hc, rfl⟩

/-- A bound that is read from an expression has that expression, but for labels. -/
theorem core_toExpr_of_ofExpr {b : Bound} {e : Expr} (h : ofExpr e = .ok b) :
    ∃ a, b.toExpr = .ok a ∧ a.core [] = e.core [] := by
  induction e using Expr.inductNode generalizing b with
  | step e ih =>
    cases e with
    | int | lookup =>
      cases h
      exact ⟨_, rfl, rfl⟩
    | paren s label e =>
      obtain ⟨c, hc, rfl⟩ := ofExpr_paren.1 h
      obtain ⟨a, ha, hcore⟩ := ih e (.head _) hc
      exact ⟨_, toExpr_paren.2 ⟨a, ha, rfl⟩, by rwa [Expr.core_paren, Expr.core_paren]⟩
    | call s f args =>
      obtain ⟨bs, hbs, rfl⟩ := ofExpr_call.1 h
      have hargs : List.Forall₂ (fun e b => ∃ a, b.toExpr = .ok a ∧ a.core [] = e.core []) args bs :=
        forall₂_imp_of_mem (fun e he b hb => ih e he hb) hbs
      obtain ⟨as, has, hcore⟩ := exists_forall₂_map_eq hargs
      exact ⟨_, toExpr_call.2 ⟨as, has, rfl⟩, by rw [Expr.core_call, Expr.core_call, hcore]⟩
    | binary s op x y =>
      cases op with
      | arith op =>
        obtain ⟨o, c, d, ho, hc, hd, rfl⟩ := ofExpr_binary.1 h
        obtain ⟨a, ha, hcore⟩ := ih x (.head _) hc
        obtain ⟨a', ha', hcore'⟩ := ih y (.tail _ (.head _)) hd
        exact ⟨_, toExpr_binary.2 ⟨op, a, a', arithOp?_of_ofArithOp? ho, ha, ha', rfl⟩,
          by rw [Expr.core_binary, Expr.core_binary, hcore, hcore']⟩
      | _ => cases h
    | _ => cases h

theorem core_toExpr_of_ofTerm {s : Span} {b : Bound} {e : Expr} (h : ofTerm s e = .ok b) :
    ∃ a, b.toExpr = .ok a ∧ a.core [] = e.core [] := by
  unfold ofTerm at h
  split at h
  · cases h
    exact ⟨_, rfl, rfl⟩
  · cases h
    exact ⟨_, rfl, rfl⟩
  · obtain ⟨c, hc, h⟩ := except_bind_eq_ok h
    cases h
    obtain ⟨a, ha, hcore⟩ := core_toExpr_of_ofExpr hc
    exact ⟨_, toExpr_paren.2 ⟨a, ha, rfl⟩, by rwa [Expr.core_paren]⟩

/-- **Substitution commutes with the conversion.** -/
theorem core_substitute {σ : Substitution} {b b' : Bound} {e : Expr} (h : b.toExpr = .ok e)
    (h' : b.substitute σ = .ok b') : ∃ a, b'.toExpr = .ok a ∧ a.core [] = e.core σ := by
  induction b using Bound.inductOperands generalizing e b' with
  | step b ih =>
    cases b with
    | int s n =>
      cases h
      cases h'
      exact ⟨_, rfl, rfl⟩
    | lookup s x =>
      cases h
      rw [substitute] at h'
      rw [Expr.core_lookup]
      cases hx : σ.get? x.name with
      | none =>
        rw [hx] at h'
        cases h'
        exact ⟨_, rfl, rfl⟩
      | some t =>
        rw [hx] at h'
        obtain ⟨a, ha, hcore⟩ := core_toExpr_of_ofTerm h'
        refine ⟨a, ha, hcore.trans ?_⟩
        rw [Expr.core, Expr.substitute_nil]
    | env => cases h
    | paren s b =>
      obtain ⟨a, ha, rfl⟩ := toExpr_paren.1 h
      obtain ⟨c, hc, rfl⟩ := substitute_paren.1 h'
      obtain ⟨a', ha', hcore⟩ := ih b (.head _) ha hc
      exact ⟨_, toExpr_paren.2 ⟨a', ha', rfl⟩, by rwa [Expr.core_paren, Expr.core_paren]⟩
    | call s f args =>
      obtain ⟨es, hes, rfl⟩ := toExpr_call.1 h
      obtain ⟨bs, hbs, rfl⟩ := substitute_call.1 h'
      have hargs : List.Forall₂ (fun e c => ∃ a, c.toExpr = .ok a ∧ a.core [] = e.core σ) es bs :=
        forall₂_of_common (fun b hb e c he hc => ih b hb he hc) hes hbs
      obtain ⟨as, has, hcore⟩ := exists_forall₂_map_eq hargs
      exact ⟨_, toExpr_call.2 ⟨as, has, rfl⟩, by rw [Expr.core_call, Expr.core_call, hcore]⟩
    | binary s op l r =>
      obtain ⟨o, a, c, ho, ha, hc, rfl⟩ := toExpr_binary.1 h
      obtain ⟨l', r', hl', hr', rfl⟩ := substitute_binary.1 h'
      obtain ⟨a', ha', hcore⟩ := ih l (.head _) ha hl'
      obtain ⟨c', hc', hcore'⟩ := ih r (.tail _ (.head _)) hc hr'
      exact ⟨_, toExpr_binary.2 ⟨o, a', c', ho, ha', hc', rfl⟩,
        by rw [Expr.core_binary, Expr.core_binary, hcore, hcore']⟩

/-- **Bounds as expressions.** A bound has an expression iff no part of it is a context or a power. It
    is read back from it. And if a substitution makes a bound of it, then that has an expression too:
    the one that the substitution makes of the expression, up to places and parentheses. -/
theorem toExpr_ofExpr_substitute (b : Bound) :
    ((∃ e, b.toExpr = .ok e) ↔
      (∀ s cs, ¬ (Bound.env s cs).IsPart b) ∧ ∀ s l r, ¬ (Bound.binary s .pow l r).IsPart b) ∧
    (∀ e, b.toExpr = .ok e → ofExpr e = .ok b) ∧
    ∀ (σ : Substitution) e b', b.toExpr = .ok e → b.substitute σ = .ok b' →
      ∃ a, b'.toExpr = .ok a ∧ a.simplify.bare = (e.substitute σ).simplify.bare := by
  refine ⟨?_, fun e => ofExpr_toExpr, fun σ e b' he hb' => ?_⟩
  · rw [exists_toExpr]
    constructor
    · intro h
      exact ⟨fun s cs hpart => Bool.false_ne_true (h _ hpart),
        fun s l r hpart => Bool.false_ne_true (h _ hpart)⟩
    · rintro ⟨henv, hpow⟩ c hc
      cases c with
      | env s cs => exact absurd hc (henv s cs)
      | binary s op l r =>
        cases op with
        | pow => exact absurd hc (hpow s l r)
        | _ => rfl
      | _ => rfl
  · obtain ⟨a, ha, hcore⟩ := core_substitute he hb'
    rw [← Expr.core_nil_substitute, Expr.core, Expr.core, Expr.substitute_nil,
      Expr.substitute_nil] at hcore
    exact ⟨a, ha, hcore⟩

/-- The bound `(n - 0) * f(n)` where `n` becomes `k + 1`. -/
theorem toExpr_ofExpr_substitute_successor :
    let n : Bound := .lookup .nowhere (.plain "n")
    let b : Bound := .binary .nowhere .mul
      (.paren .nowhere (.binary .nowhere .sub n (.int .nowhere 0))) (.call .nowhere (.plain "f") [n])
    let successor : Expr := .binary .nowhere (.arith .add) (.var "k") (.ofNat 1)
    let σ : Substitution := [("n", successor)]
    let difference : Expr := .binary .nowhere (.arith .sub) (.var "n") (.ofNat 0)
    let e : Expr := .binary .nowhere (.arith .mul) (.paren .nowhere none difference)
      (.call .nowhere (.plain "f") [.var "n"])
    b.toExpr = .ok e ∧ (∃ b', b.substitute σ = .ok b') ∧ ofExpr e = .ok b ∧
      ∀ b', b.substitute σ = .ok b' →
        ∃ a, b'.toExpr = .ok a ∧ a.simplify.bare = (e.substitute σ).simplify.bare :=
  ⟨rfl, ⟨_, rfl⟩, (toExpr_ofExpr_substitute _).2.1 _ rfl,
    fun b' => (toExpr_ofExpr_substitute _).2.2 _ _ b' rfl⟩

end Bound

end GameHop
