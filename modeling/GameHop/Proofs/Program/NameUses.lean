import GameHop.Proofs.Program.InStep

/-!
Names that formulas and code use. A formula with other terms for its names fails alike or has a
value of the same sort, which is the same value exactly if each name that is read has the same term
(`Formula.alike_value`).
-/

namespace GameHop

open Program

/-! ## Names that code uses -/

/-- A use of a name in code. -/
inductive Program.NameUse where
  | read (x : String)
  | assigned (x : String)

mutual

/-- The names that the term of a formula reads. -/
def Formula.nameUses : Formula → List NameUse
  | .lookup _ x => [.read x.name]
  | .paren _ p | .quant _ _ _ p | .unary _ _ p => p.nameUses
  | .binary _ _ a b | .index _ a b | .frame _ a b => a.nameUses ++ b.nameUses
  | .update _ a b c => a.nameUses ++ b.nameUses ++ c.nameUses
  | .call _ _ args => Formula.nameUsesList args
  | .sameObject _ a b => a.nameUses ++ b.nameUses
  | .independence _ h a b => h.nameUses ++ a.nameUses ++ b.nameUses
  | .objectIs _ o _ | .field _ o _ => o.nameUses
  | .frameHeap _ h k a b => h.nameUses ++ k.nameUses ++ a.nameUses ++ b.nameUses
  | .int _ _ | .bool _ _ | .env _ _ | .frameAll _ | .fieldsEqual _ | .fieldsEqualExcept _ _ => []

def Formula.nameUsesList : List Formula → List NameUse
  | [] => []
  | p :: ps => p.nameUses ++ Formula.nameUsesList ps

def ObjectTerm.nameUses : ObjectTerm → List NameUse
  | .side _ => []
  | .inHeap h p => h.nameUses ++ p.nameUses

def HeapTerm.nameUses : HeapTerm → List NameUse
  | .side _ => []
  | .inHeap h p => h.nameUses ++ p.nameUses

end

mutual

/-- The names that the code of an expression uses. The methods of an object are not part of the code
    that builds it. -/
def Expr.nameUses : Expr → List NameUse
  | .lookup _ x => [.read x.name]
  | .assign _ x e => .assigned x.name :: e.nameUses
  | .paren _ _ e | .unary _ _ e => e.nameUses
  | .seq _ a b | .binary _ _ a b | .index _ a b => a.nameUses ++ b.nameUses
  | .ternary _ a b c | .update _ a b c => a.nameUses ++ b.nameUses ++ c.nameUses
  | .call _ _ args => Expr.nameUsesList args
  | .invoke _ target _ _ args => target.nameUses ++ Expr.nameUsesList args
  | .new _ ⟨_, fields, _⟩ => Expr.nameUsesFields fields
  | .assert _ p | .assume _ p => p.nameUses
  | .int _ _ | .bool _ _ | .ellipsis _ | .hole _ => []

def Expr.nameUsesList : List Expr → List NameUse
  | [] => []
  | e :: es => e.nameUses ++ Expr.nameUsesList es

def Expr.nameUsesFields : List Field → List NameUse
  | [] => []
  | ⟨_, _, e⟩ :: fs => e.nameUses ++ Expr.nameUsesFields fs

end

/-! ## Code and the terms of names -/

namespace Program

/-- Whether a use of a name is the same with two tables of terms. An assignment also asks whether the
    name has a term at all: if not, it declares a variable. -/
def NameUse.SameIn (vars vars' : List (String × Term)) : NameUse → Prop
  | .read x => (vars.lookup x).getD (.name x) = (vars'.lookup x).getD (.name x)
  | .assigned x => vars.lookup x = vars'.lookup x

def SameUses (uses : List NameUse) (vars vars' : List (String × Term)) : Prop :=
  ∀ u ∈ uses, u.SameIn vars vars'

section
variable {us us' : List NameUse} {vars vars' : List (String × Term)}

theorem sameUses_append :
    SameUses (us ++ us') vars vars' ↔ SameUses us vars vars' ∧ SameUses us' vars vars' :=
  List.forall_mem_append

theorem SameUses.refl : SameUses us vars vars := by
  rintro (x | x) - <;> rfl

theorem SameUses.left (h : SameUses (us ++ us') vars vars') : SameUses us vars vars' :=
  fun u hu => h u (List.mem_append_left _ hu)

theorem SameUses.right (h : SameUses (us ++ us') vars vars') : SameUses us' vars vars' :=
  fun u hu => h u (List.mem_append_right _ hu)

end

/-! ## Formulas -/

/-- Whether two runs from one state end in one state with results in a relation, or fail as they may. -/
def Alike {α : Type} (F : Faults) (I : ClassFact) (Q : α → α → Prop) (x y : Build α) : Prop :=
  ∀ d : Draft, d.Knows I →
    (∃ a b d', x.run d = .ok (a, d') ∧ y.run d = .ok (b, d') ∧ Q a b ∧ d'.Knows I) ∨
    ∃ e, x.run d = .error e ∧ (F.lost e ∨ F.shared e ∧ y.run d = .error e)

namespace Alike

variable {α β : Type} {F : Faults} {I : ClassFact} {Q : α → α → Prop} {P : β → β → Prop}
  {x y : Build α} {f g : α → Build β}

theorem done {a b : α} (h : Q a b) : Alike F I Q (pure a) (pure b) :=
  fun d hd => .inl ⟨a, b, d, rfl, rfl, h, hd⟩

theorem failed {e : CheckError} (h : F.shared e) : Alike F I Q (throw e) (throw e) :=
  fun _ _ => .inr ⟨e, rfl, .inr ⟨h, rfl⟩⟩

theorem bind (hx : Alike F I Q x y) (hf : ∀ a b, Q a b → Alike F I P (f a) (g b)) :
    Alike F I P (x >>= f) (y >>= g) := by
  intro d hd
  obtain ⟨a, b, d', hxd, hyd, hab, hd'⟩ | ⟨e, hxd, he⟩ := hx d hd
  · rw [run_bind_of_ok hxd, run_bind_of_ok hyd]
    exact hf a b hab d' hd'
  · exact .inr ⟨e, run_bind_of_error hxd, he.imp_right (And.imp_right run_bind_of_error)⟩

theorem of_inStep (h : InStep F (Draft.Knows I) (Draft.Knows I) x y) : Alike F I Eq x y := by
  intro d hd
  obtain ⟨a, d', hx, hy, hd'⟩ | he := h d hd
  · exact .inl ⟨a, a, d', hx, hy, rfl, hd'⟩
  · exact .inr he

theorem inStep (h : Alike F I Q x y) (hQ : ∀ a b, Q a b → a = b) :
    InStep F (Draft.Knows I) (Draft.Knows I) x y := by
  intro d hd
  obtain ⟨a, b, d', hx, hy, hab, hd'⟩ | he := h d hd
  · cases hQ a b hab
    exact .inl ⟨a, d', hx, hy, hd'⟩
  · exact .inr he

theorem after (hx : InStep F (Draft.Knows I) (Draft.Knows I) x y)
    (hf : ∀ a, Alike F I P (f a) (g a)) : Alike F I P (x >>= f) (y >>= g) :=
  (of_inStep hx).bind fun a _ hab => hab ▸ hf a

theorem of_fails (hx : InStep F (Draft.Knows I) (fun _ => False) x y) :
    Alike F I P (x >>= f) (y >>= g) := by
  intro d hd
  obtain ⟨_, _, -, -, hfalse⟩ | ⟨e, hxd, he⟩ := hx d hd
  · exact hfalse.elim
  · exact .inr ⟨e, run_bind_of_error hxd, he.imp_right (And.imp_right run_bind_of_error)⟩

theorem inFrame {kind : FrameKind} {symbols : List (String × Ty)} (h : Alike F I Q x y) :
    Alike F I Q (Build.inFrame kind symbols x) (Build.inFrame kind symbols y) :=
  .after (.changed fun _ h => h) fun _ => .after (.forM fun _ _ => .changed fun _ h => h) fun _ =>
    h.bind fun _ _ hab => .after (.changed fun _ h => h) fun _ => .done hab

end Alike

/-- Whether two values have one sort, and are the same exactly if a condition holds. -/
def Value.SameIff (S : Prop) (v w : Value) : Prop :=
  v.sort = w.sort ∧ (v.term = w.term ↔ S)

theorem Value.SameIff.eq {S : Prop} {v w : Value} (h : v.SameIff S w) (hS : S) : v = w := by
  obtain ⟨sort, t⟩ := v
  obtain ⟨sort', u⟩ := w
  exact congr (congrArg mk h.1) (h.2.2 hS)

section
variable {F : Faults} (hF : F.Usual) {I : ClassFact} {c : Value → Value.Coercion} {S : Prop}
  {v w : Value} (hc : Faithful c) (h : v.SameIff S w)
include hF hc h

theorem Alike.coerced :
    Alike F I (fun t u => t = u ↔ S) (liftM (orInternal (c v))) (liftM (orInternal (c w))) := by
  obtain ⟨sort, t⟩ := v
  obtain ⟨sort', u⟩ := w
  obtain ⟨rfl, hS⟩ := h
  obtain ⟨r, s, ht, hu⟩ | ⟨t', u', ht, hu, htu⟩ := hc sort t u
  · rw [ht, hu]
    exact .failed (hF _ id)
  · rw [ht, hu]
    exact .done (htu.trans hS)

theorem Alike.coercing {α : Type} {Q : α → α → Prop} {f g : Term → Build α}
    (hf : ∀ t u, (t = u ↔ S) → Alike F I Q (f t) (g u)) :
    Alike F I Q (liftM (orInternal (c v)) >>= f) (liftM (orInternal (c w)) >>= g) :=
  (coerced hF hc h).bind hf

end

end Program

section
variable {F : Faults} {I : ClassFact} {ctx : FormulaContext} {vars : List (String × Term)}
  {require : String → Build Unit} (hF : F.Usual)

include hF

theorem Program.FormulaContext.inStep_pair :
    InStep F (Draft.Knows I) (Draft.Knows I) ctx.pair ctx.pair := by
  rw [FormulaContext.pair]
  cases ctx.objects with
  | none => exact .failed (hF _ id)
  | some p => exact .done

theorem Program.FormulaContext.inStep_pureFunction (f : String) :
    InStep F (Draft.Knows I) (Draft.Knows I) (ctx.pureFunction f) (ctx.pureFunction f) := by
  rw [FormulaContext.pureFunction]
  cases ctx.env.functions.get? f with
  | none => exact .failed (hF _ id)
  | some decl =>
    dsimp only
    split
    · exact .done
    · exact .failed (hF _ id)

/-- Without objects to relate there is no heap. -/
theorem HeapTerm.inStep_fails (hnone : ctx.objects = none) (h : HeapTerm) :
    InStep F (Draft.Knows I) (fun _ => False) (h.term { ctx with vars }) (h.term { ctx with require }) := by
  cases h with
  | side s =>
    rw [term, term, FormulaContext.pair, FormulaContext.pair, hnone]
    exact .bind (.failed (hF _ id)) fun _ => .done
  | inHeap h p =>
    rw [term, term]
    exact (inStep_fails hnone h).bind fun _ _ hd => hd.elim

/-- Without objects to relate no object can be named. -/
theorem ObjectTerm.inStep_fails (hnone : ctx.objects = none) (o : ObjectTerm) :
    InStep F (Draft.Knows I) (fun _ => False) (o.value { ctx with vars }) (o.value { ctx with require }) := by
  cases o with
  | side s =>
    rw [value, value, FormulaContext.pair, FormulaContext.pair, hnone]
    exact .bind (.failed (hF _ id)) fun _ => .done
  | inHeap h p =>
    rw [value, value]
    exact (HeapTerm.inStep_fails hF hnone h).bind fun _ _ hd => hd.elim

variable (vars) (hrequire : ctx.objects ≠ none → ∀ c,
  InStep F (Draft.Knows I) (Draft.Knows I) (ctx.require c) (require c))

include hrequire

set_option linter.unusedSectionVars false

mutual

/-- **Terms show what names stand for.** With other terms for its names a formula fails alike or has
    a value of the same sort, which is the same value exactly if each name that is read has the same
    term. -/
theorem Formula.alike_value : ∀ p : Formula,
    Alike F I (Value.SameIff (SameUses p.nameUses vars ctx.vars)) (p.value { ctx with vars })
      (p.value { ctx with require })
  | .int _ _ | .bool _ _ => .done ⟨rfl, iff_of_true rfl nofun⟩
  | .lookup _ x => by
    refine .after (.read fun d hd => .mono .done (fun _ h => h ▸ hd) fun _ h => h) fun ty => ?_
    cases ty with
    | none => exact .failed (hF _ id)
    | some ty =>
      exact .done ⟨rfl, by simp [Formula.nameUses, SameUses, NameUse.SameIn, FormulaContext.termOf]⟩
  | .paren _ p =>
    (Formula.alike_value p).bind fun v w h => .done ⟨h.1, by simp [Formula.nameUses, h.2]⟩
  | .quant _ _ _ p =>
    .bind (.inFrame ((Formula.alike_value p).bind fun v w h => .coerced hF faithful_toBoolean h))
      fun t u h => .done ⟨rfl, by simp [Formula.nameUses, h]⟩
  | .unary _ .not p =>
    (Formula.alike_value p).bind fun v w h => .coercing hF faithful_toBoolean h fun t u ht =>
      .done ⟨rfl, by simp [Formula.nameUses, ht]⟩
  | .unary _ .tobits p =>
    (Formula.alike_value p).bind fun v w h => .coercing hF faithful_toBitstring h fun t u ht =>
      .done ⟨rfl, by simp [Formula.nameUses, ht]⟩
  | .unary _ .isBits p =>
    (Formula.alike_value p).bind fun v w h => .coercing hF faithful_toValue h fun t u ht =>
      .done ⟨rfl, by simp [Formula.nameUses, ht]⟩
  | .binary _ (.logic _) a b =>
    (Formula.alike_value a).bind fun _ _ ha => .coercing hF faithful_toBoolean ha fun _ _ ha =>
      (Formula.alike_value b).bind fun _ _ hb => .coercing hF faithful_toBoolean hb fun _ _ hb =>
        .done ⟨rfl, by simp [Formula.nameUses, sameUses_append, ha, hb]⟩
  | .binary _ (.compare op) a b =>
    (Formula.alike_value a).bind fun v v' ha => (Formula.alike_value b).bind fun w w' hb => by
      rw [ha.1, hb.1]
      exact .coercing hF (faithful_coerce _) ha fun _ _ ha => .coercing hF (faithful_coerce _) hb
        fun _ _ hb => .done ⟨rfl, by simp [Formula.nameUses, sameUses_append, ha, hb]⟩
  | .binary _ (.arith _) a b =>
    (Formula.alike_value a).bind fun _ _ ha => (Formula.alike_value b).bind fun _ _ hb =>
      .coercing hF faithful_toInteger ha fun _ _ ha => .coercing hF faithful_toInteger hb fun _ _ hb =>
        .done ⟨rfl, by simp [Formula.nameUses, sameUses_append, ha, hb]⟩
  | .call _ f args =>
    .after (FormulaContext.inStep_pureFunction hF f.name) fun decl => (Formula.alike_arguments args decl 0).bind fun _ _ h =>
      .done ⟨rfl, by simp [Formula.nameUses, h]⟩
  | .index _ a b =>
    (Formula.alike_value a).bind fun _ _ ha => (Formula.alike_value b).bind fun _ _ hb =>
      .coercing hF faithful_toMemory ha fun _ _ ha => .coercing hF faithful_toBitstring hb fun _ _ hb =>
        .done ⟨rfl, by simp [Formula.nameUses, sameUses_append, ha, hb]⟩
  | .update _ a b c =>
    (Formula.alike_value a).bind fun _ _ ha => (Formula.alike_value b).bind fun _ _ hb =>
      (Formula.alike_value c).bind fun _ _ hc => .coercing hF faithful_toMemory ha fun _ _ ha =>
        .coercing hF faithful_toBitstring hb fun _ _ hb => .coercing hF faithful_toValue hc fun _ _ hc =>
          .done ⟨rfl, by simp [Formula.nameUses, sameUses_append, ha, hb, hc]⟩
  | .env _ _ => .after .internExpr fun _ => .done ⟨rfl, iff_of_true rfl nofun⟩
  | .sameObject _ a b =>
    (ObjectTerm.alike_value a).bind fun _ _ ha => (ObjectTerm.alike_value b).bind fun _ _ hb =>
      .done ⟨rfl, by simp [Formula.nameUses, sameUses_append, ha.2, hb.2]⟩
  | .independence _ h a b =>
    (HeapTerm.alike_term h).bind fun _ _ hh => (Formula.alike_value a).bind fun _ _ ha =>
      .coercing hF faithful_toObjectId ha fun _ _ ha => (Formula.alike_value b).bind fun _ _ hb =>
        .coercing hF faithful_toObjectId hb fun _ _ hb =>
          .done ⟨rfl, by
            -- the term says it of both orders
            simp +contextual [Formula.nameUses, sameUses_append, hh, ha, hb, and_assoc]⟩
  | .objectIs _ o (.named c) => by
    by_cases hnone : ctx.objects = none
    · exact .of_fails (ObjectTerm.inStep_fails hF hnone o)
    · exact (ObjectTerm.alike_value o).bind fun _ _ ho => .after (hrequire hnone c.name) fun _ =>
        .after .done fun _ => .done ⟨rfl, by simp [Formula.nameUses, ho.2]⟩
  | .objectIs _ o .invalid =>
    (ObjectTerm.alike_value o).bind fun _ _ ho => .after .done fun _ =>
      .done ⟨rfl, by simp [Formula.nameUses, ho.2]⟩
  | .field _ o _ =>
    (ObjectTerm.alike_value o).bind fun _ _ ho => .coercing hF faithful_toMemory ho fun _ _ ho =>
      .done ⟨rfl, by simp [Formula.nameUses, ho]⟩
  | .frameAll _ | .fieldsEqual _ => .after (FormulaContext.inStep_pair hF) fun _ => .done ⟨rfl, iff_of_true rfl nofun⟩
  | .frame _ a b =>
    .after (FormulaContext.inStep_pair hF) fun _ => (Formula.alike_value a).bind fun _ _ ha =>
      .coercing hF faithful_toObjectId ha fun _ _ ha => (Formula.alike_value b).bind fun _ _ hb =>
        .coercing hF faithful_toObjectId hb fun _ _ hb =>
          .done ⟨rfl, by simp [Formula.nameUses, sameUses_append, ha, hb]⟩
  | .frameHeap _ h k a b =>
    (HeapTerm.alike_term h).bind fun _ _ hh => (HeapTerm.alike_term k).bind fun _ _ hk =>
      (Formula.alike_value a).bind fun _ _ ha => .coercing hF faithful_toObjectId ha fun _ _ ha =>
        (Formula.alike_value b).bind fun _ _ hb => .coercing hF faithful_toObjectId hb fun _ _ hb =>
          .done ⟨rfl, by simp [Formula.nameUses, sameUses_append, hh, hk, ha, hb]⟩
  | .fieldsEqualExcept _ excluded => by
    refine .after (FormulaContext.inStep_pair hF) fun p => ?_
    cases p.commonFields (excluded.map (·.name)) with
    | nil => exact .failed (hF _ id)
    | cons f fields => exact .done ⟨rfl, iff_of_true rfl nofun⟩

theorem Formula.alike_arguments : ∀ (ps : List Formula) (f : Function) (i : Nat),
    Alike F I (fun ts us => ts = us ↔ SameUses (Formula.nameUsesList ps) vars ctx.vars)
      (Formula.arguments { ctx with vars } f i ps) (Formula.arguments { ctx with require } f i ps)
  | [], _, _ => .done (iff_of_true rfl nofun)
  | p :: ps, f, i =>
    (Formula.alike_value p).bind fun _ _ h => .coercing hF (faithful_coerce _) h fun _ _ h =>
      (Formula.alike_arguments ps f (i + 1)).bind fun _ _ hs =>
        .done (by simp [Formula.nameUsesList, sameUses_append, h, hs])

theorem ObjectTerm.alike_value : ∀ o : ObjectTerm,
    Alike F I (Value.SameIff (SameUses o.nameUses vars ctx.vars)) (o.value { ctx with vars })
      (o.value { ctx with require })
  | .side _ => .after (FormulaContext.inStep_pair hF) fun _ => .done ⟨rfl, iff_of_true rfl nofun⟩
  | .inHeap h p =>
    (HeapTerm.alike_term h).bind fun _ _ hh => (Formula.alike_value p).bind fun _ _ hp =>
      .coercing hF faithful_toObjectId hp fun _ _ hp =>
        .done ⟨rfl, by simp [ObjectTerm.nameUses, sameUses_append, hh, hp]⟩

theorem HeapTerm.alike_term : ∀ h : HeapTerm,
    Alike F I (fun t u => t = u ↔ SameUses h.nameUses vars ctx.vars) (h.term { ctx with vars })
      (h.term { ctx with require })
  | .side _ => .after (FormulaContext.inStep_pair hF) fun _ => .done (iff_of_true rfl nofun)
  | .inHeap h p =>
    (HeapTerm.alike_term h).bind fun _ _ hh => (Formula.alike_value p).bind fun _ _ hp =>
      .coercing hF faithful_toObjectId hp fun _ _ hp =>
        .done (by simp [HeapTerm.nameUses, sameUses_append, hh, hp])

end

/-- **Formulas in step.** -/
theorem Formula.inStep_value (p : Formula) :
    InStep F (Draft.Knows I) (Draft.Knows I) (p.value ctx) (p.value { ctx with require }) :=
  (Formula.alike_value ctx.vars hF hrequire p).inStep fun _ _ h => h.eq .refl

theorem Formula.inStep_claim (p : Formula) :
    InStep F (Draft.Knows I) (Draft.Knows I) (p.claim ctx) (p.claim { ctx with require }) :=
  (Formula.inStep_value hF hrequire p).bind fun v => .coerced hF faithful_toBoolean v

end

/-- All faults are shared. -/
def Program.Faults.all : Faults :=
  ⟨fun _ => False, fun _ => True⟩

/-- The terms of names decide on the value of a formula, and on nothing else. -/
theorem Formula.value_cases (ctx : FormulaContext) (vars : List (String × Term)) (p : Formula)
    (d : Draft) :
    (∃ v w d', (p.value { ctx with vars }).run d = .ok (v, d') ∧ (p.value ctx).run d = .ok (w, d') ∧
      v.SameIff (SameUses p.nameUses vars ctx.vars) w) ∨
    ∃ e, (p.value { ctx with vars }).run d = .error e ∧ (p.value ctx).run d = .error e := by
  have hall (c : String) : InStep .all (Draft.Knows fun _ _ => True) (Draft.Knows fun _ _ => True)
      (ctx.require c) (ctx.require c) := .refl (fun _ => trivial) fun _ => trivial
  have h := p.alike_value vars (fun _ _ => trivial) fun _ => hall
  obtain ⟨v, w, d', hv, hw, hsame, -⟩ | ⟨e, hv, he⟩ := h d trivial
  · exact .inl ⟨v, w, d', hv, hw, hsame⟩
  · exact .inr ⟨e, hv, (he.resolve_left id).2⟩

theorem Formula.value_congr (ctx : FormulaContext) (vars : List (String × Term)) (p : Formula)
    (h : SameUses p.nameUses vars ctx.vars) : p.value { ctx with vars } = p.value ctx := by
  funext d
  obtain ⟨v, w, d', hv, hw, hsame⟩ | ⟨e, hv, hw⟩ := p.value_cases ctx vars d
  · rw [hsame.eq h] at hv
    exact hv.trans hw.symm
  · exact hv.trans hw.symm

/-! ## Code -/

section
variable (ctx : CodeContext) (vars : List (String × Term))

theorem Program.claimCode_congr (stmt : Term → Stmt) (p : Formula)
    (h : SameUses p.nameUses vars ctx.vars) :
    claimCode { ctx with vars } stmt p = claimCode ctx stmt p := by
  have hvalue : p.claim (CodeContext.ofFormulas { ctx with vars }) = p.claim ctx.ofFormulas := by
    rw [Formula.claim, Formula.claim, ← Formula.value_congr ctx.ofFormulas vars p h]
    rfl
  rw [claimCode, claimCode, hvalue]

mutual

/-- **Congruence of code.** -/
theorem Expr.code_congr : ∀ e : Expr, SameUses e.nameUses vars ctx.vars →
    e.code { ctx with vars } = e.code ctx
  | .int _ _, _ | .bool _ _, _ | .ellipsis _, _ | .hole _, _ => rfl
  | .lookup _ x, h => by
    have hx : CodeContext.termOf { ctx with vars } x.name = ctx.termOf x.name :=
      h (.read x.name) (List.mem_singleton_self _)
    simp only [code, hx]
  | .assign _ x e, h => by
    have hx : vars.lookup x.name = ctx.vars.lookup x.name := h (.assigned x.name) List.mem_cons_self
    have he := code_congr e fun u hu => h u (List.mem_cons_of_mem _ hu)
    simp only [code, CodeContext.termOf, he, hx]
  | .paren _ none e, h | .paren _ (some _) e, h | .unary _ .not e, h | .unary _ .ref e, h
  | .unary _ .tobits e, h => by
    simp only [code, code_congr e h]
  | .seq _ a b, h | .binary _ (.logic _) a b, h | .binary _ (.compare _) a b, h
  | .binary _ (.arith _) a b, h | .index _ a b, h => by
    simp only [code, code_congr a h.left, code_congr b h.right]
  | .ternary _ a b c, h | .update _ a b c, h => by
    simp only [code, code_congr a h.left.left, code_congr b h.left.right,
      code_congr c h.right]
  | .call _ _ args, h => by
    simp only [code, argumentCode_congr args h]
  | .invoke _ target _ _ args, h => by
    simp only [code, code_congr target h.left, codeList_congr args h.right]
    rfl
  | .new _ ⟨_, fields, _⟩, h => by
    simp only [code, fieldCode_congr fields h]
  | .assert _ p, h | .assume _ p, h => by
    simp only [code, claimCode_congr ctx vars _ p h]

theorem Expr.codeList_congr : ∀ es : List Expr, SameUses (nameUsesList es) vars ctx.vars →
    codeList { ctx with vars } es = codeList ctx es
  | [], _ => rfl
  | e :: es, h => by
    simp only [codeList, code_congr e h.left, codeList_congr es h.right]

theorem Expr.argumentCode_congr : ∀ es : List Expr,
    SameUses (nameUsesList es) vars ctx.vars → ∀ (f : Function) (i : Nat),
      argumentCode { ctx with vars } f i es = argumentCode ctx f i es
  | [], _, _, _ => rfl
  | e :: es, h, f, i => by
    simp only [argumentCode, code_congr e h.left, argumentCode_congr es h.right]

theorem Expr.fieldCode_congr : ∀ fs : List Field,
    SameUses (nameUsesFields fs) vars ctx.vars →
      fieldCode { ctx with vars } fs = fieldCode ctx fs
  | [], _ => rfl
  | ⟨_, _, e⟩ :: fs, h => by
    simp only [fieldCode, code_congr e h.left, fieldCode_congr fs h.right]

end

end

end GameHop
