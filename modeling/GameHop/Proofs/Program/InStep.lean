import GameHop.Proofs.Program.Runs

/-!
Two ways to declare classes, run side by side. `InStep` says that two runs from one state go the
same way, with what they know of classes before and after, and that faults are shared or expected.
-/

namespace GameHop

/-- Whether a fault is about the classes of a program. -/
def CheckError.ofClasses : CheckError → Prop
  | .internal (.classRedefined _) | .internal (.classRenamed _) | .internal .classNotDeclared
  | .internal .classesUnbounded => True
  | _ => False

end GameHop

namespace GameHop.Program

/-- What may come of two runs when the first one fails. -/
structure Faults where
  /-- The faults after which nothing is said of the second run. -/
  lost : CheckError → Prop
  /-- The faults that both runs may have. -/
  shared : CheckError → Prop

namespace Faults

/-- Whether all faults that are not about classes are shared. -/
def Usual (F : Faults) : Prop :=
  ∀ e : CheckError, ¬ e.ofClasses → F.shared e

/-- All faults but some are shared. -/
def but (bad : CheckError → Prop) : Faults :=
  ⟨fun _ => False, fun e => ¬ bad e⟩

theorem but_usual {bad : CheckError → Prop} (h : ∀ e, bad e → e.ofClasses) : (but bad).Usual :=
  fun e he hbad => he (h e hbad)

end Faults

section
variable {σ α β : Type}

/-- Whether two runs from one state have the same result and end in the same state, or fail as they
    may. -/
def InStep (F : Faults) (I J : σ → Prop) (x y : StateT σ (Except CheckError) α) : Prop :=
  ∀ s, I s →
    (∃ a s', x.run s = .ok (a, s') ∧ y.run s = .ok (a, s') ∧ J s') ∨
    ∃ e, x.run s = .error e ∧ (F.lost e ∨ F.shared e ∧ y.run s = .error e)

namespace InStep

variable {F : Faults} {I J K : σ → Prop} {x y : StateT σ (Except CheckError) α}
  {f g : α → StateT σ (Except CheckError) β}

theorem done {a : α} : InStep F I I (pure a : StateT σ (Except CheckError) α) (pure a) :=
  fun s hs => .inl ⟨a, s, rfl, rfl, hs⟩

theorem refl (hF : ∀ e, F.shared e) (hJ : ∀ s, J s) : InStep F I J x x := by
  intro s _
  cases hx : x.run s with
  | error e => exact .inr ⟨e, rfl, .inr ⟨hF e, rfl⟩⟩
  | ok r => exact .inl ⟨r.1, r.2, rfl, rfl, hJ r.2⟩

theorem failed {e : CheckError} (h : F.shared e) :
    InStep F I J (throw e : StateT σ (Except CheckError) α) (throw e) :=
  fun _ _ => .inr ⟨e, rfl, .inr ⟨h, rfl⟩⟩

theorem lost {e : CheckError} (h : F.lost e) :
    InStep F I J (throw e : StateT σ (Except CheckError) α) x :=
  fun _ _ => .inr ⟨e, rfl, .inl h⟩

theorem bind (hx : InStep F I J x y) (hf : ∀ a, InStep F J K (f a) (g a)) :
    InStep F I K (x >>= f) (y >>= g) := by
  intro s hs
  obtain ⟨a, s', hxs, hys, hs'⟩ | ⟨e, hxs, he⟩ := hx s hs
  · rw [run_bind_of_ok hxs, run_bind_of_ok hys]
    exact hf a s' hs'
  · exact .inr ⟨e, run_bind_of_error hxs, he.imp_right (And.imp_right run_bind_of_error)⟩

theorem mono {I' J' : σ → Prop} (h : InStep F I J x y) (hI : ∀ s, I' s → I s)
    (hJ : ∀ s, J s → J' s) : InStep F I' J' x y := by
  intro s hs
  obtain ⟨a, s', hxs, hys, hs'⟩ | he := h s (hI s hs)
  · exact .inl ⟨a, s', hxs, hys, hJ s' hs'⟩
  · exact .inr he

/-- A fact that every state before a run shows. -/
theorem of_fact {p : Prop} (hp : ∀ s, I s → p) (h : p → InStep F I J x y) : InStep F I J x y :=
  fun s hs => h (hp s hs) s hs

theorem fault {s : σ} {e : CheckError} (h : InStep F I J x y) (hs : I s) (hx : x.run s = .error e) :
    F.lost e ∨ F.shared e := by
  obtain ⟨b, t, hxs, -⟩ | ⟨f, hxs, hf⟩ := h s hs
  · cases hxs.symm.trans hx
  · cases hxs.symm.trans hx
    exact hf.imp_right And.left

theorem of_ok {s s' : σ} {a : α} (h : InStep F I J x y) (hx : x.run s = .ok (a, s')) (hs : I s) :
    J s' := by
  obtain ⟨b, t, hxs, -, ht⟩ | ⟨e, hxs, -⟩ := h s hs
  · cases hxs.symm.trans hx
    exact ht
  · cases hxs.symm.trans hx

/-- A step that reads the state goes on with what it reads. -/
theorem read {f g : σ → StateT σ (Except CheckError) β}
    (h : ∀ s, I s → InStep F (· = s) J (f s) (g s)) : InStep F I J (get >>= f) (get >>= g) :=
  fun s hs => h s hs s rfl

theorem changed {u : σ → σ} (h : ∀ s, I s → J (u s)) :
    InStep F I J (modify u : StateT σ (Except CheckError) PUnit) (modify u) :=
  fun s hs => .inl ⟨⟨⟩, u s, rfl, rfl, h s hs⟩

theorem lifted {c : Except CheckError α} (h : ∀ e, c = .error e → F.shared e) :
    InStep F I I (liftM c : StateT σ (Except CheckError) α) (liftM c) := by
  intro s hs
  cases c with
  | error e => exact .inr ⟨e, rfl, .inr ⟨h e rfl, rfl⟩⟩
  | ok a => exact .inl ⟨a, s, rfl, rfl, hs⟩

theorem lifted_ok {c : Except CheckError α} {a : α} (hc : c = .ok a)
    (h : InStep F I J (f a) (g a)) : InStep F I J (liftM c >>= f) (liftM c >>= g) := by
  subst hc
  exact h

theorem lifted_error {c : Except CheckError α} {e : CheckError} (hc : c = .error e)
    (he : F.shared e) : InStep F I J (liftM c >>= f) (liftM c >>= g) := by
  subst hc
  exact fun _ _ => .inr ⟨e, rfl, .inr ⟨he, rfl⟩⟩

theorem forM {γ : Type} {f g : γ → StateT σ (Except CheckError) PUnit} {l : List γ}
    (h : ∀ c ∈ l, InStep F I I (f c) (g c)) : InStep F I I (l.forM f) (l.forM g) := by
  induction l with
  | nil => exact done
  | cons c l ih =>
    exact (h c List.mem_cons_self).bind fun _ => ih fun c hc => h c (List.mem_cons_of_mem _ hc)

theorem forM_append {γ : Type} {f g : γ → StateT σ (Except CheckError) PUnit} {l l' : List γ}
    (h : InStep F I J (l.forM f) (l.forM g)) (h' : InStep F J K (l'.forM f) (l'.forM g)) :
    InStep F I K ((l ++ l').forM f) ((l ++ l').forM g) := by
  rw [List.forM_eq_forM, List.forM_append, List.forM_append]
  exact h.bind fun _ => h'

theorem mapM {γ : Type} {f g : γ → StateT σ (Except CheckError) α} {l : List γ}
    (h : ∀ c ∈ l, InStep F I I (f c) (g c)) : InStep F I I (l.mapM f) (l.mapM g) := by
  induction l with
  | nil => exact done
  | cons c l ih =>
    rw [List.mapM_cons, List.mapM_cons]
    exact (h c List.mem_cons_self).bind fun _ =>
      (ih fun c hc => h c (List.mem_cons_of_mem _ hc)).bind fun _ => done

end InStep

end

/-! ## Coercions -/

/-- Whether a coercion depends on the sort alone, keeps different terms different, and can only fail
    because there is none. -/
def Faithful (c : Value → Value.Coercion) : Prop :=
  ∀ sort t u, (∃ r s, c ⟨sort, t⟩ = .error (.noCoercion r s) ∧ c ⟨sort, u⟩ = .error (.noCoercion r s)) ∨
    ∃ t' u', c ⟨sort, t⟩ = .ok t' ∧ c ⟨sort, u⟩ = .ok u' ∧ (t' = u' ↔ t = u)

theorem faithful_toBitstring : Faithful Value.toBitstring := by
  intro sort t u
  cases sort <;> first | exact .inl ⟨_, _, rfl, rfl⟩ | exact .inr ⟨_, _, rfl, rfl, by simp⟩

theorem faithful_toInteger : Faithful Value.toInteger := by
  intro sort t u
  cases sort <;> first | exact .inl ⟨_, _, rfl, rfl⟩ | exact .inr ⟨_, _, rfl, rfl, by simp⟩

theorem faithful_toReal : Faithful Value.toReal := by
  intro sort t u
  cases sort <;> first | exact .inl ⟨_, _, rfl, rfl⟩ | exact .inr ⟨_, _, rfl, rfl, by simp⟩

theorem faithful_toBoolean : Faithful Value.toBoolean := by
  intro sort t u
  cases sort <;> first | exact .inl ⟨_, _, rfl, rfl⟩ | exact .inr ⟨_, _, rfl, rfl, by simp⟩

theorem faithful_toValue : Faithful Value.toValue := by
  intro sort t u
  cases sort <;> first | exact .inl ⟨_, _, rfl, rfl⟩ | exact .inr ⟨_, _, rfl, rfl, by simp⟩

theorem faithful_toObjectId : Faithful Value.toObjectId := by
  intro sort t u
  cases sort <;> first | exact .inl ⟨_, _, rfl, rfl⟩ | exact .inr ⟨_, _, rfl, rfl, by simp⟩

theorem faithful_toMemory : Faithful Value.toMemory := by
  intro sort t u
  cases sort <;> first | exact .inl ⟨_, _, rfl, rfl⟩ | exact .inr ⟨_, _, rfl, rfl, by simp⟩

theorem faithful_coerce (target : TermSort) : Faithful (Value.coerce · target) := by
  intro sort t u
  by_cases hsort : target = sort
  · exact .inr ⟨t, u, if_pos hsort, if_pos hsort, Iff.rfl⟩
  · simp only [Value.coerce, if_neg hsort]
    cases target with
    | value => exact faithful_toValue sort t u
    | integer => exact faithful_toInteger sort t u
    | boolean => exact faithful_toBoolean sort t u
    | real => exact faithful_toReal sort t u
    | bitstring => exact faithful_toBitstring sort t u
    | memory => exact faithful_toMemory sort t u
    | objectId => exact faithful_toObjectId sort t u
    | object | heap | expr => exact .inl ⟨_, _, rfl, rfl⟩

section
variable {σ : Type} {F : Faults} (hF : F.Usual) {I : σ → Prop} {c : Value → Value.Coercion}
  (hc : Faithful c) (v : Value)
include hF hc

theorem InStep.coerced :
    InStep F I I (liftM (orInternal (c v)) : StateT σ (Except CheckError) Term)
      (liftM (orInternal (c v))) := by
  refine lifted fun e he => ?_
  obtain ⟨r, s, hv, -⟩ | ⟨t, -, hv, -⟩ := hc v.sort v.term v.term
  · cases (congrArg orInternal hv).symm.trans he
    exact hF _ id
  · cases (congrArg orInternal hv).symm.trans he

theorem InStep.coercing {α : Type} {J : σ → Prop} {f g : Term → StateT σ (Except CheckError) α}
    (h : ∀ t, InStep F I J (f t) (g t)) :
    InStep F I J (liftM (orInternal (c v)) >>= f) (liftM (orInternal (c v)) >>= g) :=
  (coerced hF hc v).bind h

end

/-! ## Steps that change no classes -/

/-- A fact about the classes of a draft and the constants of classes. -/
abbrev ClassFact :=
  Classes → List String → Prop

/-- Whether a fact holds of the classes of a draft. -/
def Draft.Knows (I : ClassFact) (d : Draft) : Prop :=
  I d.classes d.constants.classIds

def BodyState.Knows (I : ClassFact) (s : BodyState) : Prop :=
  s.draft.Knows I

namespace Constants

theorem classIds_addField (c : Constants) (field : String) (w : Writer) :
    (c.addField field w).1.classIds = c.classIds := by
  rw [addField]
  split <;> rfl

theorem classIds_addFields (c : Constants) (fields : List String) (w : Writer) :
    (c.addFields fields w).1.classIds = c.classIds := by
  induction fields generalizing c w with
  | nil => rfl
  | cons f fields ih => exact (ih _ _).trans (classIds_addField c f w)

theorem classIds_addCheckpoint (c : Constants) (label : String) (w : Writer) :
    (c.addCheckpoint label w).1.classIds = c.classIds := by
  rw [addCheckpoint]
  split <;> rfl

theorem classIds_internExpr (c : Constants) (text : String) (w : Writer) :
    (c.internExpr text w).2.1.classIds = c.classIds := by
  rw [internExpr]
  split <;> rfl

end Constants

section
variable {α : Type} {F : Faults} {I J : ClassFact}

theorem run_onDraft (x : Build α) (s : BodyState) :
    (BuildBody.onDraft x).run s =
      (x.run s.draft).map fun r => (r.1, { s with draft := r.2 }) := by
  rw [BuildBody.onDraft, run_bind_of_ok (rfl : (get : BuildBody BodyState).run s = .ok (s, s)),
    StateT.run_bind]
  cases x.run s.draft <;> rfl

namespace InStep

theorem write {f : Writer → Writer} :
    InStep F (Draft.Knows I) (Draft.Knows I) (Build.write f) (Build.write f) :=
  changed fun _ h => h

theorem addFields {fields : List String} :
    InStep F (Draft.Knows I) (Draft.Knows I) (Build.addFields fields) (Build.addFields fields) :=
  changed fun d h => by
    show I d.classes _
    rw [Constants.classIds_addFields]
    exact h

theorem addCheckpoint {label : String} :
    InStep F (Draft.Knows I) (Draft.Knows I) (Build.addCheckpoint label)
      (Build.addCheckpoint label) :=
  changed fun d h => by
    show I d.classes _
    rw [Constants.classIds_addCheckpoint]
    exact h

theorem internExpr {text : String} :
    InStep F (Draft.Knows I) (Draft.Knows I) (Build.internExpr text) (Build.internExpr text) :=
  fun d h => .inl ⟨_, _, rfl, rfl, by
    show I d.classes (d.constants.internExpr text d.out).2.1.classIds
    rw [Constants.classIds_internExpr]
    exact h⟩

theorem methodProcedure {method : String} {arity : Nat} :
    InStep F (Draft.Knows I) (Draft.Knows I) (Build.methodProcedure method arity)
      (Build.methodProcedure method arity) := by
  refine read fun d hd => ?_
  cases d.methods.get? method with
  | some name => exact done.mono (fun _ h => h ▸ hd) fun _ h => h
  | none =>
    refine mono (read fun e he => ?_) (fun _ h => h ▸ hd) fun _ h => h
    refine mono ?_ (fun _ h => h ▸ he) fun _ h => h
    exact write.bind fun _ => write.bind fun _ => bind (changed fun _ h => h) fun _ => done

theorem inFrame {kind : FrameKind} {symbols : List (String × Ty)} {x y : Build α}
    (h : InStep F (Draft.Knows I) (Draft.Knows J) x y) :
    InStep F (Draft.Knows I) (Draft.Knows J) (Build.inFrame kind symbols x)
      (Build.inFrame kind symbols y) :=
  bind (changed fun _ h => h) fun _ => bind (forM fun _ _ => changed fun _ h => h) fun _ =>
    h.bind fun _ => bind (changed fun _ h => h) fun _ => done

theorem onDraft {x y : Build α} (h : InStep F (Draft.Knows I) (Draft.Knows J) x y) :
    InStep F (BodyState.Knows I) (BodyState.Knows J) (BuildBody.onDraft x)
      (BuildBody.onDraft y) := by
  intro s hs
  rw [run_onDraft, run_onDraft]
  obtain ⟨a, d, hx, hy, hd⟩ | ⟨e, hx, he⟩ := h s.draft hs
  · rw [hx, hy]
    exact .inl ⟨a, { s with draft := d }, rfl, rfl, hd⟩
  · rw [hx]
    exact .inr ⟨e, rfl, he.imp_right fun ⟨hs, hy⟩ => ⟨hs, by rw [hy]; rfl⟩⟩

end InStep

end

end GameHop.Program
