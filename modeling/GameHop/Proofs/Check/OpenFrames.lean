import GameHop.Proofs.Check.Session

/-!
Frames that a failing declaration leaves open. A function, a postulate or an assumption whose names
are in order leaves the scope as it was.
-/

namespace GameHop

variable {α β : Type}

open CheckM

/-! ## Names that an item introduces -/

/-- The parameters of a function or an assumption. -/
def Item.paramNames : Item → List String
  | .function f => f.params.map (·.name.name)
  | .assumed s => s.params.map (·.name.name)
  | .imported _ | .constant _ | .postulate _ | .proved _ => []

/-- The parameters, fields, locals and quantified variables of an item. -/
def Item.introduced : Item → List String
  | .function f => (Item.function f).paramNames ++ (f.body.map Expr.introduced).getD []
  | .postulate p => p.claim.quantified
  | .assumed s => (Item.assumed s).paramNames ++ (s.left.introduced ++ s.right.introduced)
  | .imported _ | .constant _ | .proved _ => []

/-- An item declares what it introduces. -/
theorem Item.admitted_of_introduced {i : Item} (hi : i.isDeclaration = true) :
    i.Admitted ⟨{y | y ∈ i.introduced}, Set.univ⟩ := by
  cases i with
  | imported | constant | proved => cases hi
  | postulate p =>
    intro x hx
    refine ⟨?_, trivial⟩
    show x.name ∈ p.claim.quantified
    rw [Formula.quantified_eq]
    exact List.mem_map_of_mem hx
  | function f =>
    refine ⟨trivial, fun p hp => ⟨List.mem_append_left _ (List.mem_map_of_mem hp), trivial⟩, ?_⟩
    intro e he
    refine Expr.admitted_of_introduced fun y hy => List.mem_append_right _ ?_
    rw [he]
    exact hy
  | assumed s =>
    exact ⟨trivial, fun p hp => ⟨List.mem_append_left _ (List.mem_map_of_mem hp), trivial⟩,
      Expr.admitted_of_introduced fun y hy => List.mem_append_right _ (List.mem_append_left _ hy),
      Expr.admitted_of_introduced fun y hy => List.mem_append_right _ (List.mem_append_right _ hy)⟩

/-! ## Parameters -/

namespace NamingM

/-- Different names can be declared in a frame that has none of them. -/
theorem declareParams_ok {ps : List Param} (hps : (ps.map (·.name.name)).Nodup) (default : Ty)
    {n : Naming} {f : ScopeFrame} {base : List ScopeFrame} (hn : n.scope.frames = f :: base)
    (hf : ∀ p ∈ ps, p.name.name ∉ f.declared) :
    ∃ n', (declareParams default ps).run.run n = (.ok (), n') := by
  induction ps generalizing n f with
  | nil => exact ⟨n, rfl⟩
  | cons p ps ih =>
    rw [List.map_cons, List.nodup_cons] at hps
    rw [List.forall_mem_cons] at hf
    have hmay : n.scope.mayDeclare p.name.name = true := by
      have hp : (f.typeOf? p.name.name).isSome = false := by simpa [ScopeFrame.declared] using hf.1
      simp [Scope.mayDeclare, hn, Option.isNone_iff_eq_none, ← Option.not_isSome_iff_eq_none, hp]
    have hf' : ∀ q ∈ ps, q.name.name ∉ (f.declare p.name.name (p.ty.getD default)).declared := by
      intro q hq hmem
      rw [ScopeFrame.declared_declare] at hmem
      rcases hmem with hmem | hmem
      · exact hf.2 q hq hmem
      · exact hps.1 (List.mem_map.2 ⟨q, hq, hmem⟩)
    obtain ⟨n', hn'⟩ := ih hps.2
      (n := { n with scope := n.scope.declare p.name.name (p.ty.getD default) })
      (Scope.frames_declare hn _ _) hf'
    refine ⟨n', ?_⟩
    change (declareParam default p >>= fun _ => declareParams default ps).run.run n = _
    rw [run_bind, run_declareParam, if_pos hmay]
    exact hn'

/-- Parameters with different names stay declared in a frame, whatever is checked after them. -/
theorem declares_of_declareParams {ps : List Param} (hps : (ps.map (·.name.name)).Nodup)
    (default : Ty) (n : Naming) (kind : FrameKind) :
    ∃ n' f, (declareParams default ps).run.run { n with scope := n.scope.push kind } = (.ok (), n') ∧
      n'.scope.frames = f :: n.scope.frames ∧ ∀ p ∈ ps, p.name.name ∈ f.declared := by
  have hpush := n.scope.frames_push kind
  obtain ⟨n', hn'⟩ := declareParams_ok hps default (n := { n with scope := n.scope.push kind }) hpush
    fun q _ => by
      rw [ScopeFrame.declared_empty]
      exact id
  obtain ⟨f, hframes, hf⟩ := declared_of_declareParams hpush hn'
  refine ⟨n', f, hn', hframes, fun p hp => ?_⟩
  rw [hf]
  exact .inr (List.mem_map.2 ⟨p, hp, rfl⟩)

/-- Parameters in a frame of their own stay declared if what is checked after them fails. -/
theorem leads_inFrame {ps : List Param} (hps : (ps.map (·.name.name)).Nodup) {default : Ty}
    {kind : FrameKind} {x : NamingM Unit} (hx : Spills .all x) (n : Naming) :
    Leads (· = n) (inFrame kind do
      declareParams default ps
      x) (fun _ _ => True) fun _ n' => ∀ p ∈ ps, n'.scope.declares p.name.name = true := by
  obtain ⟨n₁, f, hn₁, hframes, hdeclared⟩ := declares_of_declareParams hps default n kind
  refine Leads.bind (Q := fun _ m => m = { n with scope := n.scope.push kind }) ?_ fun _ =>
    Leads.bind (Q := fun _ _ => True) (Leads.bind
      (Q := fun _ m => Allowance.all.Grown f n.scope.frames m.scope) ?_ fun _ =>
        (hx f _).mono (fun _ h => h) (fun _ _ _ => trivial)
          fun _ _ h p hp => h.2.declares (hdeclared p hp)) fun _ _ _ => trivial
  · rintro _ rfl
    rfl
  · rintro _ rfl
    rw [hn₁]
    exact Allowance.grown_self _ hframes

end NamingM

namespace Checker

section
variable {setup : CheckSetup α} {checkSource : SourceFile → CheckM α Unit} {file : SourceFile} {i : Item}
  {c c' : Checker α} {e : CheckError}

theorem leads_checkDeclaration (hi : i.isDeclaration = true) :
    Declares ⟨{y | y ∈ i.introduced}, Set.univ⟩ file i (checkItem setup checkSource file i) := by
  have ha := Item.admitted_of_introduced hi
  cases i with
  | function f => exact declares_checkFunction ha
  | postulate p => exact declares_checkPostulate ha
  | assumed s => exact declares_checkAssumption ha
  | imported | constant | proved => cases hi

theorem eq_of_refused (hrefused : i.isRefused = true)
    (h : (checkItem setup checkSource file i).run.run c = (.error e, c')) : c' = c := by
  cases i with
  | function f =>
    change (checkFunction file f).run.run c = _ at h
    unfold checkFunction at h
    rw [Item.isRefused] at hrefused
    rw [if_pos hrefused] at h
    exact (Prod.mk.inj h).2.symm
  | _ => cases hrefused

/-! ### Parameters -/

theorem declares_of_checkFunction {f : Function} (hf : (f.isPure && f.body.isSome) = false)
    (hparams : (f.params.map (·.name.name)).Nodup)
    (h : (checkFunction file f).run.run c = (.error e, c')) :
    ∀ p ∈ f.params, c'.scope.declares p.name.name = true := by
  have hleads : Leads (· = c) (checkFunction file f) (fun _ _ => True) fun _ c' =>
      ∀ p ∈ f.params, c'.scope.declares p.name.name = true := by
    unfold checkFunction
    rw [if_neg (by rw [hf]; exact Bool.false_ne_true)]
    refine leads_get.bind fun c₁ => Leads.bind ((leads_naming (NamingM.leads_inFrame hparams ?_
      ⟨c.scope, c.classes⟩) c).mono ?_ (fun _ _ _ => trivial) fun _ _ h => ?_) fun _ _ _ => trivial
    · cases f.body with
      | none => exact NamingM.spills_pure ()
      | some body => exact Expr.spills_check _ body.admitted_all
    · rintro _ rfl
      exact ⟨rfl, rfl⟩
    · obtain ⟨⟨o, hdeclares, -⟩, -⟩ := h
      exact hdeclares
  exact hleads.error rfl h

theorem declares_of_checkAssumption {s : Statement} (hparams : (s.params.map (·.name.name)).Nodup)
    (h : (checkAssumption file s).run.run c = (.error e, c')) :
    ∀ p ∈ s.params, c'.scope.declares p.name.name = true := by
  obtain ⟨n, g, hn, hframes, hdeclared⟩ :=
    NamingM.declares_of_declareParams hparams .value ⟨c.scope, c.classes⟩ .logical
  -- the frame of the parameters is open from the first step on, and no later step takes names out of it
  have hleads : Leads (· = c) (checkAssumption file s) (fun _ _ => True) fun _ c' =>
      ∀ p ∈ s.params, c'.scope.declares p.name.name = true := by
    refine Leads.bind (Q := fun _ _ => True) (Leads.bind (Q := fun _ c' =>
      Allowance.all.Grown g c.scope.frames c'.scope ∧ c.Renamed c') ?_ fun _ =>
        (leads_checkSides s.admitted_all c g _).mono (fun _ h => h) (fun _ _ _ => trivial)
          fun _ _ h p hp => h.2.1.declares (hdeclared p hp)) fun _ _ _ => trivial
    rintro c rfl
    rw [run_naming_push, run_naming, hn]
    exact ⟨Allowance.grown_self _ hframes, rfl⟩
  exact hleads.error rfl h

/-- A constant is declared in the innermost frame. -/
theorem frames_of_constant {k : Constant} {g : ScopeFrame} {rest : List ScopeFrame}
    (hc : c.scope.frames = g :: rest) (h : Ends (checkConstant file k) c () c') :
    c'.scope.frames = g.declare k.name.name (k.ty.getD .bits) :: rest := by
  obtain ⟨n, hdeclare, rfl⟩ := ends_naming h
  obtain ⟨-, rfl⟩ := NamingM.of_declareParam hdeclare
  exact Scope.frames_declare hc _ _

theorem declares_of_failed_declaration (hi : i.isDeclaration = true) (hrefused : i.isRefused = false)
    (hparams : i.paramNames.Nodup)
    (h : (checkItem setup checkSource file i).run.run c = (.error e, c')) :
    ∀ x ∈ i.paramNames, c'.scope.declares x = true := by
  cases i with
  | function f => exact List.forall_mem_map.2 (declares_of_checkFunction hrefused hparams h)
  | assumed s => exact List.forall_mem_map.2 (declares_of_checkAssumption hparams h)
  | postulate p => exact List.forall_mem_nil _
  | imported | constant | proved => cases hi

/-- **A declaration that fails leaves frames open**, unless it is refused before its names are looked at.
    The frames that were there are as before, and going back to their number would give back the scope.
    The frames above them declare only what the item introduces, its parameters among them if they have
    different names, and a constant that is declared next goes to the innermost of them. Apart from names
    and classes the state is as before. -/
theorem frames_of_failed_declaration (hi : i.isDeclaration = true)
    (h : (checkItem setup checkSource file i).run.run c = (.error e, c')) :
    ∃ opened, c'.scope.frames = opened ++ c.scope.frames ∧
      (opened = [] ↔ i.isRefused = true) ∧
      (c'.scope = c.scope ↔ i.isRefused = true) ∧
      (∀ g ∈ opened, ∀ x ∈ g.declared, x ∈ i.introduced) ∧
      (i.isRefused = false → i.paramNames.Nodup → ∀ x ∈ i.paramNames, c'.scope.declares x = true) ∧
      (∀ g rest, opened = g :: rest → ∀ file k c'', Ends (checkConstant file k) c' () c'' →
        c''.scope.frames =
          g.declare k.name.name (k.ty.getD .bits) :: (rest ++ c.scope.frames)) ∧
      c'.scope.truncate c.scope.depth = c.scope ∧
      { c' with scope := c.scope, classes := c.classes } = c := by
  cases hrefused : i.isRefused with
  | true =>
    obtain rfl := eq_of_refused hrefused h
    exact ⟨[], rfl, by simp, by simp, by simp, by simp, by simp,
      Scope.truncate_of_suffix (List.suffix_refl _), rfl⟩
  | false =>
    obtain ⟨-, hc, ⟨g, opened, hframes, hnames⟩ | ⟨-, hrefused'⟩⟩ :=
      (leads_checkDeclaration hi c).error rfl h
    case inr => rw [hrefused' hi] at hrefused; cases hrefused
    have hscope : c'.scope ≠ c.scope := by
      intro heq
      have hlength := congrArg List.length hframes
      rw [heq] at hlength
      simp at hlength
      omega
    refine ⟨opened ++ [g], by simp [hframes], by simp, by simp [hscope], fun g' hg' => ?_,
      fun _ hparams => declares_of_failed_declaration hi hrefused hparams h, ?_,
      Scope.truncate_of_suffix ⟨opened ++ [g], by simp [hframes]⟩, hc⟩
    · exact hnames g' (by simpa [or_comm] using hg')
    · intro g' rest hopened file k c'' hends
      exact frames_of_constant (by simp [hframes, ← List.cons_append, ← hopened]) hends

end

/-- `function name(params) { body }` -/
def functionItem (name : String) (params : List String) (body : Expr) : Item :=
  .function ⟨.nowhere, .plain name, false, false, params.map fun x => ⟨.nowhere, .plain x, none⟩, none,
    some body⟩

/-- An item checked in a source of its own. -/
def checkAlone (i : Item) : CheckM (Location × Question) Unit :=
  checkItem ⟨.record, .empty "/", []⟩ (fun _ => pure ()) ⟨"a.qvl", ""⟩ i

/-- A method that assigns a local and then reads a name that is not declared. -/
def nestedFailure : Item :=
  functionItem "f" ["x"] (.new .nowhere ⟨none, [⟨.nowhere, .plain "k", .ofNat 0⟩],
    [⟨.nowhere, .plain "m", [⟨.nowhere, .plain "p", none⟩],
      .seq .nowhere (.assign .nowhere (.plain "t") (.ofNat 1)) (.var "y")⟩]⟩)

/-- The frames of the method, of the object and of the function stay open. -/
theorem frames_of_nestedFailure : ∃ e c' opened,
    (checkAlone nestedFailure).run.run start = (.error e, c') ∧
      c'.scope.frames = opened ++ [⟨.constant, []⟩] ∧ opened.length = 3 ∧
      (∀ g ∈ opened, ∀ x ∈ g.declared, x ∈ ["x", "t", "k", "p"]) ∧
      c'.scope.declares "x" = true := by
  have hrun : (fun r : Except CheckError Unit × Checker (Location × Question) =>
      (r.1.toOption, r.2.scope.frames.length)) ((checkAlone nestedFailure).run.run start) =
        (none, 4) := by
    decide
  obtain ⟨hnone, hlength⟩ := Prod.mk.inj hrun
  obtain ⟨e, h⟩ := fails_of_toOption hnone
  obtain ⟨opened, hframes, -, -, hnames, hparams, -⟩ := frames_of_failed_declaration rfl h
  refine ⟨e, _, opened, h, hframes, ?_, hnames, hparams rfl (by decide) "x" (by decide)⟩
  have hopened := congrArg List.length hframes
  rw [hlength, List.length_append] at hopened
  exact Nat.succ.inj hopened.symm

/-- A function that fails leaves its parameter to an item that would be refused without it, and a constant
    that is declared next can be assigned. -/
theorem failed_function_leaves_parameter : ∃ e c',
    (checkAlone (functionItem "f" ["x"] (.var "y"))).run.run start = (.error e, c') ∧
      c'.scope ≠ (start : Checker (Location × Question)).scope ∧
      (∃ c'', Ends (checkAlone (functionItem "g" [] (.var "x"))) c' () c'') ∧
      (∃ e₀ c₀, (checkAlone (functionItem "g" [] (.var "x"))).run.run start = (.error e₀, c₀)) ∧
      ∃ c'', Ends (checkAlone (.constant ⟨.nowhere, .plain "k", none⟩)) c' () c'' ∧
        c''.scope.mayAssign "k" = true := by
  have hrun : (fun r : Except CheckError Unit × Checker (Location × Question) =>
      (r.1.toOption, r.2.scope.frames.length,
        ((checkAlone (functionItem "g" [] (.var "x"))).run.run r.2).1.toOption,
        (fun k : Except CheckError Unit × Checker (Location × Question) =>
          (k.1.toOption, k.2.scope.mayAssign "k"))
          ((checkAlone (.constant ⟨.nowhere, .plain "k", none⟩)).run.run r.2)))
      ((checkAlone (functionItem "f" ["x"] (.var "y"))).run.run start) =
        (none, 2, some (), some (), true) := by
    decide
  have hstart : ((checkAlone (functionItem "g" [] (.var "x"))).run.run start).1.toOption = none := by
    decide
  obtain ⟨hnone, hrest⟩ := Prod.mk.inj hrun
  obtain ⟨hlength, hrest⟩ := Prod.mk.inj hrest
  obtain ⟨hread, hconstant⟩ := Prod.mk.inj hrest
  obtain ⟨hconstant, hassign⟩ := Prod.mk.inj hconstant
  obtain ⟨e, h⟩ := fails_of_toOption hnone
  obtain ⟨e₀, h₀⟩ := fails_of_toOption hstart
  refine ⟨e, _, h, fun hscope => ?_, ⟨_, ends_of_toOption hread⟩, ⟨e₀, _, h₀⟩,
    ⟨_, ends_of_toOption hconstant, hassign⟩⟩
  rw [hscope] at hlength
  cases hlength

end Checker

end GameHop
