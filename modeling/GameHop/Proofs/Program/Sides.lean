import GameHop.Proofs.Program.Writes
import Mathlib.Logic.Function.Basic

/-!
The two sides of a bisimulation share the variables of one procedure. Before the code of the right
method every variable that holds a value is reset, so that it does not matter what the left method
stored there.
-/

namespace GameHop.Program

/-! ## Running statements -/

/-- `x := defaultValue;` -/
def Stmt.reset (x : String) : Stmt :=
  .set (.name x) (.name "defaultValue")

theorem Stmt.writesList_reset (xs : List String) : writesList (xs.map reset) = xs := by
  induction xs with
  | nil => rfl
  | cons x xs ih => rw [List.map_cons, writesList, ih, reset, writes, Term.root?]; rfl

/-- A way to run statements on variables that hold values and on all other state. It may do anything
    that changes no variables but those that a statement names, except that a reset does what it
    says. -/
structure Machine where
  Val : Type
  Other : Type
  default : Val
  Step : Stmt → (String → Val) × Other → (String → Val) × Other → Prop
  step_frame : ∀ s σ τ, Step s σ τ → ∀ x ∉ s.writes, τ.1 x = σ.1 x
  step_reset : ∀ x σ τ, Step (.reset x) σ τ ↔ τ = (Function.update σ.1 x default, σ.2)

namespace Locals

/-- The variables that hold values. -/
def valueNames (l : Locals) : List String :=
  (l.vars.filter (·.2 == TermSort.value.name)).map (·.1)

theorem defaults_eq (l : Locals) : l.defaults = l.valueNames.map Stmt.reset := by
  rw [defaults, valueNames, List.map_map]
  rfl

end Locals

namespace Machine

variable (M : Machine)

/-- States: values of variables, and all other state. -/
abbrev State :=
  (String → M.Val) × M.Other

/-- Runs of statements from a state to another. -/
def Run : List Stmt → M.State → M.State → Prop
  | [], σ, τ => τ = σ
  | s :: ss, σ, υ => ∃ τ, M.Step s σ τ ∧ Run ss τ υ

/-- Whether two states differ at most in the given variables. -/
def DifferIn (xs : List String) (σ τ : M.State) : Prop :=
  (∀ y ∉ xs, σ.1 y = τ.1 y) ∧ σ.2 = τ.2

variable {M} {xs : List String} {σ τ υ : M.State}

theorem run_append {ss ts : List Stmt} :
    M.Run (ss ++ ts) σ υ ↔ ∃ τ, M.Run ss σ τ ∧ M.Run ts τ υ := by
  induction ss generalizing σ with
  | nil => simp [Run]
  | cons s ss ih =>
    simp only [List.cons_append, Run, ih]
    constructor
    · rintro ⟨τ₁, hs, τ₂, hss, hts⟩
      exact ⟨τ₂, ⟨τ₁, hs, hss⟩, hts⟩
    · rintro ⟨τ₂, ⟨τ₁, hs, hss⟩, hts⟩
      exact ⟨τ₁, hs, τ₂, hss, hts⟩

/-- A run changes no variables but those that its statements name. -/
theorem run_frame {ss : List Stmt} (h : M.Run ss σ τ) {x : String} (hx : x ∉ Stmt.writesList ss) :
    τ.1 x = σ.1 x := by
  induction ss generalizing σ with
  | nil => rw [h]
  | cons s ss ih =>
    obtain ⟨υ, hs, hss⟩ := h
    rw [Stmt.writesList, List.mem_append, not_or] at hx
    rw [ih hss hx.2, M.step_frame s σ υ hs x hx.1]

theorem run_defaults_value {l : Locals} (h : M.Run l.defaults σ τ) {x : String}
    (hx : x ∈ l.valueNames) : τ.1 x = M.default := by
  rw [Locals.defaults_eq] at h
  generalize l.valueNames = xs at h hx
  induction xs generalizing σ with
  | nil => exact (List.not_mem_nil hx).elim
  | cons y ys ih =>
    obtain ⟨υ, hy, hys⟩ := h
    by_cases hxs : x ∈ ys
    · exact ih hys hxs
    · obtain rfl : x = y := (List.mem_cons.1 hx).resolve_right hxs
      rw [run_frame hys (by rwa [Stmt.writesList_reset]), (M.step_reset x σ υ).1 hy]
      exact Function.update_self ..

/-- A reset leaves a difference in the other variables only. -/
theorem DifferIn.reset {x : String} (h : M.DifferIn (x :: xs) σ τ) :
    M.DifferIn xs (Function.update σ.1 x M.default, σ.2) (Function.update τ.1 x M.default, τ.2) := by
  refine ⟨fun y hy => ?_, h.2⟩
  by_cases hyx : y = x
  · simp [hyx]
  · simpa [Function.update_of_ne hyx] using h.1 y (by simp [hyx, hy])

theorem DifferIn.eq (h : M.DifferIn [] σ τ) : σ = τ :=
  Prod.ext (funext fun y => h.1 y List.not_mem_nil) h.2

/-- **What variables hold before they are reset does not matter.** -/
theorem run_defaults {l : Locals} (h : M.DifferIn l.valueNames σ τ) (ss : List Stmt) :
    M.Run (l.defaults ++ ss) σ υ ↔ M.Run (l.defaults ++ ss) τ υ := by
  rw [Locals.defaults_eq]
  generalize l.valueNames = xs at h
  induction xs generalizing σ τ with
  | nil => rw [h.eq]
  | cons x xs ih =>
    simp only [List.map_cons, List.cons_append, Run, M.step_reset, exists_eq_left]
    exact ih h.reset

end Machine

/-! ## The procedures of a bisimulation -/

namespace Bisimulation

variable {env : Environment} {b : Bisimulation} {invariants : List Term} {d d' : Draft}
  {p : Procedure}

/-- What the procedure of a method consists of. -/
theorem ok_of_methodPair {name : String} {left right : Method}
    (h : (b.methodPair env invariants name left right).run d = .ok (p, d')) :
    ∃ l r d₁ d₂ before handover after,
      (methodCode env b.left left
        (sharedArguments (max left.params.length right.params.length)) .empty).run d = .ok (l, d₁) ∧
      (methodCode env b.right right
        (sharedArguments (max left.params.length right.params.length)) l.locals).run d₁ =
          .ok (r, d₂) ∧
      p.declarations = r.locals.declarations ++ ["var initFunctionState : FunctionState;"] ∧
      p.body =
        before ++ l.code.body ++ (handover ++ r.locals.defaults) ++ r.code.body ++ after := by
  obtain ⟨l, d₁, hl, h⟩ := ok_of_bind h
  obtain ⟨r, d₂, hr, h⟩ := ok_of_bind h
  obtain ⟨leftResult, -, h⟩ := ok_of_lift_bind h
  obtain ⟨rightResult, -, h⟩ := ok_of_lift_bind h
  obtain ⟨claims, d₃, -, h⟩ := ok_of_bind h
  obtain ⟨rfl, rfl⟩ := eq_of_pure h
  let enter := fun (side note : String) (labels : List String) =>
    [Stmt.keep "heap" (.name ("heap" ++ side)),
      .keep "objectMemory" (.name ("objectMemory" ++ side)),
      .keep "checkpoints" (.name "initCheckpoints")] ++ labels.flatMap Stmt.saveCheckpoint ++
      [.comment note]
  refine ⟨l, r, d₁, d₂,
    [.keep "initFunctionState" (.name "functionState")] ++ enter "1" "left method" l.labels ++
      r.locals.defaults,
    [.keep ("internal.r" ++ "1") leftResult] ++ saveSide "1" ++
      [.keep "functionState" (.name "initFunctionState")] ++ enter "2" "right method" r.labels,
    [.keep ("internal.r" ++ "2") rightResult] ++ saveSide "2" ++ claims, hl, hr, rfl, ?_⟩
  simp only [enter, runSide, List.append_assoc, List.cons_append, List.nil_append]

/-- What the procedure for a method name consists of. -/
theorem ok_of_methodNamed {name : String}
    (h : (b.methodNamed env invariants name).run d = .ok (p, d')) :
    ∃ left right, b.left.method? name = some left ∧ b.right.method? name = some right ∧
      (b.methodPair env invariants name left right).run d = .ok (p, d') := by
  rw [methodNamed] at h
  cases hl : b.left.method? name with
  | none =>
    rw [hl] at h
    cases h
  | some left =>
    cases hr : b.right.method? name with
    | none =>
      rw [hl, hr] at h
      cases h
    | some right =>
      rw [hl, hr] at h
      exact ⟨left, right, rfl, rfl, h⟩

/-- What stands before the initial values of the left object, after the resets. -/
def beforeObjects : List Stmt :=
  [.keep "initFunctionState" (.name "functionState"), .keep "initHeap" (.name "heap"),
    .comment "left new", .keep "checkpoints" (.name "initCheckpoints"),
    .keep "objectMemory" (.call "toMemory" [.name "defaultValue"])]

/-- What stands between the initial values of the left object and those of the right one. -/
def betweenObjects : List Stmt :=
  saveSide "1" ++
    [.keep "functionState" (.name "initFunctionState"), .keep "heap" (.name "initHeap"),
      .comment "right new", .keep "checkpoints" (.name "initCheckpoints"),
      .keep "objectMemory" (.call "toMemory" [.name "defaultValue"])]

/-- What the procedure that builds both objects consists of. -/
theorem ok_of_construction (h : (b.construction env invariants).run d = .ok (p, d')) :
    ∃ leftBody leftLabels locals₁ d₁ rightBody rightLabels locals d₂ after,
      (fieldsCode env .empty b.left.fields).run d = .ok ((leftBody, leftLabels, locals₁), d₁) ∧
      (fieldsCode env locals₁ b.right.fields).run d₁ = .ok ((rightBody, rightLabels, locals), d₂) ∧
      p.declarations =
        ["var initFunctionState : FunctionState;", "var initHeap : Heap;"] ++ locals.declarations ∧
      p.body =
        locals.defaults ++ beforeObjects ++ leftBody ++ betweenObjects ++ rightBody ++ after := by
  obtain ⟨⟨leftBody, leftLabels, locals₁⟩, d₁, hl, h⟩ := ok_of_bind h
  obtain ⟨⟨rightBody, rightLabels, locals⟩, d₂, hr, h⟩ := ok_of_bind h
  obtain ⟨claims, d₃, -, h⟩ := ok_of_bind h
  cases h
  refine ⟨leftBody, leftLabels, locals₁, d₁, rightBody, rightLabels, locals, d₂,
    saveSide "2" ++ claims, hl, hr, rfl, ?_⟩
  simp only [beforeObjects, betweenObjects, List.append_assoc, List.cons_append, List.nil_append]

theorem reset_not_mem_betweenObjects (x : String) : Stmt.reset x ∉ betweenObjects := by
  simp [betweenObjects, saveSide, Stmt.keep, Stmt.reset]

/-- The variables of the procedure that builds both objects, apart from those of the code. -/
def constructionState : List String :=
  ["initFunctionState", "initHeap", "functionState1"] ++ sharedState

/-- The code of initial values changes only variables that it declares and the state. -/
theorem writes_fieldsCode {locals locals' : Locals} {fs : List Field} {body : List Stmt}
    {labels : List String} (h : (fieldsCode env locals fs).run d = .ok ((body, labels, locals'), d')) :
    locals.names ⊆ locals'.names ∧
      ∀ x ∈ Stmt.writesList body, x ∈ locals'.names ∨ x ∈ constructionState := by
  induction fs generalizing locals body labels d with
  | nil =>
    cases h
    exact ⟨fun _ h => h, fun x hx => (List.not_mem_nil hx).elim⟩
  | cons f fs ih =>
    obtain ⟨c, d₁, hc, h⟩ := ok_of_bind h
    obtain ⟨t, -, h⟩ := ok_of_lift_bind h
    obtain ⟨⟨body', labels', locals''⟩, d₂, hfs, h⟩ := ok_of_bind h
    obtain ⟨hresult, rfl⟩ := eq_of_pure h
    simp only [Prod.mk.injEq] at hresult
    obtain ⟨rfl, rfl, rfl⟩ := hresult
    obtain ⟨s, hrun, hlocals⟩ := ok_of_finishCode hc
    obtain ⟨hnames, hallows⟩ := Expr.emits_code rfl f.value _ _ _ hrun
    obtain ⟨hnames', hwrites⟩ := ih hfs
    rw [hlocals] at hnames'
    refine ⟨fun _ h => hnames' (hnames h), fun x hx => ?_⟩
    rw [Stmt.writesList_append, Stmt.writesList, List.mem_append, List.mem_append] at hx
    rcases hx with hx | hx | hx
    · rcases hallows s (fun _ h => h) x hx with h | h
      · exact .inl (hnames' h)
      · have hstate : ["heap", "checkpoints"] ⊆ constructionState := by decide
        exact .inr (hstate h)
    · rw [Stmt.writes, Term.root?, Term.root?, Option.mem_toList, Option.some.injEq] at hx
      exact .inr (hx ▸ by decide)
    · exact hwrites x hx

/-- **Where the two sides of a bisimulation meet in locals.** In the procedure of a method every local
    that holds a value is reset after the code of the left side and before the code of the right one,
    and the runs of the right side are the same whatever the locals held before. In the procedure
    that builds both objects nothing is reset between the sides: there a local that holds a value
    starts the right side with the default value unless the code of the left side declares it. -/
theorem sides_meet_in_locals (env : Environment) (b : Bisimulation) (invariants : List Term) :
    (∀ name d p d', (b.methodNamed env invariants name).run d = .ok (p, d') →
      ∃ left right l r d₁ d₂ before between after,
        b.left.method? name = some left ∧ b.right.method? name = some right ∧
        (methodCode env b.left left
          (sharedArguments (max left.params.length right.params.length)) .empty).run d =
            .ok (l, d₁) ∧
        (methodCode env b.right right
          (sharedArguments (max left.params.length right.params.length)) l.locals).run d₁ =
            .ok (r, d₂) ∧
        p.declarations = r.locals.declarations ++ ["var initFunctionState : FunctionState;"] ∧
        p.body = before ++ l.code.body ++ between ++ r.code.body ++ after ∧
        (∀ x ∈ r.locals.valueNames, Stmt.reset x ∈ between) ∧
        ∃ handover resets, between = handover ++ resets ∧
          ∀ (M : Machine) (σ τ υ : M.State), M.DifferIn r.locals.valueNames σ τ →
            (M.Run (resets ++ r.code.body) σ υ ↔ M.Run (resets ++ r.code.body) τ υ)) ∧
    (∀ d p d', (b.construction env invariants).run d = .ok (p, d') →
      ∃ leftBody leftLabels leftLocals d₁ rightBody rightLabels locals d₂ before between after,
        (fieldsCode env .empty b.left.fields).run d = .ok ((leftBody, leftLabels, leftLocals), d₁) ∧
        (fieldsCode env leftLocals b.right.fields).run d₁ =
          .ok ((rightBody, rightLabels, locals), d₂) ∧
        p.declarations =
          ["var initFunctionState : FunctionState;", "var initHeap : Heap;"] ++ locals.declarations ∧
        p.body = before ++ leftBody ++ between ++ rightBody ++ after ∧
        (∀ x, Stmt.reset x ∉ between) ∧
        ∀ (M : Machine) (σ τ : M.State), M.Run (before ++ leftBody ++ between) σ τ →
          ∀ x ∈ locals.valueNames, x ∉ leftLocals.names → x ∉ constructionState →
            τ.1 x = M.default) := by
  constructor
  · intro name d p d' h
    obtain ⟨left, right, hleft, hright, hpair⟩ := ok_of_methodNamed h
    obtain ⟨l, r, d₁, d₂, before, handover, after, hl, hr, hdecls, hbody⟩ := ok_of_methodPair hpair
    refine ⟨left, right, l, r, d₁, d₂, before, handover ++ r.locals.defaults, after, hleft, hright,
      hl, hr, hdecls, hbody, fun x hx => ?_, handover, r.locals.defaults, rfl, fun M σ τ υ hστ => ?_⟩
    · rw [Locals.defaults_eq]
      exact List.mem_append_right _ (List.mem_map_of_mem hx)
    · exact Machine.run_defaults hστ r.code.body
  · intro d p d' h
    obtain ⟨leftBody, leftLabels, leftLocals, d₁, rightBody, rightLabels, locals, d₂, after,
      hl, hr, hdecls, hbody⟩ := ok_of_construction h
    refine ⟨leftBody, leftLabels, leftLocals, d₁, rightBody, rightLabels, locals, d₂,
      locals.defaults ++ beforeObjects, betweenObjects, after, hl, hr, hdecls, hbody,
      reset_not_mem_betweenObjects, fun M σ τ hrun x hx hleft hstate => ?_⟩
    rw [List.append_assoc, List.append_assoc, Machine.run_append] at hrun
    obtain ⟨σ₁, hdefaults, hrun⟩ := hrun
    refine (Machine.run_frame hrun ?_).trans (Machine.run_defaults_value hdefaults hx)
    rw [Stmt.writesList_append, Stmt.writesList_append, List.mem_append, List.mem_append]
    have hbefore : Stmt.writesList beforeObjects ⊆ constructionState := by decide
    have hbetween : Stmt.writesList betweenObjects ⊆ constructionState := by decide
    rintro (h | h | h)
    · exact hstate (hbefore h)
    · exact ((writes_fieldsCode hl).2 x h).elim hleft hstate
    · exact hstate (hbetween h)

/-- The methods `t = 1` and `0 & (t = 2); t`, of objects with the initial values `1` and
    `0 & (t = 2); t`. -/
theorem sides_meet_in_locals_conditional :
    let store := fun n : UInt64 => Expr.assign .nowhere (.plain "t") (.int .nowhere n)
    let maybe := Expr.seq .nowhere (.binary .nowhere (.logic .and) (.int .nowhere 0) (store 2))
      (.lookup .nowhere (.plain "t"))
    let b : Bisimulation := ⟨
      ⟨none, [⟨.nowhere, .plain "k", .int .nowhere 1⟩], [⟨.nowhere, .plain "m", [], store 1⟩]⟩,
      ⟨none, [⟨.nowhere, .plain "k", maybe⟩], [⟨.nowhere, .plain "m", [], maybe⟩]⟩, none⟩
    let value := fun n : UInt64 => Term.call "fromBitstring" [.call "fromInt" [.int n]]
    let code : List Stmt := [.keep "internal.tmp0" (value 0),
      .ifThen (.nonNil (.call "fromInt" [.int 0]))
        [.assign (.name "t") (value 2), .keep "internal.tmp0" (value 2)]]
    (∃ p d', (b.methodNamed (.ofConstants []) [] "m").run (.start (.ofConstants [])) = .ok (p, d') ∧
      "var t:T;" ∈ p.declarations ∧
      ∃ before between after,
        p.body = before ++ [.assign (.name "t") (value 1)] ++ between ++ code ++ after ∧
          Stmt.reset "t" ∈ between) ∧
    ∃ p d', (b.construction (.ofConstants []) []).run (.start (.ofConstants [])) = .ok (p, d') ∧
      "var t:T;" ∈ p.declarations ∧
      ∃ before after,
        p.body = before ++ (code ++
          [.set (.index (.name "objectMemory") (.name (fieldAttr "k"))) (.name "t")]) ++ after ∧
        ∀ (M : Machine) (σ τ : M.State), M.Run before σ τ → τ.1 "t" = M.default := by
  intro store maybe b value code
  obtain ⟨hmethods, hconstruction⟩ := sides_meet_in_locals (.ofConstants []) b []
  constructor
  · obtain ⟨left, right, l, r, d₁, d₂, before, between, after, hleft, hright, hl, hr, -, hbody, hreset,
      -⟩ := hmethods "m" (.start (.ofConstants [])) _ _ rfl
    cases hleft
    cases hright
    cases hl
    cases hr
    exact ⟨_, _, rfl, by decide, before, between, after, hbody, hreset "t" (by decide)⟩
  · obtain ⟨leftBody, leftLabels, leftLocals, d₁, rightBody, rightLabels, locals, d₂, before, between,
      after, hl, hr, -, hbody, -, hdefault⟩ := hconstruction (.start (.ofConstants [])) _ _ rfl
    cases hl
    cases hr
    exact ⟨_, _, rfl, by decide, _, after, hbody, fun M σ τ hrun =>
      hdefault M σ τ hrun "t" (by decide) (by decide) (by decide)⟩

/-- The initial values `t = 1` and `0 & (t = 2); t`: the left one is stored in `t`, nothing resets
    `t`, and the right one is read from it if its own assignment is not made. -/
theorem construction_leaks_local :
    let store := fun n : UInt64 => Expr.assign .nowhere (.plain "t") (.int .nowhere n)
    let maybe := Expr.seq .nowhere (.binary .nowhere (.logic .and) (.int .nowhere 0) (store 2))
      (.lookup .nowhere (.plain "t"))
    let b : Bisimulation := ⟨⟨none, [⟨.nowhere, .plain "k", store 1⟩], []⟩,
      ⟨none, [⟨.nowhere, .plain "k", maybe⟩], []⟩, none⟩
    let value := fun n : UInt64 => Term.call "fromBitstring" [.call "fromInt" [.int n]]
    let field := Term.index (.name "objectMemory") (.name (fieldAttr "k"))
    ∃ p d', (b.construction (.ofConstants []) []).run (.start (.ofConstants [])) = .ok (p, d') ∧
      "var t:T;" ∈ p.declarations ∧
      ∃ before between after,
        p.body = before ++ [.assign (.name "t") (value 1), .set field (value 1)] ++ between ++
          [.keep "internal.tmp0" (value 0),
            .ifThen (.nonNil (.call "fromInt" [.int 0]))
              [.assign (.name "t") (value 2), .keep "internal.tmp0" (value 2)],
            .set field (.name "t")] ++ after ∧
        "t" ∉ Stmt.writesList between := by
  refine ⟨_, _, rfl, by decide, [.reset "t", .reset "internal.tmp0"] ++ beforeObjects,
    betweenObjects, saveSide "2", rfl, by decide⟩

end Bisimulation

end GameHop.Program
