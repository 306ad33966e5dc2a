import GameHop.Check.Scope
import Mathlib.Data.List.Induction
import Mathlib.Data.List.Nodup

/-!
Scopes over time. A history is a list of steps on a scope; what it leaves in force is said by the
frames that are open after it, each with all declarations that were made in it.
-/

namespace GameHop.Scope

/-! ## Histories -/

/-- A step on a scope. -/
inductive Op where
  | push (kind : FrameKind)
  | pop
  | truncate (depth : Nat)
  | declare (name : String) (ty : Ty)

def Op.apply (s : Scope) : Op → Scope
  | push kind => s.push kind
  | pop => s.pop
  | truncate depth => s.truncate depth
  | declare x ty => s.declare x ty

/-- The scope after a history. -/
def run (s : Scope) (ops : List Op) : Scope :=
  ops.foldl Op.apply s

/-- A frame that is open, with the declarations made in it, the latest last. -/
structure OpenFrame where
  kind : FrameKind
  declared : List (String × Ty)

namespace OpenFrame

/-- The names in the order of their first declarations. -/
def names (o : OpenFrame) : List String :=
  (o.declared.map (·.1)).eraseDups

/-- The type that the latest declaration of a name gives it. -/
def latest? (o : OpenFrame) (x : String) : Option Ty :=
  o.declared.reverse.lookup x

/-- The frame of a scope: a name declared again keeps its place. -/
def frame (o : OpenFrame) : ScopeFrame :=
  o.declared.foldl (fun f p => f.declare p.1 p.2) ⟨o.kind, []⟩

end OpenFrame

/-- The open frames after one more step, the innermost first. -/
def Op.record (os : List OpenFrame) : Op → List OpenFrame
  | push kind => ⟨kind, []⟩ :: os
  | pop => os.tail
  | truncate depth => os.drop (os.length - depth)
  | declare x ty =>
    match os with
    | [] => []
    | o :: os => { o with declared := o.declared ++ [(x, ty)] } :: os

/-- The frames that a history leaves open. -/
def openFrames (ops : List Op) : List OpenFrame :=
  ops.foldl Op.record []

/-- The innermost open frame in which a name is declared. -/
def innermost? (ops : List Op) (x : String) : Option OpenFrame :=
  (openFrames ops).find? (x ∈ ·.names)

/-! ## Frames -/

theorem OpenFrame.frame_declare (o : OpenFrame) (x : String) (ty : Ty) :
    { o with declared := o.declared ++ [(x, ty)] }.frame = o.frame.declare x ty := by
  simp [frame]

theorem Op.apply_map_frame (os : List OpenFrame) (op : Op) :
    op.apply ⟨os.map OpenFrame.frame⟩ = ⟨(op.record os).map OpenFrame.frame⟩ := by
  cases op with
  | push kind => rfl
  | pop => simp [apply, record, Scope.pop, List.map_tail]
  | truncate depth => simp [apply, record, Scope.truncate, List.map_drop]
  | declare x ty =>
    cases os with
    | nil => rfl
    | cons o os => simp [apply, record, Scope.declare, OpenFrame.frame_declare]

/-- **The frames of a scope after a history.** -/
theorem frames_run (ops : List Op) :
    (empty.run ops).frames = (openFrames ops).map OpenFrame.frame := by
  suffices h : ∀ os, (Scope.mk (os.map OpenFrame.frame)).run ops =
      ⟨(ops.foldl Op.record os).map OpenFrame.frame⟩ by
    exact congrArg frames (h [])
  induction ops with
  | nil => exact fun os => rfl
  | cons op ops ih =>
    intro os
    rw [run, List.foldl_cons, Op.apply_map_frame]
    exact ih _

theorem OpenFrame.kind_frame (o : OpenFrame) : o.frame.kind = o.kind := by
  obtain ⟨kind, declared⟩ := o
  induction declared using List.reverseRecOn with
  | nil => rfl
  | append_singleton ps p ih => rwa [frame_declare ⟨kind, ps⟩ p.1 p.2]

theorem OpenFrame.names_frame (o : OpenFrame) : o.frame.names = o.names := by
  obtain ⟨kind, declared⟩ := o
  induction declared using List.reverseRecOn with
  | nil => rfl
  | append_singleton ps p ih =>
    rw [frame_declare ⟨kind, ps⟩ p.1 p.2, names, List.map_append, List.eraseDups_append]
    rw [ScopeFrame.names, names] at ih
    rw [ScopeFrame.names, ScopeFrame.declare, keys_insertEntry, ih]
    by_cases h : p.1 ∈ ps.map (·.1) <;>
      simp [h, List.removeAll, List.eraseDups_cons, -List.mem_map]

theorem OpenFrame.typeOf?_frame (o : OpenFrame) (x : String) : o.frame.typeOf? x = o.latest? x := by
  obtain ⟨kind, declared⟩ := o
  induction declared using List.reverseRecOn with
  | nil => rfl
  | append_singleton ps p ih =>
    rw [ScopeFrame.typeOf?, latest?] at ih
    rw [frame_declare ⟨kind, ps⟩ p.1 p.2, ScopeFrame.typeOf?, ScopeFrame.declare, lookup_insertEntry, ih,
      latest?, List.reverse_append, List.reverse_singleton, List.singleton_append, List.lookup_cons]
    by_cases h : x = p.1 <;> simp [h, beq_eq_false_iff_ne.2]

theorem OpenFrame.isSome_latest? (o : OpenFrame) (x : String) :
    (o.latest? x).isSome = decide (x ∈ o.names) := by
  rw [latest?, names, Bool.eq_iff_iff, decide_eq_true_iff, List.lookup_isSome_iff, List.mem_eraseDups]
  simp

theorem typeOf?_run (ops : List Op) (x : String) :
    (empty.run ops).typeOf? x = (innermost? ops x).bind (·.latest? x) := by
  rw [typeOf?, frames_run, innermost?]
  induction openFrames ops with
  | nil => rfl
  | cons o os ih =>
    rw [List.map_cons, List.findSome?_cons, OpenFrame.typeOf?_frame, ih, List.find?_cons]
    have hsome := o.isSome_latest? x
    cases h : o.latest? x <;> simp_all

theorem mayAssign_run (ops : List Op) (x : String) :
    (empty.run ops).mayAssign x = (innermost? ops x).any (·.kind != .constant) := by
  rw [mayAssign, frames_run, innermost?, List.find?_map]
  have hp : (fun f : ScopeFrame => (f.typeOf? x).isSome) ∘ OpenFrame.frame =
      fun o => decide (x ∈ o.names) := by
    funext o
    simp [OpenFrame.typeOf?_frame, OpenFrame.isSome_latest?]
  rw [hp]
  cases (openFrames ops).find? fun o => decide (x ∈ o.names) with
  | none => rfl
  | some o => simp [OpenFrame.kind_frame]

/-! ## Order -/

theorem nodup_eraseDups {α : Type} [BEq α] [LawfulBEq α] (l : List α) : l.eraseDups.Nodup := by
  induction l using List.reverseRecOn with
  | nil => simp
  | append_singleton l a ih =>
    rw [List.eraseDups_append]
    by_cases h : a ∈ l
    · simpa [List.removeAll, h] using ih
    · have ha : (List.removeAll [a] l).eraseDups = [a] := by simp [List.removeAll, h, List.eraseDups_cons]
      rw [ha]
      exact ih.append (by simp) (by simpa using h)

theorem allNames_run (ops : List Op) :
    (empty.run ops).allNames = (openFrames ops).reverse.flatMap OpenFrame.names := by
  rw [allNames, frames_run, ← List.map_reverse, List.flatMap_map]
  exact congrArg (List.flatMap · _) (funext OpenFrame.names_frame)

/-- **The symbols of a scope are its names**, each at the place of its first occurrence. -/
theorem map_fst_symbols (s : Scope) : s.symbols.map (·.1) = s.allNames.eraseDups := by
  have htype : ∀ x ∈ s.allNames, ((s.typeOf? x).map fun ty => (x, ty)).map (·.1) = some x := by
    intro x hx
    obtain ⟨f, hf, hx⟩ := List.mem_flatMap.1 hx
    obtain ⟨p, hp, rfl⟩ := List.mem_map.1 hx
    have hsome : (s.typeOf? p.1).isSome := by
      rw [typeOf?, List.findSome?_isSome_iff]
      exact ⟨f, List.mem_reverse.1 hf, List.lookup_isSome_iff.2 ⟨p, hp, beq_self_eq_true _⟩⟩
    obtain ⟨ty, hty⟩ := Option.isSome_iff_exists.1 hsome
    simp [hty]
  rw [symbols, List.map_filterMap]
  refine (List.filterMap_congr fun x hx => htype x (List.mem_eraseDups.1 hx)).trans ?_
  simp

theorem typeOf?_of_mem_symbols {s : Scope} {p : String × Ty} (h : p ∈ s.symbols) :
    s.typeOf? p.1 = some p.2 := by
  obtain ⟨x, -, hx⟩ := List.mem_filterMap.1 h
  obtain ⟨ty, hty, rfl⟩ := Option.map_eq_some_iff.1 hx
  exact hty

/-! ## Balanced histories -/

/-- Histories that declare names and leave each frame that they open. -/
inductive Balanced : List Op → Prop
  | nil : Balanced []
  | declare {x ty ops} : Balanced ops → Balanced (.declare x ty :: ops)
  | frame {kind inner ops} : Balanced inner → Balanced ops →
      Balanced (.push kind :: (inner ++ .pop :: ops))

/-- A balanced history changes at most the innermost frame. -/
theorem Balanced.frames_run {ops : List Op} (h : Balanced ops) :
    ∀ {s : Scope} {f : ScopeFrame} {fs : List ScopeFrame}, s.frames = f :: fs →
      ∃ f', (s.run ops).frames = f' :: fs := by
  induction h with
  | nil => exact fun hs => ⟨_, hs⟩
  | @declare x ty ops _ ih =>
    intro s f fs hs
    exact ih (s := s.declare x ty) (f := f.declare x ty) (by rw [Scope.declare, hs])
  | @frame kind inner ops _ _ ihinner ih =>
    intro s f fs hs
    have hpush : (s.push kind).frames = ⟨kind, []⟩ :: f :: fs := by rw [push, hs]
    obtain ⟨f', hf'⟩ := ihinner hpush
    have hpop : ((s.push kind).run inner).pop.frames = f :: fs := by rw [pop, hf']; rfl
    obtain ⟨f'', hf''⟩ := ih hpop
    refine ⟨f'', ?_⟩
    rw [← hf'']
    simp only [run, List.foldl_cons, List.foldl_append]
    rfl

theorem Balanced.run_in_frame {ops : List Op} (h : Balanced ops) (s : Scope) (kind : FrameKind) :
    s.run (.push kind :: (ops ++ [.pop])) = s := by
  obtain ⟨f, hf⟩ := h.frames_run (s := s.push kind) (f := ⟨kind, []⟩) rfl
  simp only [run, List.foldl_cons, List.foldl_append, List.foldl_nil]
  show ((s.push kind).run ops).pop = s
  rw [pop, hf]
  rfl

/-- **Laws of scopes.** After every history: no frame has a name twice; a name has the type of its latest
    declaration in the innermost open frame that declares it; the symbols are the names of all frames, each
    once, in the order of their outermost declarations and with their types; a name may be assigned unless it
    is not declared or its innermost frame is constant; and a frame that is opened, worked in and left leaves
    no trace. -/
theorem laws_of_history (ops : List Op) :
    (∀ f ∈ (empty.run ops).frames, f.names.Nodup) ∧
    (∀ x, (empty.run ops).typeOf? x = (innermost? ops x).bind (·.latest? x)) ∧
    ((empty.run ops).symbols.map (·.1) =
        ((openFrames ops).reverse.flatMap OpenFrame.names).eraseDups ∧
      ((empty.run ops).symbols.map (·.1)).Nodup ∧
      (∀ x, x ∈ (empty.run ops).symbols.map (·.1) ↔ x ∈ (empty.run ops).allNames) ∧
      ∀ p ∈ (empty.run ops).symbols, (empty.run ops).typeOf? p.1 = some p.2) ∧
    (∀ x, (empty.run ops).mayAssign x = false ↔
      innermost? ops x = none ∨ (innermost? ops x).map (·.kind) = some .constant) ∧
    ∀ kind inner, Balanced inner →
      (empty.run ops).run (.push kind :: (inner ++ [.pop])) = empty.run ops := by
  refine ⟨fun f hf => ?_, typeOf?_run ops, ⟨by rw [map_fst_symbols, allNames_run], ?_, fun x => ?_, fun p hp => ?_⟩,
    fun x => ?_, fun kind inner h => h.run_in_frame _ kind⟩
  · rw [frames_run, List.mem_map] at hf
    obtain ⟨o, -, rfl⟩ := hf
    rw [OpenFrame.names_frame]
    exact nodup_eraseDups _
  · rw [map_fst_symbols]
    exact nodup_eraseDups _
  · rw [map_fst_symbols, List.mem_eraseDups]
  · exact typeOf?_of_mem_symbols hp
  · rw [mayAssign_run]
    cases innermost? ops x <;> simp

/-- A name declared in two frames, and twice in the inner one. -/
def shadowing : List Op :=
  [.push .constant, .declare "b" .bits, .declare "a" .int, .push .logical, .declare "c" .value,
    .declare "a" .bits, .declare "a" .value]

theorem laws_of_history_shadowing :
    ScopeFrame.mk .logical [("c", .value), ("a", .value)] ∈ (empty.run shadowing).frames ∧
    ["c", "a"].Nodup ∧
    ("a", .value) ∈ (empty.run shadowing).symbols ∧ (empty.run shadowing).typeOf? "a" = some .value ∧
    Balanced [.push .variables, .declare "a" .int, .pop, .declare "c" .real] ∧
    (empty.run shadowing).run [.push .constant, .push .variables, .declare "a" .int, .pop,
      .declare "c" .real, .pop] = empty.run shadowing := by
  obtain ⟨hnodup, -, ⟨-, -, -, htype⟩, -, hbalanced⟩ := laws_of_history shadowing
  have hmem : ScopeFrame.mk .logical [("c", .value), ("a", .value)] ∈ (empty.run shadowing).frames := by
    decide
  have hsymbol : ("a", .value) ∈ (empty.run shadowing).symbols := by decide
  have hinner : Balanced [.push .variables, .declare "a" .int, .pop, .declare "c" .real] :=
    .frame (.declare .nil) (.declare .nil)
  exact ⟨hmem, hnodup _ hmem, hsymbol, htype _ hsymbol, hinner, hbalanced .constant _ hinner⟩

end GameHop.Scope
