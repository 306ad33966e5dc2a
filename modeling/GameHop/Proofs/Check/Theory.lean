import GameHop.Proofs.Check.Steps

/-!
What a check keeps, whether it ends well or not (`CheckM.Keeps`), and where its facts come from.
-/

namespace GameHop

variable {α β γ : Type}

namespace CheckM

/-- Whether a property of states is kept, also by a step that fails. -/
def Keeps (I : Checker α → Prop) (x : CheckM α β) : Prop :=
  Leads I x (fun _ => I) fun _ => I

section
variable {I : Checker α → Prop} {x : CheckM α β}

theorem keeps_iff : Keeps I x ↔ ∀ c, I c → I (x.run.run c).2 := by
  refine ⟨fun h c hc => ?_, fun h => leads_iff.2 fun c c' hc => ?_⟩
  · have hrun := h c hc
    cases hx : x.run.run c with
    | mk r c' =>
      rw [hx] at hrun
      cases r <;> exact hrun
  · have hrun := h c hc
    constructor <;> rintro _ hx <;> rwa [hx] at hrun

theorem keeps_pure (b : β) : Keeps I (pure b) := fun _ hc => hc

theorem keeps_fail (location : Location) (fault : Fault) :
    Keeps I (fail location fault : CheckM α β) := fun _ hc => hc

theorem keeps_get : Keeps I (get : CheckM α (Checker α)) := fun _ hc => hc

theorem keeps_modify {g : Checker α → Checker α} (h : ∀ c, I c → I (g c)) : Keeps I (modify g) := h

theorem Keeps.bind {f : β → CheckM α γ} (hx : Keeps I x) (hf : ∀ b, Keeps I (f b)) :
    Keeps I (x >>= f) :=
  Leads.bind hx hf

end

end CheckM

open CheckM

/-! ## Sources -/

namespace Checker

section
variable {I : Checker α → Prop} (setup : CheckSetup α)

theorem keeps_checkImport (hI : ∀ c imported, I c → I { c with imported })
    {checkSource : SourceFile → CheckM α Unit} (h : ∀ file, Keeps I (checkSource file))
    (file : SourceFile) (i : Import) : Keeps I (checkImport setup checkSource file i) := by
  refine keeps_get.bind fun c => ?_
  split
  · refine Keeps.bind (keeps_modify fun c hc => hI c _ hc) fun _ => ?_
    split
    · exact keeps_fail _ _
    · exact h _
  · exact keeps_pure ()

/-- What items keep if they are registered or leave what was there before. -/
theorem keeps_of_settles {checkSource : SourceFile → CheckM α Unit} {file : SourceFile} {i : Item}
    (hi : i.isImport = false)
    (hok : ∀ c c', I c → Ends (checkItem setup checkSource file i) c () c' →
      Settled (ambient setup file Set.univ c) i c' → I c')
    (herror : ∀ c c' e, I c → (ambient setup file Set.univ c).Fails e c' → I c') :
    Keeps I (checkItem setup checkSource file i) := by
  refine leads_iff.2 fun c c' hc => ?_
  have hsettles := settles_checkItem setup checkSource file hi i.placed_univ c
  exact ⟨fun _ hx => hok c c' hc hx (hsettles.ok rfl hx),
    fun e hx => herror c c' e hc (hsettles.error rfl hx).1⟩

/-- What the items of sources keep, the sources keep. An item may import sources in turn. -/
theorem keeps_checkNested_of_items
    (hitem : ∀ depth file d, (∀ file, Keeps I (checkNested setup depth file)) →
      Development.parse file.text = .ok d → ∀ i ∈ d,
        Keeps I (checkItem setup (checkNested setup depth) file i))
    (depth : Nat) (file : SourceFile) : Keeps I (checkNested setup depth file) := by
  induction depth generalizing file with
  | zero => exact keeps_fail _ _
  | succ depth ih =>
    rw [checkNested]
    split
    · exact keeps_fail _ _
    · rename_i d hparse
      exact Leads.forM fun i hi => hitem depth file d ih hparse i hi

end

end Checker

/-! ## Facts -/

def Item.statement? : Item → Option Statement
  | .proved t => some t.statement
  | .assumed s => some s
  | _ => none

/-- Whether a fact is that of a statement in a source. -/
def Fact.Stated (f : Fact) : Prop :=
  ∃ source d s, Development.parse source = .ok d ∧ s ∈ d.filterMap Item.statement? ∧ f = s.fact

/-- Whether all facts that proofs may use are stated in sources. -/
def Checker.FromSources (c : Checker α) : Prop :=
  ∀ p ∈ c.facts, p.2.Stated

theorem mem_of_mem_insertEntry {κ δ : Type} [BEq κ] {k : κ} {a : δ} {p : κ × δ} :
    {table : List (κ × δ)} → p ∈ insertEntry k a table → p = (k, a) ∨ p ∈ table
  | [], h => .inl (List.mem_singleton.1 h)
  | (l, b) :: rest, h => by
    rw [insertEntry] at h
    split at h
    · exact (List.mem_cons.1 h).imp id (.tail _)
    · rcases List.mem_cons.1 h with rfl | h
      · exact .inr (.head _)
      · exact (mem_of_mem_insertEntry h).imp id (.tail _)

/-- An item adds the fact of its statement, if it has one. -/
theorem Item.mem_facts_register {i : Item} {c : Checker α} {p : String × Fact}
    (hp : p ∈ (i.register c).facts) : p ∈ c.facts ∨ ∃ s, i.statement? = some s ∧ p.2 = s.fact := by
  cases i with
  | proved t =>
    rcases mem_of_mem_insertEntry hp with rfl | hp
    · exact .inr ⟨t.statement, rfl, rfl⟩
    · exact .inl hp
  | assumed s =>
    rcases mem_of_mem_insertEntry hp with rfl | hp
    · exact .inr ⟨s, rfl, rfl⟩
    · exact .inl hp
  | _ => exact .inl hp

namespace Checker

theorem fromSources_start : (start : Checker α).FromSources := by
  rintro p ⟨⟩

/-- **The facts that are registered are stated in sources**, those of the files that are imported
    included. -/
theorem keeps_checkSource (setup : CheckSetup α) (file : SourceFile) :
    Keeps FromSources (checkSource setup file) := by
  refine keeps_checkNested_of_items setup (fun depth file d ih hparse i hi => ?_) _ file
  cases himport : i.isImport with
  | true =>
    cases i with
    | imported i => exact keeps_checkImport setup (fun _ _ hc => hc) ih file i
    | _ => cases himport
  | false =>
    refine keeps_of_settles setup himport (fun c c' hc _ hsettled p hp => ?_) fun c c' e hc hfails => ?_
    · rw [hsettled.facts] at hp
      rcases Item.mem_facts_register hp with hp | ⟨s, hs, hp⟩
      · exact hc p hp
      · exact ⟨file.text, d, s, hparse, List.mem_filterMap.2 ⟨i, hi, hs⟩, hp⟩
    · rw [FromSources, hfails.2.facts]
      exact hc

theorem fromSources_checkSource (setup : CheckSetup α) (file : SourceFile) :
    ((checkSource setup file).run.run start).2.FromSources :=
  keeps_iff.1 (keeps_checkSource setup file) _ fromSources_start

end Checker

end GameHop
