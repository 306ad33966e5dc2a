import GameHop.Proofs.Check.Session

/-!
Imports. The check of a source is told by rules without a bound on how deep imports are nested
(`Checker.Checks`), together with a log of the imports in the order in which they start.
-/

namespace GameHop

variable {α : Type}

open CheckM

/-! ## The rules -/

def Item.import? : Item → Option Import
  | .imported i => some i
  | _ => none

/-- What an import came to. -/
inductive ImportOutcome where
  /-- The import of the module had begun before. -/
  | skipped
  /-- There is no file of the module. -/
  | missing
  | entered (module : SourceFile)

/-- An import in a session, with the states before and after it. -/
structure ImportRecord (α : Type) where
  setup : CheckSetup α
  file : SourceFile
  item : Import
  outcome : ImportOutcome
  before : Checker α
  result : Except CheckError Unit
  after : Checker α

namespace ImportRecord

/-- The module whose import begins. -/
def begun? (r : ImportRecord α) : Option String :=
  match r.outcome with
  | .skipped => none
  | .missing | .entered _ => some r.item.moduleName

theorem moduleName_of_begun? {r : ImportRecord α} {x : String} (h : r.begun? = some x) :
    r.item.moduleName = x := by
  obtain ⟨setup, file, i, outcome, before, result, after⟩ := r
  cases outcome with
  | skipped => cases h
  | missing | entered => exact Option.some.inj h

/-- The module whose file is entered. -/
def entered? (r : ImportRecord α) : Option String :=
  match r.outcome with
  | .skipped | .missing => none
  | .entered _ => some r.item.moduleName

end ImportRecord

/-- What can be checked. -/
inductive CheckPart where
  | source (file : SourceFile)
  | items (file : SourceFile) (is : List Item)
  | item (file : SourceFile) (i : Item)

namespace Checker

/-- The state once the import of a module has begun. -/
def began (c : Checker α) (i : Import) : Checker α :=
  { c with imported := i.moduleName :: c.imported }

/-- The check of a part from a state, with its imports, its result and the state after it. -/
inductive Checks (setup : CheckSetup α) :
    CheckPart → Checker α → List (ImportRecord α) → Except CheckError Unit → Checker α → Prop
  | illegible {file c e} : Development.parse file.text = .error e →
    Checks setup (.source file) c [] (.error (.located (file.locate e.span) (.source e))) c
  | source {file is c log r c'} : Development.parse file.text = .ok is →
    Checks setup (.items file is) c log r c' → Checks setup (.source file) c log r c'
  | done {file c} : Checks setup (.items file []) c [] (.ok ()) c
  | failed {file i is c log e c'} : Checks setup (.item file i) c log (.error e) c' →
    Checks setup (.items file (i :: is)) c log (.error e) c'
  | next {file i is c log c₁ log' r c'} : Checks setup (.item file i) c log (.ok ()) c₁ →
    Checks setup (.items file is) c₁ log' r c' → Checks setup (.items file (i :: is)) c (log ++ log') r c'
  | skipped {file i c} : i.moduleName ∈ c.imported →
    Checks setup (.item file (.imported i)) c [⟨setup, file, i, .skipped, c, .ok (), c⟩] (.ok ()) c
  | missing {file i c e} : i.moduleName ∉ c.imported → findModule setup file i = none →
    e = .located (file.locate i.span) (.importNotFound (modulePath i)) →
    Checks setup (.item file (.imported i)) c
      [⟨setup, file, i, .missing, c, .error e, c.began i⟩] (.error e) (c.began i)
  | entered {file i module c log r c'} : i.moduleName ∉ c.imported →
    findModule setup file i = some module → Checks setup (.source module) (c.began i) log r c' →
    Checks setup (.item file (.imported i)) c (⟨setup, file, i, .entered module, c, r, c'⟩ :: log) r c'
  | other {file i c r c'} : i.import? = none →
    (checkItem setup (checkSource setup) file i).run.run c = (r, c') →
    Checks setup (.item file i) c [] r c'

/-- The check of sources, one after the other. -/
inductive ChecksAll : List (CheckSetup α × SourceFile) → Checker α → List (ImportRecord α) →
    List (Except CheckError Unit) → Checker α → Prop
  | nil {c} : ChecksAll [] c [] [] c
  | cons {setup file sources c log r c₁ log' rs c'} : Checks setup (.source file) c log r c₁ →
    ChecksAll sources c₁ log' rs c' →
    ChecksAll ((setup, file) :: sources) c (log ++ log') (r :: rs) c'

/-! ## At most one way -/

section
variable {setup : CheckSetup α} {part : CheckPart} {c c' c₂ : Checker α}
  {log log₂ : List (ImportRecord α)} {r r₂ : Except CheckError Unit}

/-- **The rules leave no choice.** -/
theorem Checks.unique (h : Checks setup part c log r c') (h₂ : Checks setup part c log₂ r₂ c₂) :
    log₂ = log ∧ r₂ = r ∧ c₂ = c' := by
  induction h generalizing log₂ r₂ c₂ with
  | illegible hparse =>
    cases h₂ with
    | illegible hparse₂ =>
      obtain rfl := Except.error.inj (hparse.symm.trans hparse₂)
      exact ⟨rfl, rfl, rfl⟩
    | source hparse₂ => cases hparse.symm.trans hparse₂
  | source hparse _ ih =>
    cases h₂ with
    | illegible hparse₂ => cases hparse.symm.trans hparse₂
    | source hparse₂ hitems =>
      obtain rfl := Except.ok.inj (hparse.symm.trans hparse₂)
      exact ih hitems
  | done =>
    cases h₂
    exact ⟨rfl, rfl, rfl⟩
  | failed _ ih =>
    cases h₂ with
    | failed hitem => exact ih hitem
    | next hitem => cases (ih hitem).2.1
  | next _ _ ih ih' =>
    cases h₂ with
    | failed hitem => cases (ih hitem).2.1
    | next hitem hitems =>
      obtain ⟨rfl, -, rfl⟩ := ih hitem
      obtain ⟨rfl, rfl, rfl⟩ := ih' hitems
      exact ⟨rfl, rfl, rfl⟩
  | skipped hi =>
    cases h₂ with
    | skipped => exact ⟨rfl, rfl, rfl⟩
    | missing hi₂ | entered hi₂ => exact (hi₂ hi).elim
    | other hnone => cases hnone
  | missing hi hfind he =>
    cases h₂ with
    | skipped hi₂ => exact (hi hi₂).elim
    | missing _ _ he₂ =>
      obtain rfl := he.trans he₂.symm
      exact ⟨rfl, rfl, rfl⟩
    | entered _ hfind₂ => cases hfind.symm.trans hfind₂
    | other hnone => cases hnone
  | entered hi hfind _ ih =>
    cases h₂ with
    | skipped hi₂ => exact (hi hi₂).elim
    | missing _ hfind₂ => cases hfind.symm.trans hfind₂
    | entered _ hfind₂ hsource =>
      obtain rfl := Option.some.inj (hfind.symm.trans hfind₂)
      obtain ⟨rfl, rfl, rfl⟩ := ih hsource
      exact ⟨rfl, rfl, rfl⟩
    | other hnone => cases hnone
  | other hnone hrun =>
    cases h₂ with
    | skipped | missing | entered => cases hnone
    | other _ hrun₂ =>
      obtain ⟨rfl, rfl⟩ := Prod.mk.inj (hrun.symm.trans hrun₂)
      exact ⟨rfl, rfl, rfl⟩

theorem ChecksAll.unique {sources : List (CheckSetup α × SourceFile)}
    {rs rs₂ : List (Except CheckError Unit)} (h : ChecksAll sources c log rs c')
    (h₂ : ChecksAll sources c log₂ rs₂ c₂) : log₂ = log ∧ rs₂ = rs ∧ c₂ = c' := by
  induction h generalizing log₂ rs₂ c₂ with
  | nil =>
    cases h₂
    exact ⟨rfl, rfl, rfl⟩
  | cons hfile _ ih =>
    cases h₂ with
    | cons hfile₂ hsources₂ =>
      obtain ⟨rfl, rfl, rfl⟩ := hfile.unique hfile₂
      obtain ⟨rfl, rfl, rfl⟩ := ih hsources₂
      exact ⟨rfl, rfl, rfl⟩

end

/-! ## Logs -/

/-- Only imports begin imports. -/
theorem imported_of_other {setup : CheckSetup α} {checkSource : SourceFile → CheckM α Unit}
    {file : SourceFile} {i : Item} (hi : i.import? = none) {c c' : Checker α}
    {r : Except CheckError Unit} (h : (checkItem setup checkSource file i).run.run c = (r, c')) :
    c'.imported = c.imported := by
  have hi' : i.isImport = false := by
    cases i with
    | imported => cases hi
    | _ => rfl
  have hsettles := settles_checkItem setup checkSource file hi' i.placed_univ c
  cases r with
  | ok u => exact (hsettles.ok rfl h).imported
  | error e => exact (hsettles.error rfl h).1.2.imported

end Checker

namespace ImportRecord

open Checker

/-- Whether a record is that of an import which follows the rules. -/
def Holds (r : ImportRecord α) : Prop :=
  ∃ log, Checks r.setup (.item r.file (.imported r.item)) r.before (r :: log) r.result r.after

/-- Whether records follow each other, if the imports of the given modules have begun before. -/
def AllHold : (imported : List String) → List (ImportRecord α) → Prop
  | _, [] => True
  | imported, r :: log =>
    r.Holds ∧ r.before.imported = imported ∧ AllHold (r.begun?.toList ++ imported) log

variable {imported : List String} {r : ImportRecord α} {log log' : List (ImportRecord α)}

theorem AllHold.append (h : AllHold imported log)
    (h' : AllHold ((log.filterMap begun?).reverse ++ imported) log') :
    AllHold imported (log ++ log') := by
  induction log generalizing imported with
  | nil => exact h'
  | cons r log ih =>
    refine ⟨h.1, h.2.1, ih h.2.2 ?_⟩
    cases hr : r.begun? <;> simpa [List.filterMap_cons, hr] using h'

/-- The modules whose import has begun when a record starts are those of the records before. -/
theorem AllHold.imported_before {past future : List (ImportRecord α)}
    (h : AllHold imported (past ++ r :: future)) :
    r.Holds ∧ r.before.imported = (past.filterMap begun?).reverse ++ imported := by
  induction past generalizing imported with
  | nil => exact ⟨h.1, h.2.1⟩
  | cons r' past ih =>
    obtain ⟨hr, hbefore⟩ := ih h.2.2
    refine ⟨hr, hbefore.trans ?_⟩
    cases hr' : r'.begun? <;> simp [hr']

theorem AllHold.of_append (h : AllHold imported (log ++ log')) : AllHold imported log := by
  induction log generalizing imported with
  | nil => trivial
  | cons r log ih => exact ⟨h.1, h.2.1, ih h.2.2⟩

/-- An import begins if and only if no import of the module has begun before. -/
theorem Holds.begun?_eq (h : r.Holds) :
    r.begun? = if r.item.moduleName ∈ r.before.imported then none else some r.item.moduleName := by
  obtain ⟨setup, file, i, outcome, before, result, after⟩ := r
  obtain ⟨log, h⟩ := h
  dsimp only at h
  cases h with
  | skipped hi => rw [if_pos hi]; rfl
  | missing hi | entered hi => rw [if_neg hi]; rfl

/-- **No import begins twice.** -/
theorem AllHold.nodup (h : AllHold imported log) :
    (log.filterMap begun?).Nodup ∧ ∀ x ∈ log.filterMap begun?, x ∉ imported := by
  induction log generalizing imported with
  | nil => exact ⟨List.nodup_nil, by simp⟩
  | cons r log ih =>
    obtain ⟨hr, hbefore, hlog⟩ := h
    obtain ⟨hnodup, hfresh⟩ := ih hlog
    have hbegun := hr.begun?_eq
    rw [hbefore] at hbegun
    rw [List.filterMap_cons]
    split at hbegun
    · rw [hbegun] at hfresh ⊢
      exact ⟨hnodup, hfresh⟩
    · rename_i hnew
      rw [hbegun] at hfresh ⊢
      refine ⟨List.nodup_cons.2 ⟨fun hx => hfresh _ hx (List.mem_cons_self ..), hnodup⟩, ?_⟩
      refine List.forall_mem_cons.2 ⟨hnew, fun x hx hmem => hfresh x hx (.tail _ hmem)⟩

/-- What is imported has begun. -/
theorem AllHold.mem_begun (h : AllHold imported log) (hr : r ∈ log) :
    r.item.moduleName ∈ log.filterMap begun? ∨ r.item.moduleName ∈ imported := by
  obtain ⟨past, future, rfl⟩ := List.append_of_mem hr
  obtain ⟨hholds, hbefore⟩ := h.imported_before
  by_cases hmem : r.item.moduleName ∈ r.before.imported
  · rw [hbefore, List.mem_append, List.mem_reverse] at hmem
    refine hmem.imp (fun hpast => ?_) id
    rw [List.filterMap_append]
    exact List.mem_append_left _ hpast
  · have hbegun := hholds.begun?_eq
    rw [if_neg hmem] at hbegun
    exact .inl (List.mem_filterMap.2 ⟨r, hr, hbegun⟩)

theorem sublist_entered (log : List (ImportRecord α)) :
    (log.filterMap entered?).Sublist (log.filterMap begun?) := by
  induction log with
  | nil => exact .slnil
  | cons r log ih =>
    obtain ⟨setup, file, i, outcome, before, result, after⟩ := r
    cases outcome with
    | skipped => exact ih
    | missing => exact ih.cons _
    | entered => exact ih.cons_cons _

end ImportRecord

namespace Checker

open ImportRecord

section
variable {setup : CheckSetup α} {part : CheckPart} {c c' : Checker α} {log : List (ImportRecord α)}
  {r : Except CheckError Unit}

/-- **The log of a check** tells one import after the other, and which imports have begun. -/
theorem Checks.allHold (h : Checks setup part c log r c') :
    AllHold c.imported log ∧ c'.imported = (log.filterMap begun?).reverse ++ c.imported := by
  induction h with
  | illegible | done => exact ⟨trivial, rfl⟩
  | source _ _ ih | failed _ ih => exact ih
  | next _ _ ih ih' =>
    obtain ⟨hlog, hc₁⟩ := ih
    obtain ⟨hlog', hc'⟩ := ih'
    rw [hc₁] at hlog' hc'
    exact ⟨hlog.append hlog', by rw [hc', List.filterMap_append, List.reverse_append,
      List.append_assoc]⟩
  | skipped hi => exact ⟨⟨⟨[], .skipped hi⟩, rfl, trivial⟩, rfl⟩
  | missing hi hfind he => exact ⟨⟨⟨[], .missing hi hfind he⟩, rfl, trivial⟩, rfl⟩
  | entered hi hfind hsource ih =>
    refine ⟨⟨⟨_, .entered hi hfind hsource⟩, rfl, ih.1⟩, ih.2.trans ?_⟩
    simp [begun?, began]
  | other hnone hrun => exact ⟨trivial, imported_of_other hnone hrun⟩

theorem ChecksAll.allHold {sources : List (CheckSetup α × SourceFile)}
    {rs : List (Except CheckError Unit)} (h : ChecksAll sources c log rs c') :
    AllHold c.imported log := by
  induction h with
  | nil => trivial
  | cons hfile _ ih =>
    obtain ⟨hlog, hc₁⟩ := hfile.allHold
    rw [hc₁] at ih
    exact hlog.append ih

end

end Checker

/-! ## How many modules there are -/

theorem Lexer.length_tokensFrom {cs : List Char} {offset skip : Nat} {ts : List Token}
    (h : tokensFrom offset skip cs = .ok ts) : ts.length ≤ cs.length + 1 := by
  induction cs generalizing offset skip ts with
  | nil =>
    obtain rfl := Except.ok.inj h
    exact Nat.le_refl _
  | cons c cs ih =>
    cases skip with
    | succ skip => exact (ih h).trans (Nat.le_succ _)
    | zero =>
      rw [tokensFrom] at h
      split at h
      · cases h
      · exact (ih h).trans (Nat.le_succ _)
      · cases h
      · obtain ⟨us, hus, h⟩ := except_bind_eq_ok h
        obtain rfl := Except.ok.inj h
        exact Nat.succ_le_succ (ih hus)

theorem Parser.length_manyFrom {β : Type} {goesOn : Option TokenKind → Bool} {p : Parser β} {n : Nat}
    {i j : Input} {bs : List β} (h : StateT.run (manyFrom goesOn p n) i = .ok (bs, j)) :
    bs.length ≤ n := by
  induction n generalizing i j bs with
  | zero =>
    cases h
    exact Nat.le_refl _
  | succ n ih =>
    rw [manyFrom, StateT.run_bind] at h
    obtain ⟨⟨k, i₁⟩, -, h⟩ := except_bind_eq_ok h
    dsimp only at h
    split at h
    · rw [StateT.run_bind] at h
      obtain ⟨⟨b, i₂⟩, -, h⟩ := except_bind_eq_ok h
      rw [StateT.run_bind] at h
      obtain ⟨⟨cs, i₃⟩, hcs, h⟩ := except_bind_eq_ok h
      cases h
      exact Nat.succ_le_succ (ih hcs)
    · cases h
      exact Nat.zero_le _

/-- A development has at most two items more than its text has characters. -/
theorem Development.length_of_parse {text : String} {is : Development}
    (h : parse text = .ok is) : is.length ≤ text.length + 2 := by
  rw [parse, readSource] at h
  split at h
  · cases h
  · rename_i ts hts
    have hlength := Lexer.length_tokensFrom hts
    rw [String.length_toList] at hlength
    split at h
    · cases h
    · rename_i is' his
      obtain rfl := Except.ok.inj h
      obtain ⟨⟨is, i⟩, hrun, his⟩ := except_bind_eq_ok his
      obtain rfl := Except.ok.inj his
      have hmany : StateT.run (Parser.manyFrom (· != some .eof)
          (Parser.item (Parser.Level.ofDepth (ts.length + 1))) (ts.length + 1)) ⟨.nowhere, ts⟩ =
          .ok (is, i) := hrun
      have hitems := Parser.length_manyFrom hmany
      exact hitems.trans (Nat.succ_le_succ hlength)

/-- The modules that the items of a text import. -/
def Development.moduleNames (text : String) : List String :=
  match Development.parse text with
  | .ok is => (is.filterMap Item.import?).map Import.moduleName
  | .error _ => []

theorem Development.mem_moduleNames {text : String} {is : Development}
    (h : parse text = .ok is) {i : Import} (hi : .imported i ∈ is) :
    i.moduleName ∈ moduleNames text := by
  rw [moduleNames, h]
  exact List.mem_map_of_mem (List.mem_filterMap.2 ⟨_, hi, rfl⟩)

theorem Development.length_moduleNames (text : String) :
    (moduleNames text).length ≤ text.length + 2 := by
  rw [moduleNames]
  split
  · rename_i is his
    rw [List.length_map]
    exact (List.length_filterMap_le _ _).trans (length_of_parse his)
  · exact Nat.zero_le _

/-- The modules that the files of a tree import. -/
def FileTree.moduleNames (files : FileTree) : List String :=
  files.files.flatMap fun f => Development.moduleNames f.2

theorem FileTree.exists_of_read {files : FileTree} {path text : String}
    (h : files.read path = .ok text) : ∃ place, (place, text) ∈ files.files := by
  obtain ⟨place, -, h⟩ := except_bind_eq_ok h
  dsimp only [fileAt?] at h
  split at h
  · rename_i text' hfile
    split at h
    · cases h
    · obtain rfl := Except.ok.inj h
      obtain ⟨before, after, hfiles, -⟩ := List.lookup_eq_some_iff.1 hfile
      exact ⟨place, by simp [hfiles]⟩
  · cases h

namespace Checker

theorem length_moduleNames (files : FileTree) : files.moduleNames.length + 2 ≤ importDepth files := by
  have hfold : ∀ (fs : List (List String × String)) (n : Nat),
      (fs.flatMap fun f => Development.moduleNames f.2).length + n ≤
        fs.foldl (fun n f => n + (f.2.length + 2)) n := by
    intro fs
    induction fs with
    | nil => intro n; exact Nat.le_of_eq (Nat.zero_add n)
    | cons f fs ih =>
      intro n
      have hf := Development.length_moduleNames f.2
      have hfs := ih (n + (f.2.length + 2))
      rw [List.flatMap_cons, List.length_append, List.foldl_cons]
      omega
  exact hfold files.files 2

theorem exists_of_findModule {setup : CheckSetup α} {file module : SourceFile} {i : Import}
    (h : findModule setup file i = some module) :
    ∃ place, (place, module.text) ∈ setup.files.files := by
  unfold findModule at h
  dsimp only at h
  split at h
  · cases h
  · split at h
    · rename_i hread
      obtain rfl := Option.some.inj h
      exact FileTree.exists_of_read hread
    · cases h

/-- The modules that the files name and whose import has not begun. -/
def ahead (files : FileTree) (c : Checker α) : Finset String :=
  files.moduleNames.toFinset \ c.imported.toFinset

section
variable {files : FileTree} {c c' : Checker α} {i : Import}

theorem card_ahead_le : (c.ahead files).card ≤ files.moduleNames.length :=
  (Finset.card_le_card Finset.sdiff_subset).trans (List.toFinset_card_le _)

theorem card_ahead_mono (h : c.imported ⊆ c'.imported) :
    (c'.ahead files).card ≤ (c.ahead files).card := by
  refine Finset.card_le_card (Finset.sdiff_subset_sdiff (Finset.Subset.refl _) fun x hx => ?_)
  exact List.mem_toFinset.2 (h (List.mem_toFinset.1 hx))

/-- With each import that a file asks for, and that has not begun, one module less is ahead. -/
theorem card_ahead_began (hi : i.moduleName ∈ files.moduleNames) (hnew : i.moduleName ∉ c.imported) :
    ((c.began i).ahead files).card < (c.ahead files).card := by
  refine Finset.card_lt_card (Finset.ssubset_iff_subset_ne.2 ⟨?_, fun heq => ?_⟩)
  · refine Finset.sdiff_subset_sdiff (Finset.Subset.refl _) fun x hx => ?_
    exact List.mem_toFinset.2 (.tail _ (List.mem_toFinset.1 hx))
  · have hmem : i.moduleName ∈ c.ahead files := by simp [ahead, hi, hnew]
    rw [← heq] at hmem
    simp [ahead, began] at hmem

end

/-! ## Every check follows the rules -/

/-- Whether a run from a state follows the rules. -/
def Follows (setup : CheckSetup α) (part : CheckPart) (x : CheckM α Unit) (c : Checker α) : Prop :=
  ∃ log, Checks setup part c log (x.run.run c).1 (x.run.run c).2

section
variable {setup : CheckSetup α} {nested : SourceFile → CheckM α Unit} {file : SourceFile}
  {c : Checker α}

/-- One item. Its import follows the rules if the check of the module does. -/
theorem follows_checkItem {i : Item}
    (h : ∀ j, i = .imported j → j.moduleName ∉ c.imported → ∀ module,
      findModule setup file j = some module → Follows setup (.source module) (nested module) (c.began j)) :
    Follows setup (.item file i) (checkItem setup nested file i) c := by
  cases i with
  | imported j =>
    have hget : (get : CheckM α (Checker α)).run.run c = (.ok c, c) := rfl
    rw [Follows, checkItem, checkImport, run_bind, hget]
    dsimp only
    cases hj : c.imported.contains j.moduleName with
    | true => exact ⟨_, .skipped (List.contains_iff_mem.1 hj)⟩
    | false =>
      have hnew : j.moduleName ∉ c.imported := fun hmem => by
        rw [List.contains_iff_mem.2 hmem] at hj
        cases hj
      cases hfind : findModule setup file j with
      | none => exact ⟨_, .missing hnew hfind rfl⟩
      | some module =>
        obtain ⟨log, hmodule⟩ := h j rfl hnew module hfind
        exact ⟨_, .entered hnew hfind hmodule⟩
  | constant | function | postulate | proved | assumed => exact ⟨[], .other rfl rfl⟩

/-- One item after the other. No item takes back an import that has begun. -/
theorem follows_items {n : Nat} {is : List Item}
    (h : ∀ j, .imported j ∈ is → ∀ c : Checker α, (c.ahead setup.files).card ≤ n →
      j.moduleName ∉ c.imported → ∀ module, findModule setup file j = some module →
        Follows setup (.source module) (nested module) (c.began j))
    (hc : (c.ahead setup.files).card ≤ n) :
    Follows setup (.items file is) (is.forM (checkItem setup nested file)) c := by
  induction is generalizing c with
  | nil => exact ⟨[], .done⟩
  | cons i is ih =>
    obtain ⟨log, hitem⟩ := follows_checkItem (c := c) (i := i)
      fun j hj => h j (by rw [hj]; exact List.mem_cons_self ..) c hc
    rw [Follows, List.forM, run_bind]
    cases hrun : (checkItem setup nested file i).run.run c with
    | mk r c₁ =>
      rw [hrun] at hitem
      cases r with
      | error e => exact ⟨log, .failed hitem⟩
      | ok =>
        have hc₁ : c.imported ⊆ c₁.imported := by
          rw [hitem.allHold.2]
          exact List.subset_append_right ..
        obtain ⟨log', hitems⟩ := ih (fun j hj => h j (.tail _ hj)) ((card_ahead_mono hc₁).trans hc)
        exact ⟨log ++ log', .next hitem hitems⟩

/-- The items of a source. -/
theorem follows_source {n depth : Nat}
    (h : ∀ is, Development.parse file.text = .ok is → ∀ j, .imported j ∈ is → ∀ c : Checker α,
      (c.ahead setup.files).card ≤ n → j.moduleName ∉ c.imported → ∀ module,
        findModule setup file j = some module →
          Follows setup (.source module) (checkNested setup depth module) (c.began j))
    (hc : (c.ahead setup.files).card ≤ n) :
    Follows setup (.source file) (checkNested setup (depth + 1) file) c := by
  rw [Follows, checkNested]
  cases hparse : Development.parse file.text with
  | error e => exact ⟨[], .illegible hparse⟩
  | ok is =>
    obtain ⟨log, hitems⟩ := follows_items (h is hparse) hc
    exact ⟨log, .source hparse hitems⟩

/-- A file of the tree, with imports nested as deep as there are modules ahead. -/
theorem follows_checkNested {depth : Nat} (hfile : ∃ place, (place, file.text) ∈ setup.files.files)
    (hdepth : (c.ahead setup.files).card < depth) :
    Follows setup (.source file) (checkNested setup depth file) c := by
  induction depth generalizing file c with
  | zero => cases hdepth
  | succ depth ih =>
    refine follows_source (fun is his j hj c hc hnew module hfind => ?_) (Nat.le_of_lt_succ hdepth)
    obtain ⟨place, hplace⟩ := hfile
    have hname : j.moduleName ∈ setup.files.moduleNames :=
      List.mem_flatMap.2 ⟨_, hplace, Development.mem_moduleNames his hj⟩
    exact ih (exists_of_findModule hfind) ((card_ahead_began hname hnew).trans_le hc)

/-- **The check of a source follows the rules.** The source itself need not be a file of the tree. -/
theorem follows_checkSource (setup : CheckSetup α) (file : SourceFile) (c : Checker α) :
    Follows setup (.source file) (checkSource setup file) c := by
  have hbound := length_moduleNames setup.files
  obtain ⟨depth, hdepth⟩ : ∃ depth, importDepth setup.files = depth + 1 :=
    ⟨importDepth setup.files - 1, by omega⟩
  rw [checkSource, hdepth]
  refine follows_source (fun _ _ j _ c _ _ module hfind => ?_) card_ahead_le
  have hahead : ((c.began j).ahead setup.files).card ≤ setup.files.moduleNames.length := card_ahead_le
  exact follows_checkNested (exists_of_findModule hfind) (by omega)

end

/-- The check of a part. -/
def check (setup : CheckSetup α) : CheckPart → CheckM α Unit
  | .source file => checkSource setup file
  | .items file is => is.forM (checkItem setup (checkSource setup) file)
  | .item file i => checkItem setup (checkSource setup) file i

theorem follows_check (setup : CheckSetup α) (part : CheckPart) (c : Checker α) :
    Follows setup part (check setup part) c := by
  cases part with
  | source file => exact follows_checkSource setup file c
  | items file is =>
    exact follows_items (fun _ _ _ _ _ module _ => follows_checkSource setup module _) (Nat.le_refl _)
  | item file i => exact follows_checkItem fun _ _ _ module _ => follows_checkSource setup module _

section
variable {setup : CheckSetup α} {part : CheckPart} {c c' : Checker α} {log : List (ImportRecord α)}
  {r : Except CheckError Unit}

theorem Checks.run_eq (h : Checks setup part c log r c') :
    (check setup part).run.run c = (r, c') := by
  obtain ⟨log₂, h₂⟩ := follows_check setup part c
  obtain ⟨-, hr, hc'⟩ := h.unique h₂
  exact Prod.ext hr hc'

end

/-! ## Sessions -/

/-- The results of sources, checked one after the other. -/
def results : List (CheckSetup α × SourceFile) → Checker α → List (Except CheckError Unit)
  | [], _ => []
  | (setup, file) :: sources, c =>
    ((checkSource setup file).run.run c).1 :: results sources ((checkSource setup file).run.run c).2

/-- **Every session follows the rules.** -/
theorem exists_checksAll (sources : List (CheckSetup α × SourceFile)) (c : Checker α) :
    ∃ log, ChecksAll sources c log (results sources c) (afterSources sources c) := by
  induction sources generalizing c with
  | nil => exact ⟨[], .nil⟩
  | cons s sources ih =>
    obtain ⟨setup, file⟩ := s
    obtain ⟨log, hfile⟩ := follows_checkSource setup file c
    obtain ⟨log', hsources⟩ := ih ((checkSource setup file).run.run c).2
    exact ⟨log ++ log', .cons hfile hsources⟩

/-- **Imports end, and enter each module at most once.** Whatever the files are and from whatever state the
    sources are checked, there is one finite tree of checks, with imports nested in imports as the rules
    say, and what comes out is what the bounded check gives. In the whole session no two imports enter a
    module of the same name, and none enters a module whose import has begun before the session. -/
theorem modules_entered_once (sources : List (CheckSetup α × SourceFile)) (c : Checker α) :
    ∃ log, ChecksAll sources c log (results sources c) (afterSources sources c) ∧
      (∀ log' rs c', ChecksAll sources c log' rs c' →
        log' = log ∧ rs = results sources c ∧ c' = afterSources sources c) ∧
      (log.filterMap ImportRecord.entered?).Nodup ∧
      ∀ x ∈ log.filterMap ImportRecord.entered?, x ∉ c.imported := by
  obtain ⟨log, hlog⟩ := exists_checksAll sources c
  obtain ⟨hnodup, hfresh⟩ := hlog.allHold.nodup
  refine ⟨log, hlog, fun _ _ _ h => hlog.unique h, hnodup.sublist (ImportRecord.sublist_entered log), ?_⟩
  exact fun x hx => hfresh x ((ImportRecord.sublist_entered log).subset hx)

/-- Two modules that import each other, one of them itself too, found from different directories. -/
example :
    let files : FileTree :=
      ⟨"/", [(["lib", "m.qvl"], "import n; const k;"), (["n.qvl"], "import m; import n; const l;")], []⟩
    let setup : CheckSetup (Location × Question) := ⟨.record, files, ["lib", "."]⟩
    let sources := [(setup, ⟨"a.qvl", "import m;"⟩), (setup, ⟨"lib/b.qvl", "import n; import m;"⟩)]
    (results sources start).map Except.toBool = [true, true] ∧
      (afterSources sources start).imported = ["n", "m"] := by
  decide +kernel

end Checker

namespace ImportRecord

open Checker

variable {r : ImportRecord α}

/-- An import of a module whose import has begun does nothing. -/
theorem Holds.skips (h : r.Holds) (hmem : r.item.moduleName ∈ r.before.imported) :
    r.outcome = .skipped ∧ r.result = .ok () ∧ r.after = r.before := by
  obtain ⟨setup, file, i, outcome, before, result, after⟩ := r
  obtain ⟨log, h⟩ := h
  dsimp only at h
  cases h with
  | skipped => exact ⟨rfl, rfl, rfl⟩
  | missing hnew | entered hnew => exact (hnew hmem).elim

/-- The first import of a module ends well if and only if there is a file of the module, it can be read as
    a development and the check of its items ends well. -/
theorem Holds.result_iff (h : r.Holds) (hnew : r.item.moduleName ∉ r.before.imported) :
    r.result = .ok () ↔ ∃ module is, findModule r.setup r.file r.item = some module ∧
      Development.parse module.text = .ok is ∧
      Ends (is.forM (checkItem r.setup (checkSource r.setup) module)) (r.before.began r.item) ()
        r.after := by
  obtain ⟨setup, file, i, outcome, before, result, after⟩ := r
  obtain ⟨log, h⟩ := h
  dsimp only at h hnew ⊢
  cases h with
  | skipped hmem => exact (hnew hmem).elim
  | missing _ hfind he =>
    refine ⟨by rintro ⟨⟩, ?_⟩
    rintro ⟨module, is, hfind₂, -⟩
    cases hfind.symm.trans hfind₂
  | entered _ hfind hsource =>
    cases hsource with
    | illegible hparse =>
      refine ⟨by rintro ⟨⟩, ?_⟩
      rintro ⟨module, is, hfind₂, hparse₂, -⟩
      obtain rfl := Option.some.inj (hfind.symm.trans hfind₂)
      cases hparse.symm.trans hparse₂
    | source hparse hitems =>
      have hrun := hitems.run_eq
      refine ⟨?_, ?_⟩
      · rintro rfl
        exact ⟨_, _, hfind, hparse, hrun⟩
      · rintro ⟨module, is, hfind₂, hparse₂, hends⟩
        obtain rfl := Option.some.inj (hfind.symm.trans hfind₂)
        obtain rfl := Except.ok.inj (hparse.symm.trans hparse₂)
        exact (Prod.mk.inj (hrun.symm.trans hends)).1

end ImportRecord

namespace Checker

open ImportRecord

/-- **The first import of a module decides.** It ends well if and only if a file is found, can be read and
    all of its items are checked. Each later import of the module ends well at once and changes nothing,
    in the same source or in another, and also where the first one has failed. -/
theorem first_import_decides (sources : List (CheckSetup α × SourceFile)) :
    ∃ log, ChecksAll sources start log (results sources start) (afterSources sources start) ∧
      ∀ (past : List (ImportRecord α)) (r : ImportRecord α) future, log = past ++ r :: future →
        (checkItem r.setup (checkSource r.setup) r.file (.imported r.item)).run.run r.before =
          (r.result, r.after) ∧
        (∀ p ∈ past, p.item.moduleName = r.item.moduleName →
          r.outcome = .skipped ∧ r.result = .ok () ∧ r.after = r.before) ∧
        ((∀ p ∈ past, p.item.moduleName ≠ r.item.moduleName) →
          (r.result = .ok () ↔ ∃ (module : SourceFile) (is : List Item),
            findModule r.setup r.file r.item = some module ∧
            Development.parse module.text = .ok is ∧
            Ends (is.forM (checkItem r.setup (checkSource r.setup) module)) (r.before.began r.item) ()
              r.after)) := by
  obtain ⟨log, hlog⟩ := exists_checksAll sources (start : Checker α)
  refine ⟨log, hlog, ?_⟩
  rintro past r future rfl
  have hall : AllHold [] (past ++ r :: future) := hlog.allHold
  obtain ⟨hr, hbefore⟩ := hall.imported_before
  rw [List.append_nil] at hbefore
  refine ⟨?_, fun p hp hname => hr.skips ?_, fun hfirst => hr.result_iff ?_⟩
  · obtain ⟨_, hchecks⟩ := hr
    exact hchecks.run_eq
  · have hbegun := (hall.of_append.mem_begun hp).resolve_right (List.not_mem_nil)
    rw [hbefore, List.mem_reverse, ← hname]
    exact hbegun
  · rw [hbefore, List.mem_reverse]
    intro hmem
    obtain ⟨p, hp, hbegun⟩ := List.mem_filterMap.1 hmem
    exact hfirst p hp (moduleName_of_begun? hbegun)

/-- Two sources that import the same module. -/
def importTwice (files : List (List String × String)) :
    List (CheckSetup (Location × Question) × SourceFile) :=
  let setup : CheckSetup (Location × Question) := ⟨.record, ⟨"/", files, []⟩, []⟩
  [(setup, ⟨"a.qvl", "import m;"⟩), (setup, ⟨"b.qvl", "import m;"⟩)]

/-- A module that cannot be found, one that cannot be read and one whose check fails. The second source
    imports it without any objection. -/
theorem failed_import_succeeds_later :
    (results (importTwice []) start).map Except.toBool = [false, true] ∧
    (results (importTwice [(["m.qvl"], "const")]) start).map Except.toBool = [false, true] ∧
    (results (importTwice [(["m.qvl"], "const k; const k;")]) start).map Except.toBool =
      [false, true] := by
  decide +kernel

end Checker

end GameHop
