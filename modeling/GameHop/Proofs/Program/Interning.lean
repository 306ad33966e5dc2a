import GameHop.Proofs.Program.ClassNames

/-!
The tables of a program after any history of requests: templates and classes have one partner each,
texts have constants of their own, and no variable is declared twice.
-/

namespace GameHop.Program

/-! ## Classes -/

namespace Classes.OneToOne

variable {c c' : Classes} {o : Object} {cls t id : String}

theorem idOf?_eq_some_iff (h : c.OneToOne) : c.idOf? t = some id ↔ (t, id) ∈ c.entries := by
  refine ⟨mem_of_lookup, fun hmem => ?_⟩
  cases hid : c.idOf? t with
  | none => exact absurd (List.mem_map_of_mem hmem) (lookup_eq_none_iff_not_mem.1 hid)
  | some id' => rw [h.id_eq hmem (mem_of_lookup hid)]

theorem templateOf?_eq_some_iff (h : c.OneToOne) :
    c.templateOf? id = some t ↔ (t, id) ∈ c.entries := by
  simp only [templateOf?, Option.map_eq_some_iff]
  constructor
  · rintro ⟨⟨t', id'⟩, hfind, rfl⟩
    obtain rfl : id' = id := by simpa using List.find?_some hfind
    exact List.mem_of_find?_eq_some hfind
  · intro hmem
    have hsome : (c.entries.find? (·.2 == id)).isSome := List.find?_isSome.2 ⟨_, hmem, by simp⟩
    obtain ⟨⟨t', id'⟩, hfind⟩ := Option.isSome_iff_exists.1 hsome
    obtain rfl : id' = id := by simpa using List.find?_some hfind
    exact ⟨_, hfind, h.template_eq (List.mem_of_find?_eq_some hfind) hmem⟩

/-- An insertion succeeds if and only if neither side has another partner. -/
theorem insert_ok_iff (h : c.OneToOne) : (∃ c', c.insert o cls = .ok c') ↔ c.Admits o cls := by
  constructor
  · rintro ⟨c', hins⟩
    rw [Classes.insert, relate] at hins
    split at hins
    · cases hins
    · split at hins
      · cases hins
      · rename_i htemplate hid
        refine ⟨fun {t} ht => ?_, fun {id} ht => ?_⟩
        · simpa [h.templateOf?_eq_some_iff.2 ht] using htemplate
        · simpa [h.idOf?_eq_some_iff.2 ht] using hid
  · intro ha
    cases hins : c.insert o cls with
    | ok c' => exact ⟨c', rfl⟩
    | error f => exact absurd hins (ha.insert_ne_error f)

end Classes.OneToOne

/-! ## Requests -/

/-- The tables of a program, and the text of its declarations so far. -/
structure Tables where
  constants : Constants
  classes : Classes
  locals : Locals
  out : Writer

/-- What changes the tables. -/
inductive Request where
  | addFields (fields : List String)
  | addCheckpoint (label : String)
  | addClassId (cls : String)
  | intern (text : String)
  | insertClass (o : Object) (cls : String)
  | declare (x sort : String)
  | fresh (sort : String)
  | extend (other : Locals)

namespace Tables

/-- Empty tables and some text. -/
def start (out : Writer) : Tables :=
  ⟨.empty, .empty, .empty, out⟩

/-- The constant that stands for a text. -/
def constantFor (t : Tables) (text : String) : String :=
  (t.constants.internExpr text t.out).1

def serve (t : Tables) : Request → Tables
  | .addFields fields =>
    { t with constants := (t.constants.addFields fields t.out).1
             out := (t.constants.addFields fields t.out).2 }
  | .addCheckpoint label =>
    { t with constants := (t.constants.addCheckpoint label t.out).1
             out := (t.constants.addCheckpoint label t.out).2 }
  | .addClassId cls =>
    { t with constants := (t.constants.addClassId cls t.out).1
             out := (t.constants.addClassId cls t.out).2 }
  | .intern text =>
    { t with constants := (t.constants.internExpr text t.out).2.1
             out := (t.constants.internExpr text t.out).2.2 }
  | .insertClass o cls =>
    match t.classes.insert o cls with
    | .ok c => { t with classes := c }
    | .error _ => t
  | .declare x sort => { t with locals := t.locals.declare x sort }
  | .fresh sort => { t with locals := (t.locals.fresh sort).2 }
  | .extend other => { t with locals := t.locals.extend other }

def serveAll (t : Tables) (rs : List Request) : Tables :=
  rs.foldl serve t

end Tables

/-! ## Single steps -/

namespace Constants

@[simp] theorem exprs_addFields (c : Constants) (fields : List String) (w : Writer) :
    (c.addFields fields w).1.exprs = c.exprs := by
  have hfield : ∀ (c : Constants) (w : Writer) (f : String), (c.addField f w).1.exprs = c.exprs := by
    intro c w f
    unfold addField
    split <;> rfl
  induction fields generalizing c w with
  | nil => rfl
  | cons f fields ih => exact (ih _ _).trans (hfield c w f)

@[simp] theorem exprs_addCheckpoint (c : Constants) (label : String) (w : Writer) :
    (c.addCheckpoint label w).1.exprs = c.exprs := by
  unfold addCheckpoint
  split <;> rfl

@[simp] theorem exprs_addClassId (c : Constants) (cls : String) (w : Writer) :
    (c.addClassId cls w).1.exprs = c.exprs := by
  unfold addClassId
  split <;> rfl

variable {c : Constants} {text : String} (w : Writer)

theorem internExpr_of_mem (h : text ∈ c.exprs.map (·.1)) :
    ∃ id, (text, id) ∈ c.exprs ∧ c.internExpr text w = (id, c, w) := by
  cases hid : c.exprs.lookup text with
  | none => exact absurd h (lookup_eq_none_iff_not_mem.1 hid)
  | some id => exact ⟨id, mem_of_lookup hid, by simp only [internExpr, hid]⟩

theorem internExpr_of_not_mem (h : text ∉ c.exprs.map (·.1)) :
    ∃ id, id ∉ c.exprs.map (·.2) ∧ c.internExpr text w =
      (id, { c with exprs := c.exprs ++ [(text, id)] }, w.line ("const unique " ++ id ++ ":Expr;")) :=
  ⟨_, (freshName_spec "internal.expr" _).1, by
    simp only [internExpr, lookup_eq_none_iff_not_mem.2 h]⟩

end Constants

namespace Locals

variable {l : Locals} (h : l.names.Nodup)
include h

theorem nodup_declare (x sort : String) : (l.declare x sort).names.Nodup := by
  unfold declare
  split
  · exact h
  · rename_i hx
    have hx : x ∉ l.names := by simpa [contains] using hx
    simpa [names] using h.concat hx

theorem nodup_fresh (sort : String) : (l.fresh sort).2.names.Nodup := by
  have hx := (freshName_spec "internal.tmp" l.names).1
  simpa [names, fresh] using h.concat hx

theorem nodup_extend (other : Locals) : (l.extend other).names.Nodup := by
  unfold extend
  induction other.vars generalizing l with
  | nil => exact h
  | cons p vars ih => exact ih (nodup_declare h _ _)

end Locals

/-! ## Histories -/

namespace Tables

variable {t : Tables} {rs : List Request}

/-- What holds after the requests `rs`. -/
structure Sound (rs : List Request) (t : Tables) : Prop where
  classes : t.classes.OneToOne
  interned : ∀ text, text ∈ t.constants.exprs.map (·.1) ↔ .intern text ∈ rs
  texts : (t.constants.exprs.map (·.1)).Nodup
  constants : (t.constants.exprs.map (·.2)).Nodup
  locals : t.locals.names.Nodup

theorem Sound.serve (h : Sound rs t) (r : Request) : Sound (rs ++ [r]) (t.serve r) := by
  have hrs := h.interned
  cases r with
  | addFields | addCheckpoint | addClassId =>
    exact ⟨h.classes, by simpa [Tables.serve] using hrs, by simpa [Tables.serve] using h.texts,
      by simpa [Tables.serve] using h.constants, h.locals⟩
  | intern text =>
    by_cases hmem : text ∈ t.constants.exprs.map (·.1)
    · obtain ⟨_, -, heq⟩ := Constants.internExpr_of_mem t.out hmem
      have hintern := (hrs text).1 hmem
      refine ⟨h.classes, fun text' => ?_, by simpa [Tables.serve, heq] using h.texts,
        by simpa [Tables.serve, heq] using h.constants, h.locals⟩
      simp only [Tables.serve, heq, hrs, List.mem_append, List.mem_singleton]
      exact ⟨.inl, fun h => h.elim id fun h => h ▸ hintern⟩
    · obtain ⟨id, hid, heq⟩ := Constants.internExpr_of_not_mem t.out hmem
      refine ⟨h.classes, fun text' => ?_, ?_, ?_, h.locals⟩
      · simp [Tables.serve, heq, ← hrs]
      · simpa [Tables.serve, heq] using h.texts.concat hmem
      · simpa [Tables.serve, heq] using h.constants.concat hid
  | insertClass o cls =>
    cases hins : t.classes.insert o cls with
    | error f =>
      rw [Tables.serve, hins]
      exact ⟨h.classes, by simpa using hrs, h.texts, h.constants, h.locals⟩
    | ok c =>
      rw [Tables.serve, hins]
      exact ⟨h.classes.insert (h.classes.insert_ok_iff.1 ⟨c, hins⟩) hins, by simpa using hrs,
        h.texts, h.constants, h.locals⟩
  | declare x sort =>
    exact ⟨h.classes, by simpa [Tables.serve] using hrs, h.texts, h.constants,
      Locals.nodup_declare h.locals x sort⟩
  | fresh sort =>
    exact ⟨h.classes, by simpa [Tables.serve] using hrs, h.texts, h.constants,
      Locals.nodup_fresh h.locals sort⟩
  | extend other =>
    exact ⟨h.classes, by simpa [Tables.serve] using hrs, h.texts, h.constants,
      Locals.nodup_extend h.locals other⟩

theorem Sound.serveAll (h : Sound rs t) (more : List Request) :
    Sound (rs ++ more) (t.serveAll more) := by
  induction more generalizing rs t with
  | nil => simpa [Tables.serveAll] using h
  | cons r more ih =>
    rw [List.append_cons]
    exact ih (h.serve r)

/-- What users of the tables rely on after the requests `rs`. -/
structure Lawful (rs : List Request) (t : Tables) : Prop where
  inverse : ∀ template cls,
    t.classes.idOf? template = some cls ↔ t.classes.templateOf? cls = some template
  insert_ok_iff : ∀ o cls, (∃ c, t.classes.insert o cls = .ok c) ↔
    (∀ cls', t.classes.get? o = some cls' → cls' = cls) ∧
      ∀ other, t.classes.templateOf? cls = some other → other = template o
  insert_error : ∀ o cls f, t.classes.insert o cls = .error f → t.serve (.insertClass o cls) = t
  freshId : t.classes.templateOf? t.classes.freshId = none
  /-- The constant for a text is its own from the first request on. -/
  constantFor : ∀ text more text',
    ((t.serve (.intern text)).serveAll more).constantFor text' = t.constantFor text ↔ text' = text
  /-- A text that was interned is not declared again. -/
  silent : ∀ text, .intern text ∈ rs → (t.serve (.intern text)).out = t.out
  declared : ∀ text, .intern text ∉ rs → (t.serve (.intern text)).out =
    t.out.line ("const unique " ++ t.constantFor text ++ ":Expr;")
  nodup : t.locals.names.Nodup
  fresh : ∀ sort, (t.locals.fresh sort).1 ∉ t.locals.names

end Tables

end GameHop.Program
