import GameHop.Proofs.Program.Declared
import GameHop.Proofs.Reading.Lexing
import Mathlib.Logic.Relation

/-!
The names of classes.
-/

namespace GameHop

open Program

/-! ## Templates and names -/

/-- The name of a class without one, by its number. -/
def Program.anonymousName (n : Nat) : String :=
  "internal.cls" ++ toString n

/-- Whether an object may have a class of the given name. -/
def Object.Takes (o : Object) (cls : String) : Prop :=
  (∃ x, o.className = some x ∧ cls = x.name) ∨ o.className = none ∧ ∃ n, cls = anonymousName n

theorem Ident.Legible.all_isIdentRest {x : Ident} (h : x.Legible) :
    x.name.toList.all Lexer.isIdentRest = true := by
  rw [Ident.Legible, Lexer.isName] at h
  split at h
  · cases h
  · next c cs hname =>
    rw [hname]
    simp only [Bool.and_eq_true] at h
    rw [List.all_cons, h.1.2, Bool.and_true, Lexer.isIdentRest, h.1.1]
    rfl

theorem Ident.Legible.ne_empty {x : Ident} (h : x.Legible) : x.name ≠ "" := by
  intro hx
  rw [Ident.Legible, hx] at h
  cases h

theorem Ident.Legible.ne_anonymousName {x : Ident} (h : x.Legible) (n : Nat) :
    x.name ≠ anonymousName n := by
  intro hx
  have hdot : '.' ∈ x.name.toList := by
    rw [hx, anonymousName, String.toList_append]
    exact List.mem_append_left _ (by decide)
  exact absurd (List.all_eq_true.1 h.all_isIdentRest '.' hdot) (by decide)

/-- A template begins with the name of its class. -/
theorem Program.toList_template (o : Object) :
    ∃ rest, (template o).toList =
      "new ".toList ++ (((o.className.map (·.name)).getD "").toList ++ '(' :: rest) := by
  obtain ⟨className, fields, methods⟩ := o
  cases className with
  | none =>
    obtain ⟨l, hl⟩ : ∃ l, (Object.toExpr ⟨none, fields.map fun f => ⟨f.span, f.name, .ofNat 0⟩,
        methods⟩).layout 0 (.operand .lowest) =
          .tok (.keyword .new_) :: .space :: .tok (.sym .lParen) :: l := ⟨_, rfl⟩
    refine ⟨(Layout.text l).toList, ?_⟩
    rw [template, Expr.text, hl, Layout.toList_text_cons, Layout.toList_text_cons,
      Layout.toList_text_cons]
    rfl
  | some x =>
    obtain ⟨l, hl⟩ : ∃ l, (Object.toExpr ⟨some x, fields.map fun f => ⟨f.span, f.name, .ofNat 0⟩,
        methods⟩).layout 0 (.operand .lowest) =
          .tok (.keyword .new_) :: .space :: .tok (.ident x.name) :: .tok (.sym .lParen) :: l :=
      ⟨_, rfl⟩
    refine ⟨(Layout.text l).toList, ?_⟩
    rw [template, Expr.text, hl, Layout.toList_text_cons, Layout.toList_text_cons,
      Layout.toList_text_cons, Layout.toList_text_cons]
    rfl

/-- Whether the class names of all given objects are identifiers, and each is given to one
    template. -/
structure Program.ClassNaming (os : List Object) : Prop where
  legible : ∀ {o x}, o ∈ os → o.className = some x → x.Legible
  unique : ∀ {o o' x x'}, o ∈ os → o' ∈ os → o.className = some x → o'.className = some x' →
    x.name = x'.name → template o = template o'

namespace Program.ClassNaming

variable {os : List Object} (h : ClassNaming os) {o o' : Object}

include h

theorem all_isIdentRest (ho : o ∈ os) :
    ((o.className.map (·.name)).getD "").toList.all Lexer.isIdentRest = true := by
  cases hname : o.className with
  | none => rfl
  | some x => exact (h.legible ho hname).all_isIdentRest

/-- **A template has one class name.** -/
theorem className_eq (ho : o ∈ os) (ho' : o' ∈ os) (ht : template o = template o') :
    o.className.map (·.name) = o'.className.map (·.name) := by
  obtain ⟨rest, hrest⟩ := toList_template o
  obtain ⟨rest', hrest'⟩ := toList_template o'
  rw [ht, hrest'] at hrest
  have hparen : ∀ {cs : List Char}, ∀ c ∈ ('(' :: cs).head?, Lexer.isIdentRest c = false := by
    rintro cs c ⟨⟩
    rfl
  have hword := congrArg (List.takeWhile Lexer.isIdentRest) (List.append_cancel_left hrest)
  rw [Lexer.takeWhile_append_of_head (h.all_isIdentRest ho) hparen,
    Lexer.takeWhile_append_of_head (h.all_isIdentRest ho') hparen, String.toList_inj] at hword
  cases hname : o.className with
  | none =>
    cases hname' : o'.className with
    | none => rfl
    | some x' =>
      rw [hname, hname'] at hword
      exact absurd hword (h.legible ho' hname').ne_empty
  | some x =>
    cases hname' : o'.className with
    | none =>
      rw [hname, hname'] at hword
      exact absurd hword.symm (h.legible ho hname).ne_empty
    | some x' =>
      rw [hname, hname'] at hword
      exact congrArg some hword.symm

end Program.ClassNaming

end GameHop

namespace GameHop.Program

/-! ## Entries -/

namespace Classes

variable {c c' : Classes} {o o' : Object} {cls : String}

/-- Whether neither the template nor the class has another partner. -/
structure Admits (c : Classes) (o : Object) (cls : String) : Prop where
  template_eq : ∀ {t}, (t, cls) ∈ c.entries → t = template o
  id_eq : ∀ {id}, (template o, id) ∈ c.entries → id = cls

theorem Admits.insert_ne_error (h : c.Admits o cls) (f : InternalFault) :
    c.insert o cls ≠ .error f := by
  have htemplate : (c.templateOf? cls).any (· != template o) = false := by
    cases hfind : c.entries.find? (·.2 == cls) with
    | none => simp [templateOf?, hfind]
    | some p =>
      have hmem := List.mem_of_find?_eq_some hfind
      have hcls : p.2 = cls := by simpa using List.find?_some hfind
      simpa [templateOf?, hfind] using h.template_eq (hcls ▸ hmem)
  have hid : (c.idOf? (template o)).any (· != cls) = false := by
    cases hlookup : c.idOf? (template o) with
    | none => rfl
    | some id => simpa using h.id_eq (mem_of_lookup hlookup)
  intro herror
  rw [insert, relate, htemplate, hid, if_neg Bool.false_ne_true, if_neg Bool.false_ne_true] at herror
  split at herror <;> cases herror

/-- Whether templates and classes have one partner each. -/
structure OneToOne (c : Classes) : Prop where
  template_eq : ∀ {t t' id}, (t, id) ∈ c.entries → (t', id) ∈ c.entries → t = t'
  id_eq : ∀ {t id id'}, (t, id) ∈ c.entries → (t, id') ∈ c.entries → id = id'

theorem OneToOne.insert (h : c.OneToOne) (ha : c.Admits o cls) (hins : c.insert o cls = .ok c') :
    c'.OneToOne where
  template_eq {t t' id} ht ht' := by
    obtain ht | ht := (mem_insert hins).1 ht
    · obtain ht' | ht' := (mem_insert hins).1 ht'
      · exact h.template_eq ht ht'
      · cases ht'
        exact ha.template_eq ht
    · cases ht
      obtain ht' | ht' := (mem_insert hins).1 ht'
      · exact (ha.template_eq ht').symm
      · cases ht'
        rfl
  id_eq {t id id'} ht ht' := by
    obtain ht | ht := (mem_insert hins).1 ht
    · obtain ht' | ht' := (mem_insert hins).1 ht'
      · exact h.id_eq ht ht'
      · cases ht'
        exact ha.id_eq ht
    · cases ht
      obtain ht' | ht' := (mem_insert hins).1 ht'
      · exact (ha.id_eq ht').symm
      · cases ht'
        rfl

/-- Whether the relation is one to one, between templates of the given objects and classes that
    these may have. -/
structure Orderly (os : List Object) (c : Classes) : Prop extends c.OneToOne where
  origin : ∀ {t id}, (t, id) ∈ c.entries → ∃ o ∈ os, template o = t ∧ o.Takes id

variable {os : List Object}

theorem orderly_empty : Orderly os .empty where
  template_eq := nofun
  id_eq := nofun
  origin := nofun

theorem Orderly.insert (h : Orderly os c) (ho : o ∈ os) (htakes : o.Takes cls) (ha : c.Admits o cls)
    (hins : c.insert o cls = .ok c') : Orderly os c' where
  toOneToOne := h.toOneToOne.insert ha hins
  origin {t id} ht := by
    obtain ht | ht := (mem_insert hins).1 ht
    · exact h.origin ht
    · cases ht
      exact ⟨o, ho, rfl, htakes⟩

theorem Orderly.admits_named {x : Ident} (h : Orderly os c) (hn : ClassNaming os) (ho : o ∈ os)
    (hx : o.className = some x) : c.Admits o x.name where
  template_eq {t} ht := by
    obtain ⟨o', ho', rfl, ⟨x', hx', hname⟩ | ⟨-, n, hname⟩⟩ := h.origin ht
    · exact hn.unique ho' ho hx' hx hname.symm
    · exact absurd hname ((hn.legible ho hx).ne_anonymousName n)
  id_eq {id} ht := by
    obtain ⟨o', ho', heq, htakes⟩ := h.origin ht
    have hname := hn.className_eq ho ho' heq.symm
    obtain ⟨x', hx', rfl⟩ | ⟨hnone, -⟩ := htakes
    · rw [hx, hx'] at hname
      exact (Option.some.inj hname).symm
    · rw [hx, hnone] at hname
      cases hname

/-! ## Reserved names -/

/-- Whether a name is kept free for an object: if its template has no entry, it is the first name
    that is free. -/
structure Reserved (o : Object) (cls : String) (c : Classes) : Prop where
  admits : c.Admits o cls
  first : ∃ n, cls = anonymousName n ∧ ∀ k < n, ∃ t, (t, anonymousName k) ∈ c.entries

theorem not_mem_of_get? (h : c.get? o = none) (id : String) : (template o, id) ∉ c.entries := by
  intro hid
  have hsome := isSome_get?_iff.2 ⟨id, hid⟩
  rw [h] at hsome
  cases hsome

theorem freshId_eq (c : Classes) :
    ∃ n, c.freshId = anonymousName n ∧ (∀ t, (t, anonymousName n) ∉ c.entries) ∧
      ∀ k < n, ∃ t, (t, anonymousName k) ∈ c.entries := by
  obtain ⟨n, hn, hfree, htaken⟩ :=
    firstFree_eq (append_toString_injective "internal.cls") (c.entries.map (·.2))
  refine ⟨n, hn, fun t ht => hfree (List.mem_map.2 ⟨_, ht, rfl⟩), fun k hk => ?_⟩
  obtain ⟨⟨t, id⟩, ht, rfl⟩ := List.mem_map.1 (htaken k hk)
  exact ⟨t, ht⟩

theorem reserved_freshId (h : c.get? o = none) : Reserved o c.freshId c := by
  obtain ⟨n, hn, hfree, htaken⟩ := freshId_eq c
  rw [hn]
  exact ⟨⟨fun ht => absurd ht (hfree _), fun ht => absurd ht (not_mem_of_get? h _)⟩, n, rfl, htaken⟩

theorem Reserved.freshId_eq (h : Reserved o cls c) (hget : c.get? o = none) : c.freshId = cls := by
  obtain ⟨n, rfl, hn⟩ := h.first
  obtain ⟨m, hm, hfree, htaken⟩ := c.freshId_eq
  obtain hlt | rfl | hlt := Nat.lt_trichotomy m n
  · obtain ⟨t, ht⟩ := hn m hlt
    exact absurd ht (hfree t)
  · exact hm
  · obtain ⟨t, ht⟩ := htaken n hlt
    exact absurd (h.admits.template_eq ht ▸ ht) (not_mem_of_get? hget _)

theorem Reserved.insert {cls' : String} (h : Reserved o cls c) (hins : c.insert o' cls' = .ok c')
    (hsame : template o' = template o ↔ cls' = cls) : Reserved o cls c' where
  admits := {
    template_eq := fun {t} ht => by
      obtain ht | ht := (mem_insert hins).1 ht
      · exact h.admits.template_eq ht
      · cases ht
        exact hsame.2 rfl
    id_eq := fun {id} ht => by
      obtain ht | ht := (mem_insert hins).1 ht
      · exact h.admits.id_eq ht
      · obtain ⟨heq, rfl⟩ := Prod.mk.inj ht
        exact hsame.1 heq.symm }
  first := by
    obtain ⟨n, hn, htaken⟩ := h.first
    exact ⟨n, hn, fun k hk => (htaken k hk).imp fun t ht => (mem_insert hins).2 (.inl ht)⟩

theorem Reserved.congr (h : Reserved o cls c) (ht : template o' = template o) :
    Reserved o' cls c where
  admits := ⟨fun h' => ht ▸ h.admits.template_eq h', fun h' => h.admits.id_eq (ht ▸ h')⟩
  first := h.first

end Classes

end GameHop.Program

/-! ## Objects without a class name -/

namespace GameHop

open Program

namespace Environment

variable (env : Environment)

/-- Whether the template of a class names another class. -/
def Names (cls cls' : String) : Prop :=
  ∃ o, env.classes.lookup cls = some o ∧ ∃ o' ∈ o.toExpr.objects, .named cls' ∈ o'.classUses

/-- Whether the declaration of a class may bring that of an object. -/
def Brings (cls : String) (o : Object) : Prop :=
  ∃ cls' o', Relation.ReflTransGen env.Names cls cls' ∧ env.classes.lookup cls' = some o' ∧
    o ∈ o'.toExpr.objects

/-- Whether the declaration of a class brings no objects without a name but those of a given
    template. -/
def Spares (cls : String) (o : Object) : Prop :=
  ∀ o', env.Brings cls o' → o'.className = none → template o' = template o

/-- Whether no object without a name brings another one by the classes that its code names. -/
def Separate (os : List Object) : Prop :=
  ∀ o ∈ os, o.className = none → ∀ cls, .named cls ∈ o.classUses → env.Spares cls o

/-- The object literals in all templates. -/
def templateObjects : List Object :=
  env.classes.flatMap fun c => c.2.toExpr.objects

/-- The object literals of a program for the given expressions. -/
def objectsWith (es : List Expr) : List Object :=
  env.functionObjects ++ env.templateObjects ++ es.flatMap Expr.objects

end Environment

/-- Whether a fault is a clash of classes. -/
def CheckError.Clash : CheckError → Prop
  | .internal (.classRedefined _) | .internal (.classRenamed _) => True
  | _ => False

theorem CheckError.Clash.ofClasses : ∀ {e : CheckError}, e.Clash → e.ofClasses
  | .internal (.classRedefined _), _ | .internal (.classRenamed _), _ => trivial

end GameHop

namespace GameHop.Program

/-- All faults but clashes. -/
def Faults.butClash : Faults :=
  .but CheckError.Clash

theorem Faults.butClash_usual : butClash.Usual :=
  but_usual fun _ he => he.ofClasses

/-- What is known of classes while a name may be kept for an object without one. -/
def Kept (os : List Object) (p : Option (Object × String)) : ClassFact :=
  fun classes _ => classes.Orderly os ∧
    ∀ q ∈ p, q.1 ∈ os ∧ q.1.className = none ∧ classes.Reserved q.1 q.2

section
variable {env : Environment} {os : List Object} {require : String → Build Unit}
  {p : Option (Object × String)} {o : Object} (hn : ClassNaming os)
  (hrequire : ∀ p cls, (∀ q ∈ p, env.Spares cls q.1) →
    InStep .butClash (Draft.Knows (Kept os p)) (Draft.Knows (Kept os p)) (require cls) (require cls))

include hn hrequire

theorem phase_named {x : Ident} (ho : o ∈ os) (hx : o.className = some x)
    (hspares : ∀ cls, .named cls ∈ o.classUses → ∀ q ∈ p, env.Spares cls q.1) :
    Phase .butClash require require (Kept os p) o x.name (Kept os p) where
  code u hu := by
    cases u with
    | named cls => exact hrequire p cls (hspares cls hu)
    | built o' => exact fun _ _ _ => .inr id
  entry classes ids classes' h hins := by
    refine ⟨h.1.insert ho (.inl ⟨x, hx, rfl⟩) (h.1.admits_named hn ho hx) hins, fun q hq => ?_⟩
    obtain ⟨hq, hnone, hreserved⟩ := h.2 q hq
    refine ⟨hq, hnone, hreserved.insert hins ⟨fun ht => ?_, fun hname => ?_⟩⟩
    · have hname := hn.className_eq ho hq ht
      rw [hx, hnone] at hname
      cases hname
    · obtain ⟨n, hn', -⟩ := hreserved.first
      exact absurd (hname.trans hn') ((hn.legible ho hx).ne_anonymousName n)
  fault classes ids f h hins :=
    absurd hins ((h.1.admits_named hn ho hx).insert_ne_error f)

omit hn in
theorem phase_anonymous {q : Object × String} (ho : o ∈ os) (hnone : o.className = none)
    (ht : template o = template q.1)
    (hspares : ∀ cls, .named cls ∈ o.classUses → env.Spares cls q.1) :
    Phase .butClash require require (Kept os (some q)) o q.2 (Kept os (some q)) where
  code u hu := by
    cases u with
    | named cls => exact hrequire _ cls fun _ hq => Option.some.inj hq ▸ hspares cls hu
    | built o' => exact fun _ _ _ => .inr id
  entry classes ids classes' h hins := by
    obtain ⟨hq, hqnone, hreserved⟩ := h.2 q rfl
    refine ⟨h.1.insert ho (.inr ⟨hnone, hreserved.first.imp fun _ h => h.1⟩)
      (hreserved.congr ht).admits hins, fun q' hq' => ?_⟩
    cases hq'
    exact ⟨hq, hqnone, hreserved.insert hins (iff_of_true ht rfl)⟩
  fault classes ids f h hins :=
    absurd hins (((h.2 q rfl).2.2.congr ht).admits.insert_ne_error f)

/-- **One declaration keeps names apart.** -/
theorem keeps_declareClass (ho : o ∈ os)
    (hseparate : o.className = none → ∀ cls, .named cls ∈ o.classUses → env.Spares cls o)
    (hsame : o.className = none → ∀ q ∈ p, template o = template q.1)
    (hspares : ∀ cls, .named cls ∈ o.classUses → ∀ q ∈ p, env.Spares cls q.1) :
    InStep .butClash (Draft.Knows (Kept os p)) (Draft.Knows (Kept os p))
      (declareClass env require o) (declareClass env require o) := by
  refine inStep_declareClass Faults.butClash_usual (fun _ _ h _ => h)
    fun classes ids cls h hget hcls => ?_
  cases hx : o.className with
  | some x =>
    obtain rfl : cls = x.name := by rw [hcls, hx]; rfl
    exact ⟨Kept os p, fun _ _ _ => h, phase_named hn hrequire ho hx hspares⟩
  | none =>
    obtain rfl : cls = classes.freshId := by rw [hcls, hx]; rfl
    cases p with
    | none =>
      have hphase : Phase .butClash require require _ o _ _ :=
        phase_anonymous (q := (o, classes.freshId)) hrequire ho hx rfl (hseparate hx)
      have hkept : Kept os (some (o, classes.freshId)) classes ids :=
        ⟨h.1, fun q hq => Option.some.inj hq ▸ ⟨ho, hx, Classes.reserved_freshId hget⟩⟩
      exact ⟨_, fun _ _ _ => hkept, hphase.code,
        fun cs ids cs' hcs hins => ⟨(hphase.entry cs ids cs' hcs hins).1, nofun⟩, hphase.fault⟩
    | some q =>
      have ht := hsame hx q rfl
      obtain hfresh : classes.freshId = q.2 :=
        ((h.2 q rfl).2.2.congr ht).freshId_eq hget
      rw [hfresh]
      exact ⟨_, fun _ _ _ => h,
        phase_anonymous hrequire ho hx ht fun cls hcls => hspares cls hcls q rfl⟩

omit hrequire in
/-- **All declarations keep names apart.** -/
theorem keeps_requireClass (hsub : env.templateObjects ⊆ os) (hseparate : env.Separate os)
    (depth : Nat) {cls : String} (hspares : ∀ q ∈ p, env.Spares cls q.1) :
    InStep .butClash (Draft.Knows (Kept os p)) (Draft.Knows (Kept os p))
      (requireClass env depth cls) (requireClass env depth cls) := by
  induction depth generalizing p cls with
  | zero => exact inStep_requireWith (fun _ _ _ h _ => h) fun o _ => .failed id
  | succ depth ih =>
    refine inStep_requireWith (fun _ _ _ h _ => h) fun o ho => ?_
    have hall : InStep .butClash (Draft.Knows (Kept os p)) (Draft.Knows (Kept os p))
        (declareAll env (requireClass env depth) o.toExpr)
        (declareAll env (requireClass env depth) o.toExpr) := by
      refine inStep_declareAll (I := fun _ => Kept os p) (fun _ o' ho' _ => ?_) []
      have hos : o' ∈ os := hsub (List.mem_flatMap.2 ⟨_, mem_of_lookup ho, ho'⟩)
      refine keeps_declareClass hn (fun p cls h => ih h) hos (hseparate o' hos)
        (fun hnone q hq => hspares q hq o' ⟨cls, o, .refl, ho, ho'⟩ hnone) fun cls' hcls' q hq => ?_
      -- What a class brings that the template names, the class of the template brings too.
      rintro o'' ⟨cls'', oc, hpath, hoc, ho''⟩
      exact hspares q hq o'' ⟨cls'', oc, .head ⟨o, ho, o', ho', hcls'⟩ hpath, hoc, ho''⟩
    exact hall.mono (fun _ h => h.1) fun _ h => h

omit hrequire in
theorem followed_kept (hsub : env.templateObjects ⊆ os) (hseparate : env.Separate os) :
    Followed .butClash env (· ∈ os) fun _ => Kept os none where
  usual := Faults.butClash_usual
  fewer _ h := h
  require _ _ := keeps_requireClass hn hsub hseparate _ nofun
  declare _ o ho _ :=
    keeps_declareClass hn (fun _ _ h => keeps_requireClass hn hsub hseparate _ h) ho
      (hseparate o ho) (fun _ => nofun) fun _ _ => nofun
  built _ _ := .inr id

end

/-- **Classes do not clash**, and different templates have different classes, if class names are
    identifiers, none is given to two templates, and no object without a class name brings another
    one by the classes that its code names. -/
theorem classes_apart (env : Environment) (es : List Expr)
    (hnaming : ClassNaming (env.objectsWith es)) (hseparate : env.Separate (env.objectsWith es)) :
    (∀ left ∈ es, ∀ right ∈ es,
      (∀ e, equivalence env left right = .error e → ¬ e.Clash) ∧
      ∀ d, (buildEquivalence env left right).run (.start env) = .ok ((), d) →
        ∀ o o' cls, d.classes.get? o = some cls → d.classes.get? o' = some cls →
          template o = template o') ∧
    ∀ b : Bisimulation, b.left.toExpr ∈ es → b.right.toExpr ∈ es →
      (∀ e, b.program env = .error e → ¬ e.Clash) ∧
      ∀ d, (b.build env).run (.start env) = .ok ((), d) →
        ∀ o o' cls, d.classes.get? o = some cls → d.classes.get? o' = some cls →
          template o = template o' := by
  have h := followed_kept hnaming
    (fun _ ho => List.mem_append_left _ (List.mem_append_right _ ho)) hseparate
  have hfunctions : ∀ o ∈ env.functionObjects, o ∈ env.objectsWith es :=
    fun _ ho => List.mem_append_left _ (List.mem_append_left _ ho)
  have hexprs : ∀ e ∈ es, ∀ o ∈ e.objects, o ∈ env.objectsWith es :=
    fun e he _ ho => List.mem_append_right _ (List.mem_flatMap.2 ⟨e, he, ho⟩)
  have hstart : Kept (env.objectsWith es) none .empty [] := ⟨Classes.orderly_empty, nofun⟩
  refine ⟨fun left hl right hr => ⟨fun e he hclash => ?_, fun d hd => ?_⟩,
    fun b hl hr => ⟨fun e he hclash => ?_, fun d hd => ?_⟩⟩
  · exact h.equivalence_ne hstart hclash hfunctions (hexprs _ hl) (hexprs _ hr) he
  · have hkept := (h.equivalence hfunctions (hexprs _ hl) (hexprs _ hr)).of_ok hd hstart
    exact fun o o' cls ho ho' => hkept.1.template_eq (mem_of_lookup ho) (mem_of_lookup ho')
  · exact h.bisimulation_ne hstart hclash hfunctions (hexprs _ hl) (hexprs _ hr) he
  · have hkept := (h.bisimulation hfunctions (hexprs _ hl) (hexprs _ hr)).of_ok hd hstart
    exact fun o o' cls ho ho' => hkept.1.template_eq (mem_of_lookup ho) (mem_of_lookup ho')

/-! ## Two objects without a class name -/

/-- The class that a program defines twice, if it fails for that. -/
def redefined? : Except CheckError String → Option String
  | .error (.internal (.classRedefined cls)) => some cls
  | _ => none

theorem eq_of_redefined? {r : Except CheckError String} {cls : String}
    (h : redefined? r = some cls) : r = .error (.internal (.classRedefined cls)) := by
  unfold redefined? at h
  split at h
  · cases h
    rfl
  · cases h

namespace Clashing

def method (name : String) (body : Expr) : Method :=
  ⟨.nowhere, .plain name, [⟨.nowhere, .plain "x", none⟩], body⟩

/-- `new () { method q(x) { 1 } }` -/
def inner : Object :=
  ⟨none, [], [method "q" (.ofNat 1)]⟩

/-- `new () { method <name>(x) { x.p<B>() } }` -/
def outer (name : String) : Object :=
  ⟨none, [], [method name (.invoke .nowhere (.var "x") (.plain "p") [.plain "B"] [])]⟩

/-- `new B() { method p(x) { <body> } }` -/
def classB (body : Expr) : Object :=
  ⟨some (.plain "B"), [], [method "p" body]⟩

def env (body : Expr) : Environment :=
  { Environment.ofConstants [] with classes := [("B", classB body)] }

theorem classNaming {os : List Object} (body : Expr)
    (hos : ∀ o ∈ os, o.className = none ∨ o = classB body) : ClassNaming os where
  legible {o x} ho hx := by
    obtain hnone | rfl := hos o ho
    · cases hnone.symm.trans hx
    · cases hx
      rfl
  unique {o o' x x'} ho ho' hx hx' _ := by
    obtain hnone | rfl := hos o ho
    · cases hnone.symm.trans hx
    · obtain hnone | rfl := hos o' ho'
      · cases hnone.symm.trans hx'
      · rfl

/-- A class `B` whose method returns a number brings nothing but itself. -/
theorem brings_eq {o : Object} (h : (env (.ofNat 1)).Brings "B" o) : o = classB (.ofNat 1) := by
  obtain ⟨cls, o', hpath, hlookup, ho⟩ := h
  have hcls : cls = "B" := by
    clear hlookup
    induction hpath with
    | refl => rfl
    | tail _ hnames ih =>
      obtain ⟨o, hlookup, o', ho', hcls⟩ := hnames
      subst ih
      cases hlookup
      cases List.mem_singleton.1 ho'
      exact (List.not_mem_nil hcls).elim
  subst hcls
  cases hlookup
  exact List.mem_singleton.1 ho

end Clashing

open Clashing in
/-- Both sides are objects without a class name, and both name the class `B`. -/
theorem classes_apart_two :
    let env := env (.ofNat 1)
    let left := (outer "g").toExpr
    let right := (outer "h").toExpr
    ClassNaming (env.objectsWith [left, right]) ∧ env.Separate (env.objectsWith [left, right]) ∧
    (∀ e, equivalence env left right = .error e → ¬ e.Clash) ∧
    ∀ d, (buildEquivalence env left right).run (.start env) = .ok ((), d) →
      ∀ o o' cls, d.classes.get? o = some cls → d.classes.get? o' = some cls →
        template o = template o' := by
  intro env left right
  have hnaming : ClassNaming (env.objectsWith [left, right]) := by
    refine classNaming (.ofNat 1) ?_
    rintro o (_ | ⟨_, _ | ⟨_, _ | ⟨_, ⟨⟩⟩⟩⟩)
    · exact .inr rfl
    · exact .inl rfl
    · exact .inl rfl
  have hseparate : env.Separate (env.objectsWith [left, right]) := by
    rintro o (_ | ⟨_, _ | ⟨_, _ | ⟨_, ⟨⟩⟩⟩⟩) hnone cls hcls o' ho' hnone'
    · cases hnone
    all_goals
      cases List.mem_singleton.1 hcls
      cases brings_eq ho'
      cases hnone'
  exact ⟨hnaming, hseparate,
    (classes_apart env [left, right] hnaming hseparate).1 left (.head _) right (.tail _ (.head _))⟩

open Clashing in
/-- An object without a class name that names the class `B`, where the template of `B` builds
    another one: both get the first free name. -/
theorem classes_clash :
    ClassNaming ((env inner.toExpr).objectsWith [(outer "g").toExpr, .ofNat 0]) ∧
    equivalence (env inner.toExpr) (outer "g").toExpr (.ofNat 0) =
      .error (.internal (.classRedefined "internal.cls0")) := by
  refine ⟨classNaming inner.toExpr ?_, eq_of_redefined? (by decide +kernel)⟩
  rintro o (_ | ⟨_, _ | ⟨_, _ | ⟨_, ⟨⟩⟩⟩⟩)
  · exact .inl rfl
  · exact .inr rfl
  · exact .inl rfl

end GameHop.Program
