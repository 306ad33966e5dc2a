import GameHop.Proofs.Reading.Formulas

/-!
**Legible terms are read from their layouts** (`Expr.read`, `Formula.read`): in every position and
at every depth, the parsers read the tokens of a term as the term that they spell.
-/

namespace GameHop

mutual

theorem Expr.read : ∀ e : Expr, e.Legible → e.HoleFree → e.Read
  | .int s v, _, _ => Expr.read_int s v
  | .bool s b, _, _ => Expr.read_bool s b
  | .lookup s x, _, _ => Expr.read_lookup s x
  | .paren s l e, h, hf => by
    have hf := (Expr.holeFree_iff _).1 hf
    exact Expr.read_paren s l (e.read h.2 (hf.2 e (by simp [Expr.children])))
  | .seq s a b, h, hf => by
    have hf := (Expr.holeFree_iff _).1 hf
    exact Expr.read_seq s (a.read h.1 (hf.2 a (by simp [Expr.children])))
      (b.read h.2 (hf.2 b (by simp [Expr.children])))
  | .assign s x e, h, hf => by
    have hf := (Expr.holeFree_iff _).1 hf
    exact Expr.read_assign s x (e.read h.2 (hf.2 e (by simp [Expr.children])))
  | .ternary s a b c, h, hf => by
    have hf := (Expr.holeFree_iff _).1 hf
    exact Expr.read_ternary s (a.read h.1 (hf.2 a (by simp [Expr.children])))
      (b.read h.2.1 (hf.2 b (by simp [Expr.children])))
      (c.read h.2.2 (hf.2 c (by simp [Expr.children])))
  | .unary s op e, h, hf => by
    have hf := (Expr.holeFree_iff _).1 hf
    have he := e.read h (hf.2 e (by simp [Expr.children]))
    cases op with
    | not => exact Expr.read_not s he
    | ref => exact Expr.read_unary_word s .ref_ he (fun _ _ => rfl) (fun _ => rfl) rfl
    | tobits => exact Expr.read_unary_word s .tobits_ he (fun _ _ => rfl) (fun _ => rfl) rfl
  | .binary s op a b, h, hf => by
    have hf := (Expr.holeFree_iff _).1 hf
    exact Expr.read_binary s (a.read h.2.1 (hf.2 a (by simp [Expr.children])))
      (b.read h.2.2 (hf.2 b (by simp [Expr.children]))) h.1
  | .call s f args, h, hf => by
    have hf := (Expr.holeFree_iff _).1 hf
    exact Expr.read_call s f (Expr.readAll args h.2 hf.2)
  | .invoke s t m cs args, h, hf => by
    have hf := (Expr.holeFree_iff _).1 hf
    exact Expr.read_invoke s m cs (t.read h.2.2.1 (hf.2 t (by simp [Expr.children])))
      (Expr.readAll args h.2.2.2 fun a ha => hf.2 a (by simp [Expr.children, ha]))
  | .new s ⟨c, fields, methods⟩, h, hf => by
    have hf := (Expr.holeFree_iff _).1 hf
    refine Expr.read_new s (Field.readAll fields h.2.1 fun f hmem => hf.2 _ ?_)
      (Method.readAll methods h.2.2 fun m hmem => hf.2 _ ?_)
    · exact List.mem_append_left _ (List.mem_map_of_mem hmem)
    · exact List.mem_append_right _ (List.mem_map_of_mem hmem)
  | .index s a b, h, hf => by
    have hf := (Expr.holeFree_iff _).1 hf
    exact Expr.read_index s (a.read h.1 (hf.2 a (by simp [Expr.children])))
      (b.read h.2 (hf.2 b (by simp [Expr.children])))
  | .update s a b c, h, hf => by
    have hf := (Expr.holeFree_iff _).1 hf
    exact Expr.read_update s (a.read h.1 (hf.2 a (by simp [Expr.children])))
      (b.read h.2.1 (hf.2 b (by simp [Expr.children])))
      (c.read h.2.2 (hf.2 c (by simp [Expr.children])))
  | .assert s p, h, _ => Expr.read_assert s (p.read h)
  | .assume s p, h, _ => Expr.read_assume s (p.read h)
  | .ellipsis s, _, _ => Expr.read_ellipsis s
  | .hole s, _, hf => by
    have hf := (Expr.holeFree_iff _).1 hf
    exact absurd hf.1 (by simp [Expr.isHole])

theorem Expr.readAll : ∀ es : List Expr, Expr.LegibleList es → (∀ e ∈ es, e.HoleFree) →
    ∀ e ∈ es, e.Read
  | [], _, _ => by simp
  | e :: es, h, hf => by
    simp only [List.forall_mem_cons] at hf ⊢
    exact ⟨e.read h.1 hf.1, Expr.readAll es h.2 hf.2⟩

theorem Field.readAll : ∀ fs : List Field, Field.LegibleList fs → (∀ f ∈ fs, f.value.HoleFree) →
    ∀ f ∈ fs, f.value.Read
  | [], _, _ => by simp
  | ⟨_, _, value⟩ :: fs, h, hf => by
    simp only [List.forall_mem_cons] at hf ⊢
    exact ⟨value.read h.2.1 hf.1, Field.readAll fs h.2.2 hf.2⟩

theorem Method.readAll : ∀ ms : List Method, Method.LegibleList ms →
    (∀ m ∈ ms, m.body.HoleFree) → ∀ m ∈ ms, m.body.Read
  | [], _, _ => by simp
  | ⟨_, _, _, body⟩ :: ms, h, hf => by
    simp only [List.forall_mem_cons] at hf ⊢
    exact ⟨body.read h.2.2.1 hf.1, Method.readAll ms h.2.2.2 hf.2⟩

theorem Expr.readContexts : ∀ cs : List Expr, Expr.LegibleContexts cs → ∀ c ∈ cs, c.Read
  | [], _ => by simp
  | c :: cs, h => by
    simp only [List.forall_mem_cons]
    exact ⟨c.read h.1 h.2.1, Expr.readContexts cs h.2.2⟩

theorem Formula.read : ∀ p : Formula, p.Legible → p.Read
  | .int s v, _ => Formula.read_int s v
  | .bool s b, _ => Formula.read_bool s b
  | .lookup s _, h => Formula.read_lookup s h.2
  | .paren s p, h => Formula.read_paren s (p.read h)
  | .quant s q ps p, h => Formula.read_quant s q ps (p.read h.2)
  | .unary s op p, h => by
    have hp := p.read h
    cases op with
    | not => exact Formula.read_not s hp
    | tobits => exact Formula.read_tobits s hp
    | isBits => exact Formula.read_isBits s hp
  | .binary s op p q, h => Formula.read_binary s op (p.read h.1) (q.read h.2)
  | .call s _ args, h => Formula.read_call s h.2.1 (Formula.readAll args h.2.2)
  | .index s p q, h => Formula.read_index s (p.read h.1) (q.read h.2)
  | .update s p q r, h =>
    Formula.read_update s (p.read h.1) (q.read h.2.1) (r.read h.2.2)
  | .env s cs, h => Formula.read_env s (Expr.readContexts cs h)
  | .sameObject s a b, h =>
    Formula.read_sameObject s (a.read h.1) (b.read h.2)
  | .independence s k p q, h =>
    Formula.read_independence s (k.read h.1) (p.read h.2.1)
      (q.read h.2.2)
  | .objectIs s o (.named c), h =>
    Formula.read_objectIs s (o.read h.1) (by rintro x ⟨⟩; exact h.2.2)
  | .objectIs s o .invalid, h => Formula.read_objectIs s (o.read h) (by simp)
  | .field s o x, h => Formula.read_field s x (o.read h.1)
  | .frameAll s, _ => Formula.read_frameAll s
  | .frame s p q, h => Formula.read_frame s (p.read h.1) (q.read h.2)
  | .frameHeap s k l p q, h =>
    Formula.read_frameHeap s (k.read h.1) (l.read h.2.1)
      (p.read h.2.2.1) (q.read h.2.2.2)
  | .fieldsEqual s, _ => Formula.read_fieldsEqual s
  | .fieldsEqualExcept s xs, _ => Formula.read_fieldsEqualExcept s xs

theorem Formula.readAll : ∀ ps : List Formula, Formula.LegibleList ps → ∀ p ∈ ps, p.Read
  | [], _ => by simp
  | p :: ps, h => by
    simp only [List.forall_mem_cons]
    exact ⟨p.read h.1, Formula.readAll ps h.2⟩

theorem ObjectTerm.read : ∀ o : ObjectTerm, o.Legible → o.Read
  | .side s, _ => ObjectTerm.read_side s
  | .inHeap k p, h => ObjectTerm.read_inHeap (k.read h.1) (p.read h.2)

theorem HeapTerm.read : ∀ k : HeapTerm, k.Legible → k.Read
  | .side s, _ => HeapTerm.read_side s
  | .inHeap k p, h => HeapTerm.read_inHeap (k.read h.1) (p.read h.2)

end

end GameHop
