/-!
Tables as lists of entries, each a key with its value.
-/

namespace GameHop

variable {κ α : Type} [BEq κ]

/-- An entry in the place of the one with its key, or after all others. -/
def insertEntry (k : κ) (a : α) : List (κ × α) → List (κ × α)
  | [] => [(k, a)]
  | (l, b) :: rest => if l == k then (k, a) :: rest else (l, b) :: insertEntry k a rest

theorem lookup_insertEntry [LawfulBEq κ] [DecidableEq κ] (k l : κ) (a : α) (table : List (κ × α)) :
    (insertEntry k a table).lookup l = if l = k then some a else table.lookup l := by
  induction table with
  | nil => by_cases h : l = k <;> simp [insertEntry, List.lookup_cons, h, beq_eq_false_iff_ne.2]
  | cons p rest ih =>
    obtain ⟨m, b⟩ := p
    by_cases hm : m = k
    · subst hm
      by_cases h : l = m <;> simp [insertEntry, List.lookup_cons, h, beq_eq_false_iff_ne.2]
    · by_cases h : l = m
      · subst h
        simp [insertEntry, hm]
      · have hl : (l == m) = false := beq_eq_false_iff_ne.2 h
        simp [insertEntry, hm, List.lookup_cons, hl, ih]

theorem keys_insertEntry [LawfulBEq κ] [DecidableEq κ] (k : κ) (a : α) (table : List (κ × α)) :
    (insertEntry k a table).map (·.1) =
      if k ∈ table.map (·.1) then table.map (·.1) else table.map (·.1) ++ [k] := by
  induction table with
  | nil => rfl
  | cons p rest ih =>
    obtain ⟨l, b⟩ := p
    by_cases hl : l = k
    · simp [insertEntry, hl]
    · simp only [insertEntry, beq_iff_eq, hl, if_false, List.map_cons, ih, List.mem_cons, Ne.symm hl,
        false_or]
      split <;> rfl

end GameHop
