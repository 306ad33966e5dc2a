/-!
Places in a source text. A span is a run of bytes; an identifier is a name together with the place
where it was read. Nodes that no source text holds carry the span `Span.nowhere`.
-/

namespace GameHop

/-- A run of bytes of a source text. -/
structure Span where
  /-- The first byte. -/
  offset : Nat
  /-- The number of bytes. -/
  len : Nat
deriving DecidableEq, Repr, Inhabited

namespace Span

def stop (s : Span) : Nat :=
  s.offset + s.len

/-- The span of what was built rather than read. -/
def nowhere : Span :=
  ⟨0, 0⟩

/-- The bytes from the start of the earlier span on. When `b` does not start before `a` this is the
    least span that holds both; otherwise it ends where `a` ends. -/
def join (a b : Span) : Span :=
  if a.offset ≤ b.offset then ⟨a.offset, max b.stop a.stop - a.offset⟩
  else ⟨b.offset, a.stop - b.offset⟩

@[simp] theorem stop_mk (o l : Nat) : (Span.mk o l).stop = o + l := rfl

theorem offset_join (a b : Span) : (a.join b).offset = min a.offset b.offset := by
  unfold join; split <;> simp <;> omega

theorem stop_join_of_le {a b : Span} (h : a.offset ≤ b.offset) :
    (a.join b).stop = max b.stop a.stop := by
  simp only [join, h, if_true, stop]
  omega

end Span

/-- A name and the place where it stands. -/
structure Ident where
  span : Span
  name : String
deriving DecidableEq, Repr, Inhabited

/-- An identifier that no source text holds. -/
def Ident.plain (name : String) : Ident :=
  ⟨.nowhere, name⟩

end GameHop
