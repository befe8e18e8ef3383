import Mathlib.Data.List.Basic

/-!
# Two texts around one separator

A pair of texts is written as one text with a separator between its sides. A side may hold the
separator too, so different pairs may be written the same way.

* `joined_eq_iff` — two pairs have one text when they are equal or shifted, and only then.
-/

namespace Foundation
namespace JoinedPair

variable {α : Type*} {sep : α} {a b : List α × List α}

/-- The text of a pair. -/
def joined (sep : α) (pair : List α × List α) : List α :=
  pair.1 ++ sep :: pair.2

/-- The second pair has its separator further back: what stands between the two separators ends
its first side and starts the second side of the other. -/
def Precedes (sep : α) (a b : List α × List α) : Prop :=
  ∃ between, b.1 = a.1 ++ sep :: between ∧ a.2 = between ++ sep :: b.2

/-- The separators stand at different places. -/
def Shifted (sep : α) (a b : List α × List α) : Prop :=
  Precedes sep a b ∨ Precedes sep b a

theorem Precedes.joined_eq (h : Precedes sep a b) : joined sep a = joined sep b := by
  obtain ⟨between, hfirst, hsecond⟩ := h
  rw [joined, joined, hfirst, hsecond, List.append_assoc, List.cons_append]

/-- A text cut at two separators, the first side of `a` not longer than the other. -/
theorem eq_or_precedes {tail : List α} (hfirst : b.1 = a.1 ++ tail)
    (hrest : sep :: a.2 = tail ++ sep :: b.2) : a = b ∨ Precedes sep a b := by
  cases tail with
  | nil =>
      left
      rw [List.append_nil] at hfirst
      rw [List.nil_append, List.cons.injEq] at hrest
      exact Prod.ext hfirst.symm hrest.2
  | cons head between =>
      right
      rw [List.cons_append, List.cons.injEq] at hrest
      obtain ⟨rfl, hsecond⟩ := hrest
      exact ⟨between, hfirst, hsecond⟩

theorem joined_eq_iff : joined sep a = joined sep b ↔ a = b ∨ Shifted sep a b := by
  constructor
  · intro h
    rcases List.append_eq_append_iff.mp h with ⟨tail, hfirst, hrest⟩ | ⟨tail, hfirst, hrest⟩
    · exact (eq_or_precedes hfirst hrest).imp_right Or.inl
    · rcases eq_or_precedes hfirst hrest with heq | hbefore
      · exact Or.inl heq.symm
      · exact Or.inr (Or.inr hbefore)
  · rintro (rfl | hbefore | hafter)
    · rfl
    · exact hbefore.joined_eq
    · exact hafter.joined_eq.symm

end JoinedPair
end Foundation
