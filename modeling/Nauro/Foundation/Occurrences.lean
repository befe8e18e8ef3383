import Mathlib.Data.List.Basic

/-!
# Where a text occurs in another
-/

namespace Foundation
namespace Occurrences

variable {α : Type*} {needle text : List α} {start hit : Nat}

/-- The needle stands at an offset of the text. -/
def OccursAt (needle text : List α) (offset : Nat) : Prop :=
  needle <+: text.drop offset

theorem OccursAt.add_le (hneedle : needle ≠ []) (h : OccursAt needle text hit) :
    hit + needle.length ≤ text.length := by
  have hlength := h.length_le
  have hpositive := List.length_pos_iff.mpr hneedle
  rw [List.length_drop] at hlength
  omega

variable [DecidableEq α]

instance (needle text : List α) (offset : Nat) : Decidable (OccursAt needle text offset) :=
  inferInstanceAs (Decidable (_ <+: _))

/-- The first offset at or after a start. -/
def findFrom (needle text : List α) (start : Nat) : Option Nat :=
  (List.range text.length).find? fun offset =>
    decide (start ≤ offset ∧ OccursAt needle text offset)

theorem findFrom_some (h : findFrom needle text start = some hit) :
    start ≤ hit ∧ hit < text.length ∧ OccursAt needle text hit ∧
      ∀ offset, start ≤ offset → offset < hit → ¬ OccursAt needle text offset := by
  obtain ⟨hhere, hrange, hfirst⟩ := List.find?_range_eq_some.mp h
  obtain ⟨hstart, hoccurs⟩ := of_decide_eq_true hhere
  refine ⟨hstart, List.mem_range.mp hrange, hoccurs, ?_⟩
  intro offset hge hlt hbefore
  have hnot := hfirst offset hlt
  rw [decide_eq_true (p := start ≤ offset ∧ _) ⟨hge, hbefore⟩] at hnot
  cases hnot

theorem findFrom_none (hneedle : needle ≠ []) (h : findFrom needle text start = none)
    {offset : Nat} (hstart : start ≤ offset) : ¬ OccursAt needle text offset := by
  intro hoccurs
  have hlength := hoccurs.add_le hneedle
  have hpositive := List.length_pos_iff.mpr hneedle
  have hnot := List.find?_range_eq_none.mp h offset (by omega)
  rw [decide_eq_true (p := start ≤ offset ∧ _) ⟨hstart, hoccurs⟩] at hnot
  cases hnot

end Occurrences
end Foundation
