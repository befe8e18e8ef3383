import Nauro.Core.QuestionResolution

/-!
# Writing a questions file back

A file that is parsed and formatted is written back line by line. The header and the section
lines lose the space behind them, an entry is written from its fields, a missing header is added,
and every other line stays as it is. So a text comes back as it was exactly when each of its
lines already has the form that it is written in.
-/

namespace Nauro
namespace Core
namespace Questions

open Foundation

/-! ## Line by line -/

/-- A line that joins the open block opens none. -/
theorem Pending.not_opensBlock_of_join {pending joined : Pending} {line : Text}
    (h : pending.join line = some joined) : opensBlock line = false := by
  cases pending with
  | none => cases h
  | prose lines =>
      simp only [Pending.join, Option.ite_none_left_eq_some, Bool.not_eq_true] at h
      exact h.1
  | entry e =>
      simp only [Pending.join, Option.ite_none_right_eq_some] at h
      obtain ⟨more, rfl⟩ := List.isPrefixOf_iff_prefix.mp h.1
      rfl
  | topic lines embeddedId =>
      simp only [Pending.join, Option.ite_none_left_eq_some, Bool.or_eq_true, not_or,
        Bool.not_eq_true] at h
      exact h.1.2

end Questions
end Core
end Nauro
