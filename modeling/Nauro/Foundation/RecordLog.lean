import Nauro.Foundation.LineText

/-!
# Logs of one record a line

A log is a sequence of symbols; its records are the lines of it that are not blank. A writer ends
the line the log stops in before it writes a record and the end of its line, and what it writes
can be cut off anywhere.

* `records_append` — the records before it are untouched, and it adds what it wrote of its own.
-/

namespace Foundation
namespace RecordLog

variable {α : Type} [DecidableEq α]

/-- The lines of a log that are not blank. -/
def records (sep : α) (blank : List α → Bool) (log : List α) : List (List α) :=
  (log.splitOn sep).filter fun line => !blank line

/-- The end of the line that the log stops in. -/
def closing (sep : α) (log : List α) : List α :=
  if log ≠ [] ∧ log.getLast? ≠ some sep then [sep] else []

/-- How much of a record is in the log when the writer stops after `cut` symbols. -/
def written (sep : α) (log record : List α) (cut : Nat) : List α :=
  record.take (cut - (closing sep log).length)

/-- A writer that stops after `cut` symbols. -/
def append (sep : α) (log record : List α) (cut : Nat) : List α :=
  log ++ (closing sep log ++ (record ++ [sep])).take cut

variable {sep : α} {blank : List α → Bool}

theorem records_nil (hblank : blank [] = true) : records sep blank [] = [] := by
  rw [records, List.splitOn_nil, List.filter_singleton, hblank]
  rfl

theorem records_append_sep (front rest : List α) :
    records sep blank (front ++ sep :: rest) =
      records sep blank front ++ records sep blank rest := by
  rw [records, LineText.splitOn_append_sep, List.filter_append, records, records]

/-- A text without an end of line is a record unless it is blank. -/
theorem records_line {line : List α} (hline : sep ∉ line) :
    records sep blank line = if blank line then [] else [line] := by
  rw [records, List.splitOn_eq_singleton hline, List.filter_singleton]
  cases blank line <;> rfl

theorem records_line_sep {line : List α} (hblank : blank [] = true) (hline : sep ∉ line) :
    records sep blank (line ++ [sep]) = records sep blank line := by
  rw [records_append_sep, records_nil hblank, List.append_nil]

/-- Once its line is ended, a log is followed by the records of what comes behind. -/
theorem records_closed (hblank : blank [] = true) (log rest : List α) :
    records sep blank (log ++ (closing sep log ++ rest)) =
      records sep blank log ++ records sep blank rest := by
  unfold closing
  by_cases hnil : log = []
  · rw [if_neg (by exact fun h => h.1 hnil), hnil, records_nil hblank]
    rfl
  · by_cases hlast : log.getLast? = some sep
    · obtain ⟨front, rfl⟩ := List.getLast?_eq_some_iff.mp hlast
      rw [if_neg (by exact fun h => h.2 hlast), List.nil_append, List.append_assoc]
      show records sep blank (front ++ sep :: rest) = _
      rw [records_append_sep, records_append_sep, records_nil hblank, List.append_nil]
    · rw [if_pos ⟨hnil, hlast⟩]
      exact records_append_sep log rest

theorem take_closing (log : List α) {cut : Nat} (h : cut ≤ (closing sep log).length) :
    (closing sep log).take cut = [] ∨ (closing sep log).take cut = closing sep log := by
  unfold closing at h ⊢
  split_ifs at h ⊢ with hopen
  · rcases Nat.le_one_iff_eq_zero_or_eq_one.mp h with rfl | rfl
    · exact Or.inl rfl
    · exact Or.inr rfl
  · exact Or.inl (List.take_nil ..)

/-- A writer adds what it wrote of its record, and leaves the others alone. -/
theorem records_append (hblank : blank [] = true) (log : List α) {record : List α}
    (hrecord : sep ∉ record) (cut : Nat) :
    records sep blank (append sep log record cut) =
      records sep blank log ++ records sep blank (written sep log record cut) := by
  unfold append written
  rw [List.take_append]
  by_cases hcut : cut ≤ (closing sep log).length
  · have hzero : cut - (closing sep log).length = 0 := by omega
    rw [hzero, List.take_zero, List.take_zero, List.append_nil, records_nil hblank, List.append_nil]
    rcases take_closing log hcut with h | h
    · rw [h, List.append_nil]
    · rw [h]
      have hclosed : records sep blank (log ++ (closing sep log ++ [])) = _ :=
        records_closed hblank log []
      rwa [List.append_nil, records_nil hblank, List.append_nil] at hclosed
  · rw [List.take_of_length_le (by omega), records_closed hblank]
    congr 1
    by_cases hall : cut - (closing sep log).length ≤ record.length
    · rw [List.take_append_of_le_length hall]
    · rw [List.take_of_length_le (by rw [List.length_append, List.length_singleton]; omega),
        List.take_of_length_le (by omega), records_line_sep hblank hrecord]

end RecordLog
end Foundation
