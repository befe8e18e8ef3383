import Mathlib.Algebra.GroupWithZero.Nat
import Mathlib.Data.List.Basic
import Mathlib.Data.List.DropRight

/-!
# Texts cut into lines

A text is a list over an alphabet with one symbol for the line end; its lines are
`List.splitOn`. Nothing here depends on what the symbols are.
-/

namespace Foundation
namespace LineText

section Lines

variable {α : Type*} [DecidableEq α] {sep : α}

theorem splitOn_append_sep (front rest : List α) :
    (front ++ sep :: rest).splitOn sep = front.splitOn sep ++ rest.splitOn sep :=
  List.splitOn_append_cons_self front rest

theorem splitOn_cons_sep (rest : List α) :
    (sep :: rest).splitOn sep = [] :: rest.splitOn sep := by
  exact splitOn_append_sep [] rest

theorem splitOn_cons_of_ne {a : α} (ha : a ≠ sep) (rest : List α) :
    (a :: rest).splitOn sep = (rest.splitOn sep).modifyHead (List.cons a) := by
  rw [List.splitOn_cons_eq_if_modifyHead]
  simp [ha]

/-- A line has no elements but those of the text. -/
theorem mem_of_mem_splitOn {text line : List α} (hline : line ∈ text.splitOn sep) {a : α}
    (ha : a ∈ line) : a ∈ text := by
  induction text generalizing line with
  | nil =>
      rw [List.splitOn_nil, List.mem_singleton] at hline
      rw [hline] at ha
      exact ha
  | cons first rest ih =>
      by_cases hfirst : first = sep
      · rw [hfirst, splitOn_cons_sep] at hline
        rcases List.mem_cons.mp hline with rfl | hrest
        · cases ha
        · exact List.mem_cons_of_mem first (ih hrest ha)
      · rw [splitOn_cons_of_ne hfirst] at hline
        cases hlines : rest.splitOn sep with
        | nil => exact absurd hlines (List.splitOn_ne_nil sep rest)
        | cons next others =>
            rw [hlines, List.modifyHead_cons] at hline
            rw [hlines] at ih
            rcases List.mem_cons.mp hline with rfl | hrest
            · rcases List.mem_cons.mp ha with rfl | htail
              · exact List.mem_cons_self ..
              · exact List.mem_cons_of_mem first (ih (List.mem_cons_self ..) htail)
            · exact List.mem_cons_of_mem first (ih (List.mem_cons_of_mem next hrest) ha)

/-- A line never contains the line end. -/
theorem notMem_of_mem_splitOn {text line : List α}
    (hline : line ∈ text.splitOn sep) : sep ∉ line := by
  induction text generalizing line with
  | nil => simp_all
  | cons a rest ih =>
      by_cases ha : a = sep
      · subst ha
        rw [splitOn_cons_sep] at hline
        rcases List.mem_cons.mp hline with rfl | hrest
        · exact List.not_mem_nil
        · exact ih hrest
      · rw [splitOn_cons_of_ne ha] at hline
        cases hlines : rest.splitOn sep with
        | nil => exact absurd hlines (List.splitOn_ne_nil sep rest)
        | cons first others =>
            rw [hlines] at hline ih
            rw [List.modifyHead_cons] at hline
            rcases List.mem_cons.mp hline with rfl | hrest
            · intro hmem
              rcases List.mem_cons.mp hmem with heq | htail
              · exact ha heq.symm
              · exact ih (List.mem_cons_self ..) htail
            · exact ih (List.mem_cons_of_mem _ hrest)

omit [DecidableEq α] in
theorem intercalate_cons_cons (first second : List α) (others : List (List α)) :
    [sep].intercalate (first :: second :: others) =
      first ++ sep :: [sep].intercalate (second :: others) := by
  simp

omit [DecidableEq α] in
/-- Joining puts the separator before every part but the first. -/
theorem intercalate_cons (join first : List α) (others : List (List α)) :
    join.intercalate (first :: others) = first ++ others.flatMap (join ++ ·) := by
  induction others generalizing first with
  | nil => simp [List.intercalate]
  | cons second others ih =>
      have hrest := ih second
      simp only [List.intercalate, List.intersperse_cons_cons, List.flatten_cons] at hrest ⊢
      rw [hrest]
      simp

/-! ## A final line end -/

/-- The lines of a text; a final line end opens no further line. -/
def documentLines (sep : α) (text : List α) : List (List α) :=
  if text.getLast? = some sep then text.dropLast.splitOn sep else text.splitOn sep

theorem documentLines_append_sep (front : List α) :
    documentLines sep (front ++ [sep]) = front.splitOn sep := by
  simp [documentLines]

theorem splitOn_eq_documentLines (sep : α) (text : List α) :
    text.splitOn sep =
      documentLines sep text ++ if text.getLast? = some sep then [[]] else [] := by
  by_cases hlast : text.getLast? = some sep
  · obtain ⟨front, rfl⟩ := List.getLast?_eq_some_iff.mp hlast
    rw [documentLines_append_sep, splitOn_append_sep, if_pos hlast, List.splitOn_nil]
  · simp [documentLines, hlast]

theorem documentLines_ne_nil (sep : α) (text : List α) : documentLines sep text ≠ [] := by
  unfold documentLines
  split <;> exact List.splitOn_ne_nil _ _

theorem mem_documentLines {text line : List α} (hline : line ≠ []) :
    line ∈ documentLines sep text ↔ line ∈ text.splitOn sep := by
  rw [splitOn_eq_documentLines sep text, List.mem_append]
  constructor
  · exact Or.inl
  · rintro (h | h)
    · exact h
    · split at h
      · exact absurd (List.mem_singleton.mp h) hline
      · cases h

theorem notMem_of_mem_documentLines {text line : List α}
    (hline : line ∈ documentLines sep text) : sep ∉ line := by
  unfold documentLines at hline
  split at hline <;> exact notMem_of_mem_splitOn hline

theorem documentLines_intercalate_append_sep {lines : List (List α)} (hne : lines ≠ [])
    (hplain : ∀ line ∈ lines, sep ∉ line) :
    documentLines sep ([sep].intercalate lines ++ [sep]) = lines := by
  rw [documentLines_append_sep]
  exact List.splitOn_intercalate sep hplain hne

/-! ## Texts made of whole lines -/

/-- Every line of the text is ended. -/
def Terminated (sep : α) (text : List α) : Prop :=
  text = [] ∨ text.getLast? = some sep

instance (text : List α) : Decidable (Terminated sep text) :=
  inferInstanceAs (Decidable (_ ∨ _))

/-- The lines of a text whose lines are all ended. -/
def terminatedLines (sep : α) (text : List α) : List (List α) :=
  if text = [] then [] else documentLines sep text

theorem terminatedLines_of_ne_nil {text : List α} (hne : text ≠ []) :
    terminatedLines sep text = documentLines sep text := by
  simp [terminatedLines, hne]

omit [DecidableEq α] in
theorem terminated_append {front back : List α} (hfront : Terminated sep front)
    (hback : Terminated sep back) : Terminated sep (front ++ back) := by
  rcases hback with rfl | hback
  · rwa [List.append_nil]
  · right
    obtain ⟨rest, rfl⟩ := List.getLast?_eq_some_iff.mp hback
    rw [← List.append_assoc]
    exact List.getLast?_concat

/-- Whole lines come first; the rest is read as if it stood alone. -/
theorem documentLines_append {front back : List α} (hfront : Terminated sep front)
    (hback : back ≠ []) :
    documentLines sep (front ++ back) = terminatedLines sep front ++ documentLines sep back := by
  rcases hfront with rfl | hfront
  · rfl
  · obtain ⟨rest, rfl⟩ := List.getLast?_eq_some_iff.mp hfront
    have hlast : ((rest ++ [sep]) ++ back).getLast? = back.getLast? := by
      rw [List.getLast?_append_of_ne_nil _ hback]
    rw [terminatedLines_of_ne_nil (by simp), documentLines_append_sep]
    by_cases hend : back.getLast? = some sep
    · obtain ⟨body, rfl⟩ := List.getLast?_eq_some_iff.mp hend
      rw [← List.append_assoc, documentLines_append_sep, documentLines_append_sep,
        List.append_assoc, List.singleton_append, splitOn_append_sep]
    · have hjoin : ¬ ((rest ++ [sep]) ++ back).getLast? = some sep := by rwa [hlast]
      rw [documentLines, if_neg hjoin, documentLines, if_neg hend, List.append_assoc,
        List.singleton_append, splitOn_append_sep]

theorem terminatedLines_append {front back : List α} (hfront : Terminated sep front) :
    terminatedLines sep (front ++ back) =
      terminatedLines sep front ++ terminatedLines sep back := by
  by_cases hback : back = []
  · subst hback
    simp [terminatedLines]
  · rw [terminatedLines_of_ne_nil (by simp [hback]), documentLines_append hfront hback,
      terminatedLines_of_ne_nil hback]

end Lines

end LineText
end Foundation
