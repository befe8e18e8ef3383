import Mathlib.Data.List.Basic

/-!
# A block between two markers

A managed block of a sequence of lines runs from the first opening marker to the first closing
marker behind it.

* `split_unique` — a sequence is cut at its block in one way only.
-/

namespace Foundation
namespace ManagedBlock

variable {α : Type}

/-- The indices of the markers of the block. -/
def findBlock [DecidableEq α] (opening closing : α) (lines : List α) : Option (Nat × Nat) := do
  let first ← lines.idxOf? opening
  let last ← (lines.drop (first + 1)).idxOf? closing
  return (first, first + 1 + last)

/-- A block with its markers. -/
def block (opening closing : α) (inner : List α) : List α :=
  opening :: (inner ++ [closing])

/-- A sequence cut at its block. -/
structure Split (opening closing : α) (lines front inner back : List α) : Prop where
  lines_eq : lines = front ++ (block opening closing inner ++ back)
  front_plain : opening ∉ front
  inner_plain : closing ∉ inner

variable {opening closing : α} {lines front inner back : List α}

theorem idxOf?_append_cons [DecidableEq α] {x : α} {before after : List α} (h : x ∉ before) :
    (before ++ x :: after).idxOf? x = some before.length := by
  induction before with
  | nil =>
      rw [List.nil_append, List.idxOf?, List.findIdx?_cons, BEq.rfl]
      rfl
  | cons a before ih =>
      have hne : x ≠ a := List.ne_of_not_mem_cons h
      have hmore : x ∉ before := List.not_mem_of_not_mem_cons h
      have hrec := ih hmore
      rw [List.idxOf?] at hrec ⊢
      rw [List.cons_append, List.findIdx?_cons, beq_eq_false_iff_ne.mpr (Ne.symm hne), hrec]
      rfl

theorem idxOf?_of_notMem [DecidableEq α] {x : α} (h : x ∉ lines) : lines.idxOf? x = none :=
  List.idxOf?_eq_none_iff.mpr h

/-- The first place where an element stands. -/
theorem exists_first {x : α} (h : x ∈ lines) :
    ∃ before after, lines = before ++ x :: after ∧ x ∉ before := by
  classical
  induction lines with
  | nil => cases h
  | cons a lines ih =>
      by_cases ha : a = x
      · exact ⟨[], lines, by rw [ha]; rfl, List.not_mem_nil⟩
      · obtain ⟨before, after, rfl, hbefore⟩ := ih ((List.mem_cons.mp h).resolve_left (Ne.symm ha))
        refine ⟨a :: before, after, rfl, ?_⟩
        rw [List.mem_cons]
        rintro (heq | hin)
        · exact ha heq.symm
        · exact hbefore hin

theorem first_unique {x : α} {before before' after after' : List α} (hbefore : x ∉ before)
    (hbefore' : x ∉ before') (h : before ++ x :: after = before' ++ x :: after') :
    before = before' ∧ after = after' := by
  classical
  have hlength := congrArg (List.idxOf? x) h
  rw [idxOf?_append_cons hbefore, idxOf?_append_cons hbefore'] at hlength
  obtain ⟨hfront, hback⟩ := List.append_inj h (Option.some.inj hlength)
  exact ⟨hfront, (List.cons.inj hback).2⟩

theorem Split.findBlock [DecidableEq α] (h : Split opening closing lines front inner back) :
    findBlock opening closing lines =
      some (front.length, front.length + 1 + inner.length) := by
  have hdrop : (front ++ opening :: (inner ++ closing :: back)).drop (front.length + 1) =
      inner ++ closing :: back := by
    rw [← List.drop_drop, List.drop_left]
    rfl
  have hlines : lines = front ++ opening :: (inner ++ closing :: back) := by
    rw [h.lines_eq, block]
    simp
  rw [ManagedBlock.findBlock, hlines, idxOf?_append_cons h.front_plain]
  simp only [Option.bind_eq_bind, Option.bind_some]
  rw [hdrop, idxOf?_append_cons h.inner_plain]
  rfl

/-- A sequence is cut at its block in one way only. -/
theorem split_unique {front' inner' back' : List α}
    (h : Split opening closing lines front inner back)
    (h' : Split opening closing lines front' inner' back') :
    front = front' ∧ inner = inner' ∧ back = back' := by
  have heq := h.lines_eq.symm.trans h'.lines_eq
  simp only [block, List.cons_append, List.append_assoc, List.nil_append] at heq
  obtain ⟨hfront, hrest⟩ := first_unique h.front_plain h'.front_plain heq
  obtain ⟨hinner, hback⟩ := first_unique h.inner_plain h'.inner_plain hrest
  exact ⟨hfront, hinner, hback⟩

theorem findBlock_of_notMem [DecidableEq α] (h : opening ∉ lines) : findBlock opening closing lines = none := by
  rw [findBlock, idxOf?_of_notMem h]
  rfl

/-- An opening marker that nothing closes. -/
def Orphaned (opening closing : α) (lines : List α) : Prop :=
  ∃ front back, lines = front ++ opening :: back ∧ opening ∉ front ∧ closing ∉ back

theorem Orphaned.findBlock [DecidableEq α] (h : Orphaned opening closing lines) :
    findBlock opening closing lines = none := by
  obtain ⟨front, back, rfl, hfront, hback⟩ := h
  have hdrop : (front ++ opening :: back).drop (front.length + 1) = back := by
    rw [← List.drop_drop, List.drop_left]
    rfl
  rw [ManagedBlock.findBlock, idxOf?_append_cons hfront]
  simp only [Option.bind_eq_bind, Option.bind_some]
  rw [hdrop, idxOf?_of_notMem hback]
  rfl

theorem Orphaned.mem (h : Orphaned opening closing lines) : opening ∈ lines := by
  obtain ⟨front, back, rfl, -, -⟩ := h
  exact List.mem_append_right _ (List.mem_cons_self ..)

theorem Split.mem (h : Split opening closing lines front inner back) : opening ∈ lines := by
  rw [h.lines_eq]
  exact List.mem_append_right _ (List.mem_cons_self ..)

/-- Every sequence has a block, or no opening marker, or one that nothing closes. -/
theorem findBlock_cases (opening closing : α) (lines : List α) :
    opening ∉ lines ∨ Orphaned opening closing lines ∨
      ∃ front inner back, Split opening closing lines front inner back := by
  classical
  by_cases hin : opening ∈ lines
  · obtain ⟨front, rest, rfl, hfront⟩ := exists_first hin
    by_cases hclose : closing ∈ rest
    · obtain ⟨inner, back, rfl, hinner⟩ := exists_first hclose
      exact Or.inr (Or.inr ⟨front, inner, back, by simp [block], hfront, hinner⟩)
    · exact Or.inr (Or.inl ⟨front, rest, rfl, hfront, hclose⟩)
  · exact Or.inl hin

theorem not_split_of_orphaned (h : Orphaned opening closing lines) :
    ¬ Split opening closing lines front inner back := by
  classical
  intro hsplit
  have hnone := h.findBlock
  rw [hsplit.findBlock] at hnone
  cases hnone

/-! ## The parts of a cut sequence -/

variable (h : Split opening closing lines front inner back)

include h

theorem Split.take_first : lines.take front.length = front := by
  rw [h.lines_eq, List.take_left]

theorem Split.take_opening : lines.take (front.length + 1) = front ++ [opening] := by
  rw [h.lines_eq, block, List.cons_append, List.take_append, List.take_of_length_le (by omega),
    Nat.add_sub_cancel_left]
  rfl

theorem Split.take_last :
    lines.take (front.length + 1 + inner.length) = front ++ opening :: inner := by
  have hlines : lines = (front ++ opening :: inner) ++ closing :: back := by
    rw [h.lines_eq, block]
    simp
  have hlength : front.length + 1 + inner.length = (front ++ opening :: inner).length := by
    rw [List.length_append, List.length_cons]
    omega
  rw [hlines, hlength, List.take_left]

theorem Split.drop_last : lines.drop (front.length + 1 + inner.length) = closing :: back := by
  have hlines : lines = (front ++ opening :: inner) ++ closing :: back := by
    rw [h.lines_eq, block]
    simp
  have hlength : front.length + 1 + inner.length = (front ++ opening :: inner).length := by
    rw [List.length_append, List.length_cons]
    omega
  rw [hlines, hlength, List.drop_left]

theorem Split.drop_behind : lines.drop (front.length + 1 + inner.length + 1) = back := by
  rw [← List.drop_drop, h.drop_last]
  rfl

theorem Split.inner_eq :
    (lines.take (front.length + 1 + inner.length)).drop (front.length + 1) = inner := by
  rw [h.take_last, ← List.drop_drop, List.drop_left]
  rfl

end ManagedBlock
end Foundation
