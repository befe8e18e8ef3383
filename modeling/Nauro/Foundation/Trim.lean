import Mathlib.Data.List.Basic
import Mathlib.Data.List.DropRight

/-!
# Trimming both ends of a list

`trim p` drops the elements satisfying `p` from both ends.

* `trim_surround` — padding does not matter.
-/

namespace Foundation
namespace Trim

variable {α : Type*} {p : α → Bool}

/-- Drop the elements satisfying `p` from both ends. -/
def trim (p : α → Bool) (xs : List α) : List α :=
  (xs.dropWhile p).rdropWhile p

/-- Neither end satisfies `p`. -/
def Trimmed (p : α → Bool) (xs : List α) : Prop :=
  (∀ x ∈ xs.head?, p x = false) ∧ ∀ x ∈ xs.getLast?, p x = false

instance (xs : List α) : Decidable (Trimmed p xs) :=
  inferInstanceAs (Decidable (_ ∧ _))

@[simp] theorem trim_nil : trim p [] = [] := rfl

theorem rdropWhile_eq_self {xs : List α} (h : ∀ x ∈ xs.getLast?, p x = false) :
    xs.rdropWhile p = xs := by
  rw [List.rdropWhile_eq_self_iff]
  intro hne
  have hlast := h (xs.getLast hne) (List.getLast?_eq_some_getLast hne)
  simp [hlast]

theorem dropWhile_eq_self {xs : List α} (h : ∀ x ∈ xs.head?, p x = false) :
    xs.dropWhile p = xs := by
  cases xs with
  | nil => rfl
  | cons x xs => simp [h x rfl]

theorem head?_dropWhile (xs : List α) : ∀ x ∈ (xs.dropWhile p).head?, p x = false := by
  intro x hx
  have hnot := List.head?_dropWhile_not p xs
  rw [Option.mem_def] at hx
  rw [hx] at hnot
  simpa using hnot

theorem getLast?_rdropWhile (xs : List α) :
    ∀ x ∈ (xs.rdropWhile p).getLast?, p x = false := by
  intro x hx
  have hne : xs.rdropWhile p ≠ [] := by
    intro hnil
    rw [hnil] at hx
    cases hx
  have hlast := List.rdropWhile_last_not p xs hne
  rw [Option.mem_def, List.getLast?_eq_some_getLast hne] at hx
  rw [← Option.some.inj hx]
  simpa using hlast

theorem trim_eq_self {xs : List α} (h : Trimmed p xs) : trim p xs = xs := by
  rw [trim, dropWhile_eq_self h.1, rdropWhile_eq_self h.2]

theorem trimmed_trim (xs : List α) : Trimmed p (trim p xs) := by
  refine ⟨?_, getLast?_rdropWhile _⟩
  intro x hx
  obtain ⟨rest, hrest⟩ := List.rdropWhile_prefix p (xs.dropWhile p)
  apply head?_dropWhile xs x
  rw [← hrest]
  unfold trim at hx
  cases hkept : (xs.dropWhile p).rdropWhile p with
  | nil => rw [hkept] at hx; cases hx
  | cons y ys =>
      rw [hkept] at hx
      exact hx

theorem trim_eq_self_iff {xs : List α} : trim p xs = xs ↔ Trimmed p xs := by
  constructor
  · intro h
    rw [← h]
    exact trimmed_trim xs
  · exact trim_eq_self

theorem trim_trim (xs : List α) : trim p (trim p xs) = trim p xs :=
  trim_eq_self (trimmed_trim xs)

theorem dropWhile_append_of_all {front : List α} (hfront : ∀ x ∈ front, p x = true)
    (xs : List α) : (front ++ xs).dropWhile p = xs.dropWhile p := by
  induction front with
  | nil => rfl
  | cons x front ih =>
      obtain ⟨hx, hrest⟩ := List.forall_mem_cons.mp hfront
      rw [List.cons_append, List.dropWhile_cons, if_pos hx, ih hrest]

theorem rdropWhile_append_of_all {back : List α} (hback : ∀ x ∈ back, p x = true)
    (xs : List α) : (xs ++ back).rdropWhile p = xs.rdropWhile p := by
  unfold List.rdropWhile
  rw [List.reverse_append, dropWhile_append_of_all]
  intro x hx
  exact hback x (List.mem_reverse.mp hx)

/-- What trimming drops are two runs of padding. -/
theorem exists_trim (xs : List α) :
    ∃ front back, xs = front ++ (trim p xs ++ back) ∧
      (∀ x ∈ front, p x = true) ∧ ∀ x ∈ back, p x = true := by
  refine ⟨xs.takeWhile p, (xs.dropWhile p).rtakeWhile p, ?_, ?_, ?_⟩
  · rw [trim, List.rdropWhile_append_rtakeWhile, List.takeWhile_append_dropWhile]
  · exact fun x hx => List.mem_takeWhile_imp hx
  · exact fun x hx => List.mem_rtakeWhile_imp hx

theorem trim_eq_nil_iff {xs : List α} : trim p xs = [] ↔ ∀ x ∈ xs, p x = true := by
  constructor
  · intro h x hx
    obtain ⟨front, back, hsplit, hfront, hback⟩ := exists_trim (p := p) xs
    rw [h, List.nil_append] at hsplit
    rw [hsplit] at hx
    rcases List.mem_append.mp hx with hin | hin
    · exact hfront x hin
    · exact hback x hin
  · intro h
    rw [trim, ← List.append_nil xs, dropWhile_append_of_all h]
    rfl

theorem trim_append_left {front : List α} (hfront : ∀ x ∈ front, p x = true) (xs : List α) :
    trim p (front ++ xs) = trim p xs := by
  rw [trim, dropWhile_append_of_all hfront, trim]

theorem dropWhile_append_of_any {xs : List α} (hany : ∃ x ∈ xs, p x = false)
    (back : List α) : (xs ++ back).dropWhile p = xs.dropWhile p ++ back := by
  induction xs with
  | nil =>
      obtain ⟨x, hx, -⟩ := hany
      cases hx
  | cons x xs ih =>
      rw [List.cons_append, List.dropWhile_cons, List.dropWhile_cons]
      split
      · next hx =>
          apply ih
          obtain ⟨y, hy, hpy⟩ := hany
          rcases List.mem_cons.mp hy with rfl | hin
          · rw [hx] at hpy
            cases hpy
          · exact ⟨y, hin, hpy⟩
      · rfl

theorem rdropWhile_append_of_any {back : List α} (hany : ∃ x ∈ back, p x = false)
    (xs : List α) : (xs ++ back).rdropWhile p = xs ++ back.rdropWhile p := by
  have hreverse : ∃ x ∈ back.reverse, p x = false := by
    simpa using hany
  unfold List.rdropWhile
  rw [List.reverse_append, dropWhile_append_of_any hreverse, List.reverse_append,
    List.reverse_reverse]

theorem trim_append_right {back : List α} (hback : ∀ x ∈ back, p x = true) (xs : List α) :
    trim p (xs ++ back) = trim p xs := by
  by_cases hall : ∀ x ∈ xs, p x = true
  · have happend : ∀ x ∈ xs ++ back, p x = true := by
      intro x hx
      exact (List.mem_append.mp hx).elim (hall x) (hback x)
    rw [trim_eq_nil_iff.mpr hall, trim_eq_nil_iff.mpr happend]
  · have hany : ∃ x ∈ xs, p x = false := by
      simpa using hall
    rw [trim, dropWhile_append_of_any hany, rdropWhile_append_of_all hback, trim]

/-- Padding around a list does not change what trimming leaves. -/
theorem trim_surround {front back : List α} (hfront : ∀ x ∈ front, p x = true)
    (hback : ∀ x ∈ back, p x = true) (xs : List α) :
    trim p (front ++ (xs ++ back)) = trim p xs := by
  rw [trim_append_left hfront, trim_append_right hback]

/-- Trimming keeps every element that is not padding. -/
theorem countP_trim (xs : List α) :
    (trim p xs).countP (fun x => !p x) = xs.countP (fun x => !p x) := by
  obtain ⟨front, back, hsplit, hfront, hback⟩ := exists_trim xs
  have hzero : ∀ pad : List α, (∀ x ∈ pad, p x = true) → pad.countP (fun x => !p x) = 0 := by
    intro pad hpad
    rw [List.countP_eq_zero]
    intro x hx
    simp [hpad x hx]
  conv_rhs => rw [hsplit, List.countP_append, List.countP_append, hzero front hfront,
    hzero back hback]
  omega

theorem mem_of_mem_trim {xs : List α} {x : α} (hx : x ∈ trim p xs) : x ∈ xs := by
  obtain ⟨front, back, hsplit, -, -⟩ := exists_trim (p := p) xs
  rw [hsplit]
  exact List.mem_append_right _ (List.mem_append_left _ hx)

end Trim
end Foundation
