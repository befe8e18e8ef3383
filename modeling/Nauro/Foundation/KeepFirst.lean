import Mathlib.Algebra.GroupWithZero.Nat
import Mathlib.Data.List.Basic
import Mathlib.Data.List.Nodup

/-!
# Keeping first occurrences

`keepFrom exempt seen xs` drops from `xs` every element that was seen before, in `seen` or
earlier in `xs`, except that exempt elements always stay.

* `keepFrom_eq_self_iff` — when nothing is dropped.
-/

namespace Foundation
namespace KeepFirst

variable {α : Type*} [DecidableEq α] {exempt : α → Bool}

/-- Drop the non-exempt elements that occurred before. -/
def keepFrom (exempt : α → Bool) : List α → List α → List α
  | _, [] => []
  | seen, x :: xs =>
      if exempt x then
        x :: keepFrom exempt seen xs
      else if x ∈ seen then
        keepFrom exempt seen xs
      else
        x :: keepFrom exempt (x :: seen) xs

/-- Drop the non-exempt elements that repeat an earlier one. -/
def keepFirst (exempt : α → Bool) (xs : List α) : List α :=
  keepFrom exempt [] xs

@[simp] theorem keepFrom_nil (seen : List α) : keepFrom exempt seen [] = [] := rfl

theorem keepFrom_cons_exempt {x : α} (hx : exempt x = true) (seen xs : List α) :
    keepFrom exempt seen (x :: xs) = x :: keepFrom exempt seen xs := by
  simp [keepFrom, hx]

theorem keepFrom_cons_seen {x : α} (hx : exempt x = false) {seen : List α}
    (hseen : x ∈ seen) (xs : List α) :
    keepFrom exempt seen (x :: xs) = keepFrom exempt seen xs := by
  simp [keepFrom, hx, hseen]

theorem keepFrom_cons_fresh {x : α} (hx : exempt x = false) {seen : List α}
    (hseen : x ∉ seen) (xs : List α) :
    keepFrom exempt seen (x :: xs) = x :: keepFrom exempt (x :: seen) xs := by
  simp [keepFrom, hx, hseen]

/-- Only which of the non-exempt elements at hand were seen matters. -/
theorem keepFrom_congr {seen seen' : List α} (xs : List α)
    (hsame : ∀ x ∈ xs, exempt x = false → (x ∈ seen ↔ x ∈ seen')) :
    keepFrom exempt seen xs = keepFrom exempt seen' xs := by
  induction xs generalizing seen seen' with
  | nil => rfl
  | cons x xs ih =>
      obtain ⟨hhead, htail⟩ := List.forall_mem_cons.mp hsame
      cases hx : exempt x with
      | true => rw [keepFrom_cons_exempt hx, keepFrom_cons_exempt hx, ih htail]
      | false =>
          by_cases hseen : x ∈ seen
          · rw [keepFrom_cons_seen hx hseen, keepFrom_cons_seen hx ((hhead hx).mp hseen),
              ih htail]
          · have hseen' : x ∉ seen' := fun h => hseen ((hhead hx).mpr h)
            rw [keepFrom_cons_fresh hx hseen, keepFrom_cons_fresh hx hseen']
            congr 1
            apply ih
            intro y hmem hy
            simp only [List.mem_cons, htail y hmem hy]

theorem mem_keepFrom {x : α} {seen xs : List α} :
    x ∈ keepFrom exempt seen xs ↔ x ∈ xs ∧ (exempt x = true ∨ x ∉ seen) := by
  induction xs generalizing seen with
  | nil => simp
  | cons y ys ih =>
      cases hy : exempt y with
      | true =>
          rw [keepFrom_cons_exempt hy, List.mem_cons, List.mem_cons, ih]
          constructor
          · rintro (rfl | ⟨hmem, hkeep⟩)
            · exact ⟨Or.inl rfl, Or.inl hy⟩
            · exact ⟨Or.inr hmem, hkeep⟩
          · rintro ⟨rfl | hmem, hkeep⟩
            · exact Or.inl rfl
            · exact Or.inr ⟨hmem, hkeep⟩
      | false =>
          by_cases hseen : y ∈ seen
          · rw [keepFrom_cons_seen hy hseen, ih, List.mem_cons]
            constructor
            · rintro ⟨hmem, hkeep⟩
              exact ⟨Or.inr hmem, hkeep⟩
            · rintro ⟨rfl | hmem, hkeep⟩
              · rcases hkeep with hex | hnot
                · rw [hy] at hex
                  cases hex
                · exact absurd hseen hnot
              · exact ⟨hmem, hkeep⟩
          · rw [keepFrom_cons_fresh hy hseen, List.mem_cons, ih]
            constructor
            · rintro (rfl | ⟨hmem, hkeep⟩)
              · exact ⟨List.mem_cons_self .., Or.inr hseen⟩
              · refine ⟨List.mem_cons_of_mem _ hmem, hkeep.imp_right ?_⟩
                exact fun hnot h => hnot (List.mem_cons_of_mem _ h)
            · rintro ⟨hmem, hkeep⟩
              by_cases hxy : x = y
              · exact Or.inl hxy
              · have htail : x ∈ ys := (List.mem_cons.mp hmem).resolve_left hxy
                refine Or.inr ⟨htail, hkeep.imp_right ?_⟩
                intro hnot h
                exact hnot ((List.mem_cons.mp h).resolve_left hxy)

theorem mem_keepFirst {x : α} {xs : List α} : x ∈ keepFirst exempt xs ↔ x ∈ xs := by
  simp [keepFirst, mem_keepFrom]

theorem keepFrom_append (seen xs ys : List α) :
    keepFrom exempt seen (xs ++ ys) =
      keepFrom exempt seen xs ++ keepFrom exempt (seen ++ xs) ys := by
  induction xs generalizing seen with
  | nil => simp
  | cons x xs ih =>
      have hmove : keepFrom exempt (seen ++ x :: xs) ys =
          keepFrom exempt (x :: seen ++ xs) ys := by
        apply keepFrom_congr
        intro y _ _
        simp only [List.mem_append, List.mem_cons, List.cons_append]
        tauto
      rw [List.cons_append]
      cases hx : exempt x with
      | true =>
          have hdrop : keepFrom exempt (seen ++ x :: xs) ys =
              keepFrom exempt (seen ++ xs) ys := by
            apply keepFrom_congr
            intro y _ hy
            have hne : y ≠ x := by
              rintro rfl
              rw [hx] at hy
              cases hy
            simp [hne]
          rw [keepFrom_cons_exempt hx, keepFrom_cons_exempt hx, ih, hdrop, List.cons_append]
      | false =>
          by_cases hseen : x ∈ seen
          · have hdrop : keepFrom exempt (seen ++ x :: xs) ys =
                keepFrom exempt (seen ++ xs) ys := by
              apply keepFrom_congr
              intro y _ _
              by_cases hyx : y = x
              · simp [hyx, hseen]
              · simp [hyx]
            rw [keepFrom_cons_seen hx hseen, keepFrom_cons_seen hx hseen, ih, hdrop]
          · rw [keepFrom_cons_fresh hx hseen, keepFrom_cons_fresh hx hseen, ih, hmove,
              List.cons_append, List.cons_append]

theorem keepFrom_sublist (exempt : α → Bool) (seen xs : List α) : (keepFrom exempt seen xs).Sublist xs := by
  induction xs generalizing seen with
  | nil => exact List.Sublist.refl _
  | cons x xs ih =>
      unfold keepFrom
      split
      · exact (ih seen).cons_cons x
      · split
        · exact (ih seen).cons x
        · exact (ih (x :: seen)).cons_cons x

/-- An earlier pass that had seen less does not change the outcome. -/
theorem keepFrom_keepFrom {seen inner : List α} (hsub : ∀ x ∈ inner, x ∈ seen)
    (xs : List α) :
    keepFrom exempt seen (keepFrom exempt inner xs) = keepFrom exempt seen xs := by
  induction xs generalizing seen inner with
  | nil => rfl
  | cons x xs ih =>
      cases hx : exempt x with
      | true =>
          rw [keepFrom_cons_exempt hx, keepFrom_cons_exempt hx, keepFrom_cons_exempt hx,
            ih hsub]
      | false =>
          by_cases hinner : x ∈ inner
          · rw [keepFrom_cons_seen hx hinner, keepFrom_cons_seen hx (hsub x hinner), ih hsub]
          · rw [keepFrom_cons_fresh hx hinner]
            by_cases hseen : x ∈ seen
            · rw [keepFrom_cons_seen hx hseen, keepFrom_cons_seen hx hseen]
              apply ih
              intro y hy
              rcases List.mem_cons.mp hy with rfl | hold
              · exact hseen
              · exact hsub y hold
            · rw [keepFrom_cons_fresh hx hseen, keepFrom_cons_fresh hx hseen]
              congr 1
              apply ih
              intro y hy
              rcases List.mem_cons.mp hy with rfl | hold
              · exact List.mem_cons_self ..
              · exact List.mem_cons_of_mem _ (hsub y hold)

/-- Nothing is dropped exactly when the non-exempt elements are distinct and unseen. -/
theorem keepFrom_eq_self_iff {seen xs : List α} :
    keepFrom exempt seen xs = xs ↔
      (xs.filter (fun x => !exempt x)).Nodup ∧ ∀ x ∈ xs, exempt x = false → x ∉ seen := by
  induction xs generalizing seen with
  | nil => simp
  | cons x xs ih =>
      cases hx : exempt x with
      | true =>
          rw [keepFrom_cons_exempt hx, List.cons_inj_right, ih]
          simp [hx]
      | false =>
          by_cases hseen : x ∈ seen
          · rw [keepFrom_cons_seen hx hseen]
            constructor
            · intro h
              have hlen := (keepFrom_sublist exempt seen xs).length_le
              rw [h, List.length_cons] at hlen
              omega
            · rintro ⟨-, hfresh⟩
              exact absurd hseen (hfresh x (List.mem_cons_self ..) hx)
          · rw [keepFrom_cons_fresh hx hseen, List.cons_inj_right, ih]
            simp only [hx, Bool.not_false, List.filter_cons_of_pos, List.nodup_cons,
              List.mem_filter, and_true, List.mem_cons, forall_eq_or_imp]
            constructor
            · rintro ⟨hnodup, hfresh⟩
              refine ⟨⟨?_, hnodup⟩, fun _ => hseen, ?_⟩
              · exact fun hmem => hfresh x hmem hx (Or.inl rfl)
              · exact fun y hy hex h => hfresh y hy hex (Or.inr h)
            · rintro ⟨⟨hnot, hnodup⟩, -, hfresh⟩
              refine ⟨hnodup, ?_⟩
              rintro y hy hex (rfl | hold)
              · exact hnot hy
              · exact hfresh y hy hex hold

theorem nodup_filter_keepFrom (exempt : α → Bool) (seen xs : List α) :
    ((keepFrom exempt seen xs).filter (fun x => !exempt x)).Nodup := by
  have hself : keepFrom exempt seen (keepFrom exempt seen xs) = keepFrom exempt seen xs :=
    keepFrom_keepFrom (fun _ h => h) xs
  exact (keepFrom_eq_self_iff.mp hself).1

theorem nodup_keepFirst_of_none (xs : List α) : (keepFirst (fun _ => false) xs).Nodup := by
  have h := nodup_filter_keepFrom (fun _ => false) [] xs
  simpa [keepFirst] using h

theorem keepFrom_map {β : Type*} [DecidableEq β] {f : α → β} (hf : Function.Injective f)
    {exempt' : β → Bool} (hexempt : ∀ x, exempt' (f x) = exempt x) (seen xs : List α) :
    keepFrom exempt' (seen.map f) (xs.map f) = (keepFrom exempt seen xs).map f := by
  induction xs generalizing seen with
  | nil => rfl
  | cons x xs ih =>
      have hmem : f x ∈ seen.map f ↔ x ∈ seen := List.mem_map_of_injective hf
      have hnext := ih (x :: seen)
      rw [List.map_cons] at hnext
      simp only [List.map_cons, keepFrom, hexempt, hmem, ih seen, hnext]
      split
      · rfl
      · split <;> rfl

end KeepFirst
end Foundation
