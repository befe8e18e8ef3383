import Mathlib.Data.List.Basic
import Mathlib.Order.Lattice

/-!
# Keeping the newest item of each bucket

Items have a time, and each of them is in a bucket or in none. An item in no bucket is kept, and
of the items in one bucket the first that is newest.

* `kept_of_kept` — what was kept stays the next time.
-/

namespace Foundation
namespace Retention

variable {α τ κ : Type*} [LinearOrder τ]

/-! ## The newest item -/

/-- The first item whose time is greatest. -/
def newest (time : α → τ) : List α → Option α
  | [] => none
  | item :: rest =>
      match newest time rest with
      | none => some item
      | some other => if time other ≤ time item then some item else some other

variable {time : α → τ}

theorem newest_eq_none {items : List α} : newest time items = none ↔ items = [] := by
  cases items with
  | nil => exact ⟨fun _ => rfl, fun _ => rfl⟩
  | cons item rest =>
      refine ⟨fun h => ?_, fun h => by cases h⟩
      unfold newest at h
      split at h
      · cases h
      · split_ifs at h

theorem newest_spec {items : List α} {item : α} (h : newest time items = some item) :
    item ∈ items ∧ ∀ other ∈ items, time other ≤ time item := by
  induction items generalizing item with
  | nil => cases h
  | cons first rest ih =>
      unfold newest at h
      split at h
      · rename_i hnone
        cases h
        rw [newest_eq_none.mp hnone]
        exact ⟨List.mem_singleton_self _, List.forall_mem_singleton.mpr le_rfl⟩
      · rename_i best hbest
        obtain ⟨hin, hle⟩ := ih hbest
        split_ifs at h with hfirst
        · cases h
          refine ⟨List.mem_cons_self, List.forall_mem_cons.mpr ⟨le_rfl, fun other hother => ?_⟩⟩
          exact (hle other hother).trans hfirst
        · cases h
          exact ⟨List.mem_cons_of_mem _ hin,
            List.forall_mem_cons.mpr ⟨(lt_of_not_ge hfirst).le, hle⟩⟩

theorem newest_mem {items : List α} {item : α} (h : newest time items = some item) :
    item ∈ items :=
  (newest_spec h).1

theorem le_newest {items : List α} {item other : α} (h : newest time items = some item)
    (hother : other ∈ items) : time other ≤ time item :=
  (newest_spec h).2 other hother

theorem exists_newest {items : List α} (h : items ≠ []) : ∃ item, newest time items = some item :=
  Option.ne_none_iff_exists'.mp fun hnone => h (newest_eq_none.mp hnone)

/-- Items that are all the same have that one as their newest. -/
theorem newest_of_forall_eq {items : List α} {item : α} (hne : items ≠ [])
    (h : ∀ other ∈ items, other = item) : newest time items = some item := by
  obtain ⟨best, hbest⟩ : ∃ best, newest time items = some best := exists_newest hne
  rw [hbest, h best (newest_mem hbest)]

/-! ## Retention -/

variable [DecidableEq κ] (bucket : α → Option κ)

/-- The items of a bucket. -/
def group (items : List α) (b : κ) : List α :=
  items.filter fun item => bucket item = some b

variable {bucket}

theorem mem_group {items : List α} {b : κ} {item : α} :
    item ∈ group bucket items b ↔ item ∈ items ∧ bucket item = some b := by
  rw [group, List.mem_filter, decide_eq_true_eq]

variable (time bucket)

/-- An item stays when it is in no bucket, or when it is the newest one of its bucket. -/
def Kept (items : List α) (item : α) : Prop :=
  bucket item = none ∨ ∃ b, bucket item = some b ∧ newest time (group bucket items b) = some item

variable {time bucket}

/-- An item that goes leaves one in its bucket that is as new. -/
theorem exists_survivor {items : List α} {item : α} (hin : item ∈ items)
    (h : ¬ Kept time bucket items item) :
    ∃ survivor ∈ items, Kept time bucket items survivor ∧ (∃ b, bucket item = some b ∧
      bucket survivor = some b) ∧ time item ≤ time survivor := by
  obtain ⟨b, hbucket⟩ := Option.ne_none_iff_exists'.mp fun hnone => h (Or.inl hnone)
  have hmem : item ∈ group bucket items b := mem_group.mpr ⟨hin, hbucket⟩
  obtain ⟨survivor, hnewest⟩ : ∃ survivor, newest time (group bucket items b) = some survivor :=
    exists_newest (List.ne_nil_of_mem hmem)
  obtain ⟨hsurvivor, hsame⟩ := mem_group.mp (newest_mem hnewest)
  exact ⟨survivor, hsurvivor, Or.inr ⟨b, hsame, hnewest⟩, ⟨b, hbucket, hsame⟩,
    le_newest hnewest hmem⟩

/-- What was kept of some items is all kept of those that were. -/
theorem kept_of_kept {items kept : List α}
    (hkept : ∀ item, item ∈ kept ↔ item ∈ items ∧ Kept time bucket items item) {item : α}
    (h : item ∈ kept) : Kept time bucket kept item := by
  rcases ((hkept item).mp h).2 with hnone | ⟨b, hbucket, hnewest⟩
  · exact Or.inl hnone
  · refine Or.inr ⟨b, hbucket, newest_of_forall_eq ?_ ?_⟩
    · exact List.ne_nil_of_mem (mem_group.mpr ⟨h, hbucket⟩)
    · intro other hother
      obtain ⟨hin, hsame⟩ := mem_group.mp hother
      rcases ((hkept other).mp hin).2 with hnone | ⟨b', hbucket', hnewest'⟩
      · rw [hnone] at hsame
        cases hsame
      · rw [hsame] at hbucket'
        cases hbucket'
        rw [hnewest] at hnewest'
        exact (Option.some.inj hnewest').symm

end Retention
end Foundation
