import Mathlib.Data.List.Basic
import Mathlib.Data.List.Nodup

/-!
# Tables: association lists with distinct keys

A table keeps its rows in the order in which their keys were first put.

* `get?_erase_self`, `get?_erase_of_ne` — what an erase changes.
-/

namespace Foundation

/-- Rows with distinct keys. -/
@[ext] structure Table (K V : Type*) where
  entries : List (K × V)
  distinct : (entries.map Prod.fst).Nodup
deriving DecidableEq

namespace Table

variable {K V : Type*} [BEq K] [LawfulBEq K]

def keys (t : Table K V) : List K :=
  t.entries.map Prod.fst

def empty : Table K V :=
  ⟨[], List.nodup_nil⟩

def get? (t : Table K V) (key : K) : Option V :=
  t.entries.lookup key

/-- Replace the value of a row that has the key. -/
def replaceRow (key : K) (value : V) (row : K × V) : K × V :=
  if row.1 == key then (row.1, value) else row

omit [LawfulBEq K] in
@[simp] theorem replaceRow_fst (key : K) (value : V) (row : K × V) :
    (replaceRow key value row).1 = row.1 := by
  unfold replaceRow
  split <;> rfl

omit [LawfulBEq K] in
theorem map_fst_replaceRow (key : K) (value : V) (entries : List (K × V)) :
    (entries.map (replaceRow key value)).map Prod.fst = entries.map Prod.fst := by
  rw [List.map_map]
  exact List.map_congr_left fun row _ => replaceRow_fst key value row

/-- Replace the row of a key in place, or add one at the end. -/
def put (t : Table K V) (key : K) (value : V) : Table K V :=
  if h : t.keys.contains key then
    { entries := t.entries.map (replaceRow key value)
      distinct := by
        rw [map_fst_replaceRow]
        exact t.distinct }
  else
    { entries := t.entries ++ [(key, value)]
      distinct := by
        rw [List.map_append, List.nodup_append]
        refine ⟨t.distinct, List.nodup_singleton _, ?_⟩
        intro k hk other hother heq
        rw [List.map_singleton, List.mem_singleton] at hother
        subst heq hother
        exact h (List.contains_iff_mem.mpr hk) }

theorem lookup_eq_none {entries : List (K × V)} {key : K} (h : key ∉ entries.map Prod.fst) :
    entries.lookup key = none := by
  rw [List.lookup_eq_none_iff]
  intro row hrow
  rw [bne_iff_ne]
  rintro rfl
  exact h (List.mem_map_of_mem hrow)

theorem lookup_of_mem {entries : List (K × V)} (hdistinct : (entries.map Prod.fst).Nodup)
    {row : K × V} (hrow : row ∈ entries) : entries.lookup row.1 = some row.2 := by
  induction entries with
  | nil => cases hrow
  | cons first rest ih =>
      rw [List.map_cons, List.nodup_cons] at hdistinct
      rcases List.mem_cons.mp hrow with rfl | hin
      · rw [List.lookup_cons, beq_self_eq_true]
      · have hne : (row.1 == first.1) = false := by
          rw [beq_eq_false_iff_ne]
          intro heq
          exact hdistinct.1 (heq ▸ List.mem_map_of_mem hin)
        rw [List.lookup_cons, hne]
        exact ih hdistinct.2 hin

theorem mem_of_lookup {entries : List (K × V)} {key : K} {value : V}
    (h : entries.lookup key = some value) : (key, value) ∈ entries := by
  induction entries with
  | nil => cases h
  | cons first rest ih =>
      rw [List.lookup_cons] at h
      split at h
      · next heq =>
          rw [beq_iff_eq] at heq
          cases h
          subst heq
          exact List.mem_cons_self ..
      · exact List.mem_cons_of_mem _ (ih h)

theorem mem_entries_iff {t : Table K V} {key : K} {value : V} :
    (key, value) ∈ t.entries ↔ t.get? key = some value :=
  ⟨fun h => lookup_of_mem t.distinct h, mem_of_lookup⟩

theorem mem_keys_iff {t : Table K V} {key : K} : key ∈ t.keys ↔ (t.get? key).isSome := by
  constructor
  · intro h
    obtain ⟨row, hrow, rfl⟩ := List.mem_map.mp h
    rw [get?, lookup_of_mem t.distinct hrow]
    rfl
  · intro h
    obtain ⟨value, hvalue⟩ := Option.isSome_iff_exists.mp h
    exact List.mem_map_of_mem (mem_of_lookup hvalue)

theorem get?_eq_none_iff {t : Table K V} {key : K} : t.get? key = none ↔ key ∉ t.keys := by
  rw [mem_keys_iff]
  simp

theorem put_of_mem {t : Table K V} {key : K} (h : key ∈ t.keys) (value : V) :
    (t.put key value).entries = t.entries.map (replaceRow key value) := by
  rw [put, dif_pos (List.contains_iff_mem.mpr h)]

theorem put_of_notMem {t : Table K V} {key : K} (h : key ∉ t.keys) (value : V) :
    (t.put key value).entries = t.entries ++ [(key, value)] := by
  rw [put, dif_neg fun hin => h (List.contains_iff_mem.mp hin)]

theorem keys_put_of_mem {t : Table K V} {key : K} (h : key ∈ t.keys) (value : V) :
    (t.put key value).keys = t.keys := by
  rw [keys, put_of_mem h, map_fst_replaceRow]
  rfl

theorem keys_put_of_notMem {t : Table K V} {key : K} (h : key ∉ t.keys) (value : V) :
    (t.put key value).keys = t.keys ++ [key] := by
  rw [keys, put_of_notMem h, List.map_append]
  rfl

theorem mem_keys_put {t : Table K V} {key other : K} (value : V) :
    other ∈ (t.put key value).keys ↔ other = key ∨ other ∈ t.keys := by
  by_cases h : key ∈ t.keys
  · rw [keys_put_of_mem h]
    constructor
    · exact Or.inr
    · rintro (rfl | hin)
      · exact h
      · exact hin
  · rw [keys_put_of_notMem h, List.mem_append, List.mem_singleton, or_comm]

@[simp] theorem get?_put_self (t : Table K V) (key : K) (value : V) :
    (t.put key value).get? key = some value := by
  rw [← mem_entries_iff]
  by_cases h : key ∈ t.keys
  · obtain ⟨row, hrow, rfl⟩ := List.mem_map.mp h
    rw [put_of_mem h]
    exact List.mem_map.mpr ⟨row, hrow, by simp [replaceRow]⟩
  · rw [put_of_notMem h]
    simp

omit [LawfulBEq K] in
theorem lookup_cons (key : K) (row : K × V) (rest : List (K × V)) :
    (row :: rest).lookup key = if key == row.1 then some row.2 else rest.lookup key := by
  rw [List.lookup_cons]
  split
  · next h => rw [h, if_pos rfl]
  · next h => rw [h, if_neg (by simp)]

theorem lookup_replaceRow {entries : List (K × V)} {key other : K} (hne : other ≠ key)
    (value : V) : (entries.map (replaceRow key value)).lookup other = entries.lookup other := by
  induction entries with
  | nil => rfl
  | cons row rest ih =>
      rw [List.map_cons, lookup_cons, lookup_cons, ih, replaceRow_fst]
      by_cases hrow : row.1 = key
      · have hleft : (other == row.1) = false := by
          rw [beq_eq_false_iff_ne, hrow]
          exact hne
        rw [hleft]
        rfl
      · simp [replaceRow, hrow]

/-- A put leaves every other row alone. -/
theorem get?_put_of_ne {t : Table K V} {key other : K} (hne : other ≠ key) (value : V) :
    (t.put key value).get? other = t.get? other := by
  by_cases h : key ∈ t.keys
  · rw [get?, put_of_mem h]
    exact lookup_replaceRow hne value
  · have hlast : (other == key) = false := beq_eq_false_iff_ne.mpr hne
    rw [get?, put_of_notMem h, List.lookup_append, lookup_cons, hlast]
    simp [get?]

theorem get?_put (t : Table K V) (key other : K) (value : V) :
    (t.put key value).get? other = if other == key then some value else t.get? other := by
  split
  · next h => rw [beq_iff_eq.mp h, get?_put_self]
  · next h => exact get?_put_of_ne (fun heq => h (beq_iff_eq.mpr heq)) value

/-! ## Rows taken out -/

/-- Remove the row of a key. -/
def erase (t : Table K V) (key : K) : Table K V where
  entries := t.entries.filter fun row => row.1 != key
  distinct := t.distinct.sublist ((List.filter_sublist).map _)

theorem get?_erase_self (t : Table K V) (key : K) : (t.erase key).get? key = none := by
  rw [get?_eq_none_iff]
  intro hin
  obtain ⟨row, hrow, rfl⟩ := List.mem_map.mp hin
  simpa using (List.mem_filter.mp hrow).2

/-- An erase leaves every other row alone. -/
theorem get?_erase_of_ne {t : Table K V} {key other : K} (hne : other ≠ key) :
    (t.erase key).get? other = t.get? other := by
  ext value
  rw [← mem_entries_iff, ← mem_entries_iff]
  show (other, value) ∈ t.entries.filter _ ↔ _
  rw [List.mem_filter]
  simp [hne]

/-! ## Tables from rows -/

/-- The table of some rows; a later row of a key replaces an earlier one. -/
def ofPairs (rows : List (K × V)) : Table K V :=
  rows.foldl (fun t row => t.put row.1 row.2) empty

theorem entries_foldl_put {t : Table K V} {rows : List (K × V)}
    (hdistinct : ((t.entries ++ rows).map Prod.fst).Nodup) :
    (rows.foldl (fun t row => t.put row.1 row.2) t).entries = t.entries ++ rows := by
  induction rows generalizing t with
  | nil => rw [List.foldl_nil, List.append_nil]
  | cons row rows ih =>
      have hfresh : row.1 ∉ t.keys := by
        rw [List.map_append, List.nodup_append] at hdistinct
        intro hin
        exact hdistinct.2.2 row.1 hin row.1 (by simp) rfl
      have hput : (t.put row.1 row.2).entries = t.entries ++ [row] := put_of_notMem hfresh row.2
      have hrest : (((t.put row.1 row.2).entries ++ rows).map Prod.fst).Nodup := by
        rw [hput]
        simpa using hdistinct
      rw [List.foldl_cons, ih hrest, hput, List.append_assoc]
      rfl

/-- Rows with distinct keys are the rows of their table. -/
theorem entries_ofPairs {rows : List (K × V)} (hdistinct : (rows.map Prod.fst).Nodup) :
    (ofPairs rows).entries = rows :=
  entries_foldl_put (t := empty) hdistinct

/-- Lookups do not depend on the order of the rows. -/
theorem get?_eq_of_perm {t t' : Table K V} (h : t.entries.Perm t'.entries) (key : K) :
    t.get? key = t'.get? key := by
  ext value
  rw [← mem_entries_iff, ← mem_entries_iff, h.mem_iff]

end Table
end Foundation
