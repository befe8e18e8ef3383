import Mathlib.Logic.Function.Basic

/-!
# A ledger of owned names

Records stand at keys. A record may bear a name, and has an owner; a ledger maps each name to the
owner of the record that bears it. The ledger is never computed from the records: it follows them,
one entry at a time.

* `Exact.key_unique` — no two records bear one name.
-/

namespace Foundation
namespace OwnedNames

open Function (update update_self update_of_ne)

variable {K R N O : Type} [DecidableEq K] [DecidableEq N]
  {name : R → Option N} {owner : R → O} {records : K → Option R} {ledger : N → Option O}

/-- The ledger maps exactly the names that records bear, to their owners. -/
def Exact (name : R → Option N) (owner : R → O) (records : K → Option R) (ledger : N → Option O) :
    Prop :=
  ∀ n o, ledger n = some o ↔ ∃ k r, records k = some r ∧ name r = some n ∧ owner r = o

/-- No owner has two records. -/
def Distinct (owner : R → O) (records : K → Option R) : Prop :=
  ∀ k k' r r', records k = some r → records k' = some r' → owner r = owner r' → k = k'

omit [DecidableEq K] [DecidableEq N] in
/-- No two records bear one name. -/
theorem Exact.key_unique (h : Exact name owner records ledger) (hdistinct : Distinct owner records)
    {k k' : K} {r r' : R} {n : N} (hk : records k = some r) (hk' : records k' = some r')
    (hname : name r = some n) (hname' : name r' = some n) : k = k' := by
  have hown := (h n (owner r)).mpr ⟨k, r, hk, hname, rfl⟩
  have hown' := (h n (owner r')).mpr ⟨k', r', hk', hname', rfl⟩
  exact hdistinct k k' r r' hk hk' (Option.some.inj (hown.symm.trans hown'))

omit [DecidableEq K] [DecidableEq N] in
/-- The owner of a name has the record that bears it. -/
theorem Exact.name_of_owner (h : Exact name owner records ledger)
    (hdistinct : Distinct owner records) {k : K} {r : R} {n : N} (hk : records k = some r)
    (hown : ledger n = some (owner r)) : name r = some n := by
  obtain ⟨k', r', hk', hname, howner⟩ := (h n (owner r)).mp hown
  obtain rfl := hdistinct k' k r' r hk' hk howner
  obtain rfl : r' = r := Option.some.inj (hk'.symm.trans hk)
  exact hname

/-- A record under a free name. -/
theorem Exact.insert (h : Exact name owner records ledger) {k : K} {r : R} {n : N}
    (hfresh : records k = none) (hname : name r = some n) (hfree : ledger n = none) :
    Exact name owner (update records k (some r)) (update ledger n (some (owner r))) := by
  intro m o
  by_cases hm : m = n
  · subst hm
    rw [update_self, Option.some.injEq]
    constructor
    · rintro rfl
      exact ⟨k, r, update_self .., hname, rfl⟩
    · rintro ⟨k', r', hk', hname', rfl⟩
      by_cases hkey : k' = k
      · subst hkey
        rw [update_self] at hk'
        cases hk'
        rfl
      · -- another record would own the name already
        rw [update_of_ne hkey] at hk'
        have hown := (h m (owner r')).mpr ⟨k', r', hk', hname', rfl⟩
        rw [hfree] at hown
        cases hown
  · rw [update_of_ne hm, h m o]
    constructor
    · rintro ⟨k', r', hk', hname', hown⟩
      have hkey : k' ≠ k := by
        rintro rfl
        rw [hfresh] at hk'
        cases hk'
      exact ⟨k', r', (update_of_ne hkey ..).trans hk', hname', hown⟩
    · rintro ⟨k', r', hk', hname', hown⟩
      have hkey : k' ≠ k := by
        rintro rfl
        rw [update_self] at hk'
        cases hk'
        exact hm (Option.some.inj (hname'.symm.trans hname))
      rw [update_of_ne hkey] at hk'
      exact ⟨k', r', hk', hname', hown⟩

/-- A record that gives up its name. -/
theorem Exact.retire (h : Exact name owner records ledger) (hdistinct : Distinct owner records)
    {k : K} {r r' : R} {n : N} (hk : records k = some r) (hname : name r = some n)
    (hretired : name r' = none) :
    Exact name owner (update records k (some r')) (update ledger n none) := by
  intro m o
  by_cases hm : m = n
  · subst hm
    rw [update_self]
    constructor
    · intro hnone
      cases hnone
    · rintro ⟨k', r₂, hk', hname', -⟩
      by_cases hkey : k' = k
      · subst hkey
        rw [update_self] at hk'
        cases hk'
        rw [hretired] at hname'
        cases hname'
      · rw [update_of_ne hkey] at hk'
        exact absurd (h.key_unique hdistinct hk' hk hname' hname) hkey
  · rw [update_of_ne hm, h m o]
    constructor
    · rintro ⟨k', r₂, hk', hname', hown⟩
      have hkey : k' ≠ k := by
        rintro rfl
        rw [hk] at hk'
        cases hk'
        exact hm (Option.some.inj (hname'.symm.trans hname))
      exact ⟨k', r₂, (update_of_ne hkey ..).trans hk', hname', hown⟩
    · rintro ⟨k', r₂, hk', hname', hown⟩
      have hkey : k' ≠ k := by
        rintro rfl
        rw [update_self] at hk'
        cases hk'
        rw [hretired] at hname'
        cases hname'
      rw [update_of_ne hkey] at hk'
      exact ⟨k', r₂, hk', hname', hown⟩

/-- A record that gives its name to a new one. -/
theorem Exact.transfer (h : Exact name owner records ledger) (hdistinct : Distinct owner records)
    {k k' : K} {r r' new : R} {n : N} (hk : records k = some r) (hname : name r = some n)
    (hretired : name r' = none) (hfresh : records k' = none) (hnew : name new = some n) :
    Exact name owner (update (update records k (some r')) k' (some new))
      (update ledger n (some (owner new))) := by
  have hne : k' ≠ k := by
    rintro rfl
    rw [hk] at hfresh
    cases hfresh
  have hretire := h.retire hdistinct hk hname hretired
  have hinsert := hretire.insert ((update_of_ne hne ..).trans hfresh) hnew (update_self ..)
  rwa [Function.update_idem] at hinsert

end OwnedNames
end Foundation
