import Nauro.Core.Store

/-!
# Decisions by number

Stems are listed, minted past and read by the number that their text gives; a lookup by number
compares the text itself with the prefix that a writer of the number would use.

* `lookup_agrees_iff` — when the lookup finds a decision of a number.
-/

namespace Nauro
namespace Core

open Foundation

/-! ## The two readings -/

/-- `extract_decision_number`; `none` when `int` refuses the digits. -/
def readDecisionNumber (tables : UnicodeTables) (identifier : Text) : Option (Option Nat) :=
  if refusesDigits tables identifier then none
  else some (extractDecisionNumber tables identifier)

/-- `find_decision_stem_by_num`; `none` when the number has more digits than `int` writes. -/
def lookupDecisionStem (store : Store) (num : Nat) : Option (Option Text) :=
  if intMaxStrDigits < (Nat.toDigits 10 num).length then none
  else some (findDecisionStemByNum store num)

/-- The stem reads as the number. -/
def HasNumber (tables : UnicodeTables) (stem : Text) (num : Nat) : Prop :=
  readDecisionNumber tables stem = some (some num)

/-- The lookup of the number finds the stem. -/
def Finds (store : Store) (num : Nat) (stem : Text) : Prop :=
  lookupDecisionStem store num = some (some stem)

/-- A stem that starts with at least three digits, no more zeros than that takes, and a dash. -/
def CanonicalStem (stem : Text) : Prop :=
  ∃ digits rest, stem = digits ++ '-' :: rest ∧ digits.all Char.isDigit = true ∧
    3 ≤ digits.length ∧ (digits.length = 3 ∨ digits.head? ≠ some '0')

/-! ## Canonical spellings -/

theorem three_le_length_padNumber (n : Nat) : 3 ≤ (padNumber 3 n).length := by
  rw [padNumber, List.length_append, List.length_replicate]
  omega

/-- A number of more than three digits is written without zeros before it. -/
theorem padNumber_eq_toDigits {n : Nat} (h : 3 ≤ (Nat.toDigits 10 n).length) :
    padNumber 3 n = Nat.toDigits 10 n := by
  rw [padNumber, Nat.sub_eq_zero_of_le h]
  rfl

theorem length_padNumber_three (n : Nat) :
    (padNumber 3 n).length = max 3 (Nat.toDigits 10 n).length := by
  rw [padNumber, List.length_append, List.length_replicate]
  omega

/-- A canonical run of digits is the number it reads as, padded to three. -/
theorem padNumber_of_canonical {digits : Text} {n : Nat} (hread : number? digits = some n)
    (hthree : 3 ≤ digits.length) (hlead : digits.length = 3 ∨ digits.head? ≠ some '0') :
    padNumber 3 n = digits := by
  rcases hlead with hlength | hzero
  · rw [← hlength]
    exact padNumber_of_number? hread
  · have hdigits : Nat.toDigits 10 n = digits := toDigits_of_number? hread hzero
    rw [padNumber_eq_toDigits (hdigits ▸ hthree), hdigits]

theorem head?_toDigits_ne_zero {n : Nat} (h : 1 < (Nat.toDigits 10 n).length) :
    (Nat.toDigits 10 n).head? ≠ some '0' := by
  intro hzero
  obtain ⟨rest, hdigits⟩ : ∃ rest, Nat.toDigits 10 n = '0' :: rest :=
    List.head?_eq_some_iff.mp hzero
  have hlength := congrArg List.length hdigits
  rw [List.length_cons] at hlength
  have hrest : rest.all Char.isDigit = true := by
    apply List.all_eq_true.mpr
    intro c hc
    exact Nat.isDigit_of_mem_toDigits (by decide) (by decide)
      (hdigits ▸ List.mem_cons_of_mem '0' hc)
  -- The rest alone would write the number in fewer digits.
  have hvalue : Nat.ofDigitChars 10 rest 0 = n := by
    have hread := Nat.ofDigitChars_ten_toDigits (n := n)
    rw [hdigits] at hread
    exact hread
  have hshort : (Nat.toDigits 10 n).length ≤ rest.length :=
    (Nat.length_toDigits_le_iff (by decide) (by omega)).mpr (hvalue ▸ ofDigitChars_lt hrest)
  omega

theorem canonicalStem_padded (n : Nat) (slug : Text) :
    CanonicalStem (decisionNumberPrefix n ++ slug) := by
  refine ⟨padNumber 3 n, slug, by simp [decisionNumberPrefix], ?_, three_le_length_padNumber n, ?_⟩
  · exact List.all_eq_true.mpr fun _ hc => isDigit_of_mem_padNumber hc
  · by_cases hlength : 3 < (Nat.toDigits 10 n).length
    · right
      rw [padNumber_eq_toDigits hlength.le]
      exact head?_toDigits_ne_zero (by omega)
    · left
      rw [length_padNumber_three]
      omega

theorem takeWhile_numberText_prefix {tables : UnicodeTables} (hlawful : tables.Lawful) (n : Nat)
    (slug : Text) :
    (numberText tables (decisionNumberPrefix n ++ slug)).takeWhile Char.isDigit =
      padNumber 3 n := by
  obtain ⟨slug', hslug⟩ := numberText_prefix hlawful n slug
  rw [hslug, takeWhile_isDigit_padNumber n (by decide)]

/-- The prefix of a number starts just its canonical stems. -/
theorem prefix_iff_canonical {tables : UnicodeTables} (hlawful : tables.Lawful) {stem : Text}
    {n : Nat} :
    (decisionNumberPrefix n).isPrefixOf stem = true ↔
      CanonicalStem stem ∧ extractDecisionNumber tables stem = some n := by
  rw [List.isPrefixOf_iff_prefix]
  constructor
  · rintro ⟨slug, rfl⟩
    exact ⟨canonicalStem_padded n slug, extractDecisionNumber_prefix hlawful n slug⟩
  · rintro ⟨⟨digits, rest, rfl, hdigits, hthree, hlead⟩, hnumber⟩
    have hink : digits ≠ [] := by
      rintro rfl
      exact absurd hthree (by decide)
    have hread : number? digits = some (Nat.ofDigitChars 10 digits 0) :=
      if_pos ⟨hink, hdigits⟩
    have hpadded := padNumber_of_canonical hread hthree hlead
    have hshape : digits ++ '-' :: rest =
        decisionNumberPrefix (Nat.ofDigitChars 10 digits 0) ++ rest := by
      rw [decisionNumberPrefix, hpadded, List.append_assoc, List.singleton_append]
    rw [hshape, extractDecisionNumber_prefix hlawful] at hnumber
    rw [← Option.some.inj hnumber, hshape]
    exact List.prefix_append _ _

/-- `int` refuses the digits of a written stem just when it does not write its number. -/
theorem refusesDigits_prefix {tables : UnicodeTables} (hlawful : tables.Lawful) (n : Nat)
    (slug : Text) :
    refusesDigits tables (decisionNumberPrefix n ++ slug) =
      decide (intMaxStrDigits < (Nat.toDigits 10 n).length) := by
  have hlength : intMaxStrDigits < (padNumber 3 n).length ↔
      intMaxStrDigits < (Nat.toDigits 10 n).length := by
    rw [length_padNumber_three, intMaxStrDigits]
    omega
  rw [refusesDigits, extractDecisionNumber_prefix hlawful, takeWhile_numberText_prefix hlawful]
  simp [hlength]

/-! ## What the lookup finds -/

theorem hasNumber_iff {tables : UnicodeTables} {stem : Text} {n : Nat} :
    HasNumber tables stem n ↔
      refusesDigits tables stem = false ∧ extractDecisionNumber tables stem = some n := by
  unfold HasNumber readDecisionNumber
  cases refusesDigits tables stem <;> simp

theorem finds_iff {store : Store} {n : Nat} {stem : Text} :
    Finds store n stem ↔
      (Nat.toDigits 10 n).length ≤ intMaxStrDigits ∧
        findDecisionStemByNum store n = some stem := by
  unfold Finds lookupDecisionStem
  split_ifs with hlong
  · simp [not_le.mpr hlong]
  · simp [not_lt.mp hlong]

/-- A canonical stem of a number that `int` writes is one that the prefix starts. -/
theorem canonical_hasNumber_iff {tables : UnicodeTables} (hlawful : tables.Lawful) {stem : Text}
    {n : Nat} :
    CanonicalStem stem ∧ HasNumber tables stem n ↔
      (Nat.toDigits 10 n).length ≤ intMaxStrDigits ∧
        (decisionNumberPrefix n).isPrefixOf stem = true := by
  have hrefuses (hstem : (decisionNumberPrefix n).isPrefixOf stem = true) :
      refusesDigits tables stem = decide (intMaxStrDigits < (Nat.toDigits 10 n).length) := by
    obtain ⟨slug, rfl⟩ := List.isPrefixOf_iff_prefix.mp hstem
    exact refusesDigits_prefix hlawful n slug
  rw [hasNumber_iff]
  constructor
  · rintro ⟨hcanonical, hread, hnumber⟩
    have hstem := (prefix_iff_canonical hlawful).mpr ⟨hcanonical, hnumber⟩
    rw [hrefuses hstem] at hread
    exact ⟨not_lt.mp (of_decide_eq_false hread), hstem⟩
  · rintro ⟨hlength, hstem⟩
    obtain ⟨hcanonical, hnumber⟩ := (prefix_iff_canonical hlawful).mp hstem
    rw [hrefuses hstem]
    exact ⟨hcanonical, decide_eq_false (not_lt.mpr hlength), hnumber⟩

theorem finds_some {tables : UnicodeTables} (hlawful : tables.Lawful) {store : Store} {n : Nat}
    {stem : Text} (h : Finds store n stem) :
    stem ∈ store.listDecisions ∧ CanonicalStem stem ∧ HasNumber tables stem n := by
  obtain ⟨hlength, hfind⟩ := finds_iff.mp h
  have hstem := List.find?_some hfind
  exact ⟨List.mem_of_find?_eq_some hfind, (canonical_hasNumber_iff hlawful).mpr ⟨hlength, hstem⟩⟩

theorem exists_finds_iff {tables : UnicodeTables} (hlawful : tables.Lawful) {store : Store}
    {n : Nat} :
    (∃ stem, Finds store n stem) ↔
      ∃ stem ∈ store.listDecisions, CanonicalStem stem ∧ HasNumber tables stem n := by
  constructor
  · rintro ⟨stem, hfinds⟩
    exact ⟨stem, finds_some hlawful hfinds⟩
  · rintro ⟨stem, hstem, hspelled⟩
    obtain ⟨hlength, hleading⟩ := (canonical_hasNumber_iff hlawful).mp hspelled
    have hsome : (findDecisionStemByNum store n).isSome = true :=
      List.find?_isSome.mpr ⟨stem, hstem, hleading⟩
    obtain ⟨found, hfound⟩ := Option.isSome_iff_exists.mp hsome
    exact ⟨found, finds_iff.mpr ⟨hlength, hfound⟩⟩

/-- A stem that the lookup finds is listed and has the number. The lookup finds one for every
number that a listed stem has, if none has it or one of those that do is spelled as a writer
spells it, and only then. -/
theorem lookup_agrees_iff {tables : UnicodeTables} (hlawful : tables.Lawful) (store : Store)
    (n : Nat) :
    ((∀ stem, Finds store n stem →
        stem ∈ store.listDecisions ∧ HasNumber tables stem n) ∧
      ((∃ stem, Finds store n stem) ↔
        ∃ stem ∈ store.listDecisions, HasNumber tables stem n)) ↔
      (∀ stem ∈ store.listDecisions, ¬ HasNumber tables stem n) ∨
        ∃ stem ∈ store.listDecisions, CanonicalStem stem ∧ HasNumber tables stem n := by
  have hfound (stem : Text) (h : Finds store n stem) :
      stem ∈ store.listDecisions ∧ HasNumber tables stem n :=
    ⟨(finds_some hlawful h).1, (finds_some hlawful h).2.2⟩
  constructor
  · rintro ⟨-, hiff⟩
    by_cases hnumber : ∃ stem ∈ store.listDecisions, HasNumber tables stem n
    · exact Or.inr ((exists_finds_iff hlawful).mp (hiff.mpr hnumber))
    · exact Or.inl fun stem hstem hhas => hnumber ⟨stem, hstem, hhas⟩
  · intro h
    refine ⟨hfound, fun ⟨stem, hfinds⟩ => ⟨stem, hfound stem hfinds⟩, ?_⟩
    rintro ⟨stem, hstem, hhas⟩
    rcases h with hnone | hcanonical
    · exact absurd hhas (hnone stem hstem)
    · exact (exists_finds_iff hlawful).mpr hcanonical

/-- A store with one decision file. -/
def storeOf (stem : String) : Store :=
  ⟨⟨[(stem.toList, [])], List.nodup_singleton _⟩, none, []⟩

/-- A stem without padding is listed with its number and not found by it. -/
theorem unpadded_not_found :
    ¬ ((∃ stem, Finds (storeOf "5-short") 5 stem) ↔
      ∃ stem ∈ (storeOf "5-short").listDecisions, HasNumber .ascii stem 5) := by
  have hread : readDecisionNumber .ascii "5-short".toList = some (some 5) := by decide
  have hlost : lookupDecisionStem (storeOf "5-short") 5 = some none := by decide
  intro hiff
  obtain ⟨stem, hfinds⟩ := hiff.mpr ⟨"5-short".toList, by decide, hread⟩
  rw [Finds, hlost] at hfinds
  cases hfinds

theorem padded_found :
    (∃ stem, Finds (storeOf "005-short") 5 stem) ↔
      ∃ stem ∈ (storeOf "005-short").listDecisions, HasNumber .ascii stem 5 := by
  have hcanonical : CanonicalStem "005-short".toList :=
    ⟨"005".toList, "short".toList, by decide, by decide, by decide, Or.inl rfl⟩
  have hread : HasNumber .ascii "005-short".toList 5 := by
    unfold HasNumber
    decide
  exact ((lookup_agrees_iff UnicodeTables.ascii_lawful (storeOf "005-short") 5).mpr
    (Or.inr ⟨"005-short".toList, by decide, hcanonical, hread⟩)).2

end Core
end Nauro
