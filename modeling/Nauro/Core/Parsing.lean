import Mathlib.Data.Char
import Mathlib.Data.List.Lex
import Mathlib.Data.List.Sort
import Nauro.Core.Text

/-!
# Decision numbers, file stems and paths

A decision file is `decisions/NNN-slug.md`; its number is read from its stem.
-/

namespace Nauro
namespace Core

open Foundation

/-- `is_ascii_decimal`: a non-empty run of ASCII decimal digits. -/
def isAsciiDecimal (token : Text) : Bool :=
  !token.isEmpty && token.all Char.isDigit

/-- `text.removesuffix(suffix)`. -/
def removeSuffix (suffix text : Text) : Text :=
  if suffix.isSuffixOf text then text.take (text.length - suffix.length) else text

/-- Whether a character could be one more digit of the number just read. -/
def continuesANumber (tables : UnicodeTables) (c : Char) : Bool :=
  (tables.decimal? c).isSome

/-- The number at the start of a text; a run continued in another script is no number. -/
def leadingNumber? (tables : UnicodeTables) (s : Text) : Option Nat :=
  if (s.dropWhile Char.isDigit).head?.any (continuesANumber tables) then none
  else number? (s.takeWhile Char.isDigit)

/-- Extract the decision number from `042-title[.md]`, `decision-042`, `D42` or `42`. -/
def extractDecisionNumber (tables : UnicodeTables) (identifier : Text) : Option Nat :=
  let s := removeSuffix ".md".toList identifier
  let low := lower tables s
  if "decision-".toList.isPrefixOf low then
    leadingNumber? tables (s.drop 9)
  else if "d".toList.isPrefixOf low && (s.drop 1).head?.any Char.isDigit then
    leadingNumber? tables (s.drop 1)
  else
    leadingNumber? tables s

/-- Where an identifier's number would start. -/
def numberText (tables : UnicodeTables) (identifier : Text) : Text :=
  let s := removeSuffix ".md".toList identifier
  let low := lower tables s
  if "decision-".toList.isPrefixOf low then s.drop 9
  else if "d".toList.isPrefixOf low && (s.drop 1).head?.any Char.isDigit then s.drop 1
  else s

/-- The most digits `int` reads of a text. -/
def intMaxStrDigits : Nat := 4300

/-- Whether `int` refuses the digits of an identifier that names a number. -/
def refusesDigits (tables : UnicodeTables) (identifier : Text) : Bool :=
  (extractDecisionNumber tables identifier).isSome &&
    intMaxStrDigits < ((numberText tables identifier).takeWhile Char.isDigit).length

theorem extractDecisionNumber_eq (tables : UnicodeTables) (identifier : Text) :
    extractDecisionNumber tables identifier =
      leadingNumber? tables (numberText tables identifier) := by
  unfold extractDecisionNumber numberText
  simp only
  split_ifs <;> rfl

/-- `f"{num:03d}-"`. -/
def decisionNumberPrefix (num : Nat) : Text :=
  padNumber 3 num ++ ['-']

/-- `f"{stem}.md"`. -/
def decisionFilename (stem : Text) : Text :=
  stem ++ ".md".toList

def decisionsDir : Text := "decisions".toList

/-- `f"decisions/{stem}.md"`. -/
def decisionPath (stem : Text) : Text :=
  decisionsDir ++ ['/'] ++ stem ++ ".md".toList

/-- The file stem when a path targets `decisions/*.md`. -/
def stemFromDecisionPath (path : Text) : Option Text :=
  let dir := decisionsDir ++ ['/']
  let tail := path.drop dir.length
  if !dir.isPrefixOf path then none
  else if tail.contains '/' || !".md".toList.isSuffixOf tail then none
  else some (removeSuffix ".md".toList tail)

/-! ## The order of stems -/

/-- `sorted` compares texts by code points. -/
def textLe (a b : Text) : Bool :=
  decide (a ≤ b)

instance : Std.Antisymm fun a b : Text => textLe a b = true where
  antisymm _ _ hab hba := le_antisymm (of_decide_eq_true hab) (of_decide_eq_true hba)

instance : Std.Total fun a b : Text => textLe a b = true where
  total a b := by
    rcases le_total a b with h | h
    · exact Or.inl (decide_eq_true h)
    · exact Or.inr (decide_eq_true h)

instance : IsTrans Text fun a b => textLe a b = true where
  trans _ _ _ hab hbc :=
    decide_eq_true (le_trans (of_decide_eq_true hab) (of_decide_eq_true hbc))

/-- Numbered stems first, by number, then by stem. -/
def stemLe (tables : UnicodeTables) (a b : Text) : Bool :=
  match extractDecisionNumber tables a, extractDecisionNumber tables b with
  | some m, some n => m < n || (m == n && textLe a b)
  | some _, none => true
  | none, some _ => false
  | none, none => textLe a b

instance (tables : UnicodeTables) : Std.Total fun a b : Text => stemLe tables a b = true where
  total a b := by
    unfold stemLe
    cases extractDecisionNumber tables a with
    | none =>
        cases extractDecisionNumber tables b with
        | none => exact Std.Total.total (r := fun a b : Text => textLe a b = true) a b
        | some n => exact Or.inr rfl
    | some m =>
        cases extractDecisionNumber tables b with
        | none => exact Or.inl rfl
        | some n =>
            rcases Nat.lt_trichotomy m n with h | h | h
            · exact Or.inl (by simp [h])
            · have hstems := Std.Total.total (r := fun a b : Text => textLe a b = true) a b
              simpa [h] using hstems
            · exact Or.inr (by simp [h])

instance (tables : UnicodeTables) : IsTrans Text fun a b => stemLe tables a b = true where
  trans a b c hab hbc := by
    have htexts : textLe a b = true → textLe b c = true → textLe a c = true :=
      IsTrans.trans (r := fun a b : Text => textLe a b = true) a b c
    unfold stemLe at hab hbc ⊢
    revert hab hbc
    cases extractDecisionNumber tables a <;> cases extractDecisionNumber tables b <;>
      cases extractDecisionNumber tables c <;> simp <;> grind

instance (tables : UnicodeTables) : Std.Antisymm fun a b : Text => stemLe tables a b = true where
  antisymm a b hab hba := by
    have htexts : textLe a b = true → textLe b a = true → a = b :=
      Std.Antisymm.antisymm (r := fun a b : Text => textLe a b = true) a b
    unfold stemLe at hab hba
    revert hab hba
    cases extractDecisionNumber tables a <;> cases extractDecisionNumber tables b <;>
      simp <;> grind

/-- `sort_stems_by_number`. -/
def sortStemsByNumber (tables : UnicodeTables) (stems : List Text) : List Text :=
  stems.insertionSort fun a b => stemLe tables a b = true

@[simp] theorem mem_sortStemsByNumber {tables : UnicodeTables} {stems : List Text} {stem : Text} :
    stem ∈ sortStemsByNumber tables stems ↔ stem ∈ stems :=
  (List.perm_insertionSort _ stems).mem_iff

/-! ## Numbers of written stems -/

theorem takeWhile_isDigit_padNumber (n : Nat) {c : Char} (hc : c.isDigit = false) (rest : Text) :
    (padNumber 3 n ++ c :: rest).takeWhile Char.isDigit = padNumber 3 n := by
  rw [List.takeWhile_append_of_pos fun _ => isDigit_of_mem_padNumber]
  simp [hc]

theorem dropWhile_isDigit_padNumber (n : Nat) {c : Char} (hc : c.isDigit = false) (rest : Text) :
    (padNumber 3 n ++ c :: rest).dropWhile Char.isDigit = c :: rest := by
  rw [List.dropWhile_append_of_pos fun _ => isDigit_of_mem_padNumber]
  simp [hc]

/-- Removing `.md` leaves the number prefix of a stem alone. -/
theorem removeSuffix_md_prefix (n : Nat) (slug : Text) :
    ∃ slug', removeSuffix ".md".toList (decisionNumberPrefix n ++ slug) =
      decisionNumberPrefix n ++ slug' := by
  unfold removeSuffix
  split
  · next h =>
      obtain ⟨front, hfront⟩ := List.isSuffixOf_iff_suffix.mp h
      have hlen : 3 ≤ slug.length := by
        by_contra hshort
        -- a shorter slug would put the dash among the letters of `.md`
        have hdash : '-' ∈ ".md".toList := by
          have hsuffix : ('-' :: slug) <:+ front ++ ".md".toList := by
            rw [hfront, decisionNumberPrefix, List.append_assoc]
            exact List.suffix_append _ _
          have hinner : ('-' :: slug) <:+ ".md".toList := by
            apply List.suffix_of_suffix_length_le hsuffix (List.suffix_append _ _)
            simp
            omega
          exact hinner.subset (List.mem_cons_self ..)
        exact absurd hdash (by decide)
      refine ⟨slug.take (slug.length - 3), ?_⟩
      rw [List.length_append, show ".md".toList.length = 3 from rfl,
        show (decisionNumberPrefix n).length + slug.length - 3 =
          (decisionNumberPrefix n).length + (slug.length - 3) by omega,
        List.take_append, List.take_of_length_le (by omega)]
      congr 2
      omega
  · exact ⟨slug, rfl⟩

theorem toNat_of_isDigit {c : Char} (hc : c.isDigit = true) : 48 ≤ c.toNat ∧ c.toNat ≤ 57 := by
  simp only [Char.isDigit, ge_iff_le, Bool.and_eq_true, decide_eq_true_eq,
    UInt32.le_iff_toNat_le] at hc
  exact hc

theorem toLower_of_isDigit {c : Char} (hc : c.isDigit = true) : c.toLower = c := by
  have hnat := toNat_of_isDigit hc
  exact toLower_eq_self (by omega)

theorem lower_cons_digit {tables : UnicodeTables} (hlawful : tables.Lawful) {c : Char}
    (hc : c.isDigit = true) (rest : Text) : ∃ low, lower tables (c :: rest) = c :: low := by
  have hnat := toNat_of_isDigit hc
  have hne : c ≠ 'Σ' := by
    rintro rfl
    exact absurd hc (by decide)
  refine ⟨lowerAfter tables [c] rest, ?_⟩
  rw [lower, lowerAfter, if_neg hne, hlawful.lower_ascii c (by omega), toLower_of_isDigit hc]
  rfl

/-- The number of a written stem starts it. -/
theorem numberText_prefix {tables : UnicodeTables} (hlawful : tables.Lawful) (n : Nat)
    (slug : Text) :
    ∃ slug', numberText tables (decisionNumberPrefix n ++ slug) =
      padNumber 3 n ++ '-' :: slug' := by
  obtain ⟨slug', hslug⟩ := removeSuffix_md_prefix n slug
  have hshape : decisionNumberPrefix n ++ slug' = padNumber 3 n ++ '-' :: slug' := by
    simp [decisionNumberPrefix]
  obtain ⟨c, digits, hdigits⟩ := List.exists_cons_of_ne_nil (padNumber_ne_nil 3 n)
  have hc : c.isDigit = true := isDigit_of_mem_padNumber (hdigits ▸ List.mem_cons_self ..)
  have hd : c ≠ 'd' := by
    rintro rfl
    exact absurd hc (by decide)
  obtain ⟨low, hlow⟩ := lower_cons_digit hlawful hc (digits ++ '-' :: slug')
  refine ⟨slug', ?_⟩
  rw [numberText, hslug, hshape]
  simp only [hdigits, List.cons_append, hlow]
  rw [if_neg, if_neg]
  · simp [List.isPrefixOf, Ne.symm hd]
  · simp [List.isPrefixOf, Ne.symm hd]

/-- What follows the number prefix of a stem does not matter. -/
theorem extractDecisionNumber_prefix {tables : UnicodeTables} (hlawful : tables.Lawful)
    (n : Nat) (slug : Text) :
    extractDecisionNumber tables (decisionNumberPrefix n ++ slug) = some n := by
  obtain ⟨slug', hslug⟩ := numberText_prefix hlawful n slug
  have hdash : ('-').isDigit = false := by decide
  have hend : (tables.decimal? '-').isSome = false := hlawful.decimal_ascii '-' (by decide)
  rw [extractDecisionNumber_eq, hslug, leadingNumber?, dropWhile_isDigit_padNumber n hdash,
    takeWhile_isDigit_padNumber n hdash]
  simp [continuesANumber, hend, number?_padNumber]

/-- A file written for a number names that number. -/
theorem extractDecisionNumber_filename {tables : UnicodeTables} (hlawful : tables.Lawful)
    (n : Nat) (slug : Text) :
    extractDecisionNumber tables (decisionFilename (decisionNumberPrefix n ++ slug)) = some n := by
  rw [decisionFilename, List.append_assoc]
  exact extractDecisionNumber_prefix hlawful n _

/-! ## Numbers of file names -/

theorem lowerAfter_md {tables : UnicodeTables} (hlawful : tables.Lawful) (before : Text) :
    lowerAfter tables before ".md".toList = ".md".toList := by
  have hdot := hlawful.lower_ascii '.' (by decide)
  have hm := hlawful.lower_ascii 'm' (by decide)
  have hd := hlawful.lower_ascii 'd' (by decide)
  simp [lowerAfter, hdot, hm, hd]

theorem isPrefixOf_append_congr {low low' : Text} (word : Text) {p : Text} {ok : Char → Prop}
    (h : ∀ p : Text, (∀ c ∈ p, ok c) → p.isPrefixOf low = p.isPrefixOf low') (hp : ∀ c ∈ p, ok c) :
    p.isPrefixOf (word ++ low) = p.isPrefixOf (word ++ low') := by
  induction word generalizing p with
  | nil => exact h p hp
  | cons c word ih =>
      cases p with
      | nil => rfl
      | cons x p =>
          rw [List.cons_append, List.cons_append, List.isPrefixOf, List.isPrefixOf,
            ih fun c hc => hp c (List.mem_cons_of_mem _ hc)]

/-- What a lower-cased identifier starts with does not depend on `.md` at its end. -/
theorem isPrefixOf_lowerAfter_md {tables : UnicodeTables} (hlawful : tables.Lawful)
    (before text : Text) {p : Text} (hp : ∀ c ∈ p, c ≠ 'σ' ∧ c ≠ 'ς' ∧ c ≠ '.') :
    p.isPrefixOf (lowerAfter tables before (text ++ ".md".toList)) =
      p.isPrefixOf (lowerAfter tables before text) := by
  induction text generalizing before p with
  | nil =>
      rw [List.nil_append, lowerAfter_md hlawful]
      cases p with
      | nil => rfl
      | cons x p =>
          have hx : (x == '.') = false := beq_eq_false_iff_ne.mpr (hp x (List.mem_cons_self ..)).2.2
          simp [lowerAfter, List.isPrefixOf, hx]
  | cons c text ih =>
      rw [List.cons_append, lowerAfter, lowerAfter]
      by_cases hc : c = 'Σ'
      · cases p with
        | nil => rfl
        | cons x p =>
            obtain ⟨hsmall, hfinal, -⟩ := hp x (List.mem_cons_self ..)
            have hne : (x == 'σ') = false ∧ (x == 'ς') = false :=
              ⟨beq_eq_false_iff_ne.mpr hsmall, beq_eq_false_iff_ne.mpr hfinal⟩
            rw [if_pos hc, if_pos hc]
            split_ifs <;> simp [List.isPrefixOf, hne]
      · rw [if_neg hc, if_neg hc]
        exact isPrefixOf_append_congr _ (fun p hp => ih (c :: before) hp) hp

theorem leadingNumber?_append_md {tables : UnicodeTables} (hlawful : tables.Lawful)
    (text : Text) (k : Nat) :
    leadingNumber? tables (text ++ ".md".toList.drop k) = leadingNumber? tables text := by
  have hend : ∀ c ∈ ".md".toList, c.isDigit = false ∧ continuesANumber tables c = false := by
    intro c hc
    have hascii : c.toNat < 128 ∧ c.isDigit = false := by
      revert c
      simp
    exact ⟨hascii.2, by rw [continuesANumber, hlawful.decimal_ascii c hascii.1, hascii.2]⟩
  have hrest : ∀ c ∈ ".md".toList.drop k, c.isDigit = false ∧ continuesANumber tables c = false :=
    fun c hc => hend c (List.mem_of_mem_drop hc)
  generalize ".md".toList.drop k = rest at hrest
  have htake : (text ++ rest).takeWhile Char.isDigit = text.takeWhile Char.isDigit := by
    induction text with
    | nil =>
        cases rest with
        | nil => rfl
        | cons c rest => simp [(hrest c (List.mem_cons_self ..)).1]
    | cons c text ih => rw [List.cons_append, List.takeWhile_cons, List.takeWhile_cons, ih]
  have hdrop : ((text ++ rest).dropWhile Char.isDigit).head?.any (continuesANumber tables) =
      (text.dropWhile Char.isDigit).head?.any (continuesANumber tables) := by
    clear htake
    induction text with
    | nil =>
        cases rest with
        | nil => rfl
        | cons c rest => simp [hrest c (List.mem_cons_self ..)]
    | cons c text ih =>
        rw [List.cons_append, List.dropWhile_cons, List.dropWhile_cons]
        split_ifs
        · exact ih
        · rfl
  rw [leadingNumber?, leadingNumber?, htake, hdrop]

/-- A file name carries the number of its stem. -/
theorem extractDecisionNumber_decisionFilename {tables : UnicodeTables}
    (hlawful : tables.Lawful) (stem : Text) :
    extractDecisionNumber tables (decisionFilename stem) = extractDecisionNumber tables stem := by
  have hstem : removeSuffix ".md".toList (decisionFilename stem) = stem := by
    rw [removeSuffix, decisionFilename, if_pos (List.isSuffixOf_iff_suffix.mpr
      (List.suffix_append _ _)), List.length_append, Nat.add_sub_cancel, List.take_left]
  by_cases hmd : ".md".toList.isSuffixOf stem = true
  · obtain ⟨front, rfl⟩ := List.isSuffixOf_iff_suffix.mp hmd
    have hfront : removeSuffix ".md".toList (front ++ ".md".toList) = front := by
      rw [removeSuffix, if_pos hmd, List.length_append, Nat.add_sub_cancel, List.take_left]
    have hword := isPrefixOf_lowerAfter_md hlawful [] front (p := "decision-".toList) (by simp)
    have hletter := isPrefixOf_lowerAfter_md hlawful [] front (p := "d".toList) (by simp)
    have hnine : leadingNumber? tables ((front ++ ".md".toList).drop 9) =
        leadingNumber? tables (front.drop 9) := by
      rw [List.drop_append, leadingNumber?_append_md hlawful]
    have hone : leadingNumber? tables ((front ++ ".md".toList).drop 1) =
        leadingNumber? tables (front.drop 1) := by
      rw [List.drop_append, leadingNumber?_append_md hlawful]
    have hdigit : ((front ++ ".md".toList).drop 1).head?.any Char.isDigit =
        (front.drop 1).head?.any Char.isDigit := by
      cases front with
      | nil => rfl
      | cons c front => cases front <;> rfl
    have hzero := leadingNumber?_append_md hlawful front 0
    rw [List.drop_zero] at hzero
    unfold extractDecisionNumber
    simp only [hstem, hfront, lower, hword, hletter, hdigit, hnine, hone, hzero]
  · have hsame : removeSuffix ".md".toList stem = stem := by
      rw [removeSuffix, if_neg hmd]
    rw [extractDecisionNumber, extractDecisionNumber, hstem, hsame]

end Core
end Nauro
