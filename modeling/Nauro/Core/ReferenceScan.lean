import Mathlib.Data.List.Forall2
import Nauro.Core.Parsing
import Nauro.Foundation.Effect
import Nauro.Foundation.Occurrences

/-!
# References to decisions in a text

The scanner looks for its prefixes in a lower-cased copy of the text, and reads what stands
around them in the text itself, at the offset that it found in the copy.

* `scan_exact_iff` — with aligned occurrences the scan is exact, but for runs of digits that
  `int` refuses.
-/

namespace Nauro
namespace Core

open Foundation Foundation.Occurrences

/-! ## The scanner -/

/-- How the scanner fails. -/
inductive ScanFailure where
  | indexError
  | valueError
deriving DecidableEq

/-- `_REFERENCE_PREFIXES`. -/
inductive ReferencePrefix where
  | decision
  | d
deriving DecidableEq

def ReferencePrefix.text : ReferencePrefix → Text
  | .decision => "decision-".toList
  | .d => "d".toList

/-- `start > 0 and text[start - 1].isalnum()`. -/
def continuesToken (tables : UnicodeTables) (text : Text) (start : Nat) :
    Except ScanFailure Bool :=
  if start = 0 then .ok false
  else
    match text[start - 1]? with
    | none => .error .indexError
    | some c => .ok (tables.isAlnum c)

/-- What the scanner reads at an occurrence: a number, and where it goes on. -/
def referenceAt (tables : UnicodeTables) (text : Text) (plen start : Nat) :
    Except ScanFailure (Option Nat × Nat) :=
  match continuesToken tables text start with
  | .error failure => .error failure
  | .ok true => .ok (none, start + 1)
  | .ok false =>
      let digits := (text.drop (start + plen)).takeWhile Char.isDigit
      let stop := start + plen + digits.length
      let mixedScript := text[stop]?.any (continuesANumber tables)
      if digits = [] ∨ mixedScript then .ok (none, stop)
      else if intMaxStrDigits < digits.length then .error .valueError
      else .ok (some (Nat.ofDigitChars 10 digits 0), stop)

/-- `if 1 <= value <= max_number: found.add(value)`. -/
def addReference (maxNumber : Int) (value : Option Nat) (found : List Nat) : List Nat :=
  found ++ value.toList.filter fun n : Nat => decide (1 ≤ n ∧ (n : Int) ≤ maxNumber)

theorem ReferencePrefix.text_ne_nil (p : ReferencePrefix) : p.text ≠ [] := by
  cases p <;> decide

theorem ReferencePrefix.length_pos (p : ReferencePrefix) : 0 < p.text.length :=
  List.length_pos_iff.mpr p.text_ne_nil

/-- The scanner goes on behind the occurrence. -/
theorem lt_of_referenceAt {tables : UnicodeTables} {text : Text} {plen start : Nat}
    {value : Option Nat} {next : Nat} (hplen : 0 < plen)
    (h : referenceAt tables text plen start = .ok (value, next)) : start < next := by
  unfold referenceAt at h
  split at h
  · cases h
  · cases h
    omega
  · dsimp only at h
    split_ifs at h
    · cases h
      omega
    · cases h
      omega

/-- `_scan_prefix`, from an offset. -/
def scanPrefix (tables : UnicodeTables) (text low : Text) (p : ReferencePrefix)
    (maxNumber : Int) (start : Nat) (found : List Nat) : Except ScanFailure (List Nat) :=
  match _ : findFrom p.text low start with
  | none => .ok found
  | some hit =>
      match _ : referenceAt tables text p.text.length hit with
      | .error failure => .error failure
      | .ok (value, next) =>
          scanPrefix tables text low p maxNumber next (addReference maxNumber value found)
termination_by low.length - start
decreasing_by
  rename_i hfind hread
  obtain ⟨hstart, hlow, -, -⟩ := findFrom_some hfind
  have hnext := lt_of_referenceAt p.length_pos hread
  omega

/-- `scan_decision_references`. -/
def scanDecisionReferences (tables : UnicodeTables) (text : Text) (maxNumber : Int) :
    Except ScanFailure (List Nat) := do
  let low := lower tables text
  let found ← scanPrefix tables text low .decision maxNumber 0 []
  scanPrefix tables text low .d maxNumber 0 found

/-! ## The loop -/

theorem mem_addReference {maxNumber : Int} {value : Option Nat} {found : List Nat} {n : Nat} :
    n ∈ addReference maxNumber value found ↔
      n ∈ found ∨ value = some n ∧ 1 ≤ n ∧ (n : Int) ≤ maxNumber := by
  cases value with
  | none => simp [addReference]
  | some m =>
      simp only [addReference, Option.toList_some, List.mem_append, List.mem_filter,
        List.mem_singleton, decide_eq_true_eq, Option.some.injEq]
      constructor
      · rintro (hold | ⟨rfl, hbounds⟩)
        · exact Or.inl hold
        · exact Or.inr ⟨rfl, hbounds⟩
      · rintro (hold | ⟨rfl, hbounds⟩)
        · exact Or.inl hold
        · exact Or.inr ⟨rfl, hbounds⟩

/-- What the scanner reads at an occurrence of a prefix, and that it passes no other one. -/
structure ReadsOn (tables : UnicodeTables) (text low : Text) (p : ReferencePrefix)
    (hit : Nat) (value : Option Nat) (next : Nat) : Prop where
  read : referenceAt tables text p.text.length hit = .ok (value, next)
  passes : ∀ offset, hit < offset → offset < next → ¬ OccursAt p.text low offset

/-- A loop that reads every occurrence adds the numbers of them all. -/
theorem scanPrefix_of_reads {tables : UnicodeTables} {text low : Text} {p : ReferencePrefix}
    (maxNumber : Int) {start : Nat} (found : List Nat)
    (h : ∀ hit, start ≤ hit → OccursAt p.text low hit →
      ∃ value next, ReadsOn tables text low p hit value next) :
    ∃ result, scanPrefix tables text low p maxNumber start found = .ok result ∧
      ∀ n, n ∈ result ↔ n ∈ found ∨ (1 ≤ n ∧ (n : Int) ≤ maxNumber) ∧
        ∃ hit next, start ≤ hit ∧ OccursAt p.text low hit ∧
          referenceAt tables text p.text.length hit = .ok (some n, next) := by
  fun_induction scanPrefix tables text low p maxNumber start found with
  | case1 start found hnone =>
      refine ⟨found, rfl, fun n => ?_⟩
      constructor
      · exact Or.inl
      · rintro (hold | ⟨-, hit, next, hstart, hoccurs, -⟩)
        · exact hold
        · exact absurd hoccurs (findFrom_none p.text_ne_nil hnone hstart)
  | case2 start found hit hfind failure hfails =>
      obtain ⟨hstart, -, hoccurs, -⟩ := findFrom_some hfind
      obtain ⟨value, next, hreads⟩ := h hit hstart hoccurs
      rw [hreads.read] at hfails
      cases hfails
  | case3 start found hit hfind value next hread ih =>
      obtain ⟨hstart, -, hoccurs, hfirst⟩ := findFrom_some hfind
      have hnext := lt_of_referenceAt p.length_pos hread
      obtain ⟨value', next', hreads⟩ := h hit hstart hoccurs
      have hsame := hreads.read
      rw [hread, Except.ok.injEq, Prod.mk.injEq] at hsame
      obtain ⟨rfl, rfl⟩ := hsame
      obtain ⟨result, hresult, hmem⟩ := ih fun later hlater => h later (by omega)
      refine ⟨result, hresult, fun n => ?_⟩
      rw [hmem n, mem_addReference, or_assoc]
      apply or_congr_right
      constructor
      · rintro (⟨rfl, hbounds⟩ | ⟨hbounds, later, after, hlater, hmore⟩)
        · exact ⟨hbounds, hit, next, hstart, hoccurs, hread⟩
        · exact ⟨hbounds, later, after, by omega, hmore⟩
      · rintro ⟨hbounds, offset, after, hoffset, hthere, hnumber⟩
        rcases lt_trichotomy offset hit with hless | rfl | hmore
        · exact absurd hthere (hfirst offset hoffset hless)
        · rw [hread, Except.ok.injEq, Prod.mk.injEq] at hnumber
          exact Or.inl ⟨hnumber.1, hbounds⟩
        · by_cases hpassed : offset < next
          · exact absurd hthere (hreads.passes offset hmore hpassed)
          · exact Or.inr ⟨hbounds, offset, after, by omega, hthere, hnumber⟩

/-- A loop that succeeds has read every occurrence. -/
theorem reads_of_scanPrefix {tables : UnicodeTables} {text low : Text} {p : ReferencePrefix}
    {maxNumber : Int} {start : Nat} {found result : List Nat}
    (hpasses : ∀ hit value next, start ≤ hit → OccursAt p.text low hit →
      referenceAt tables text p.text.length hit = .ok (value, next) →
        ReadsOn tables text low p hit value next)
    (h : scanPrefix tables text low p maxNumber start found = .ok result) {hit : Nat}
    (hhit : start ≤ hit) (hoccurs : OccursAt p.text low hit) :
    ∃ value next, referenceAt tables text p.text.length hit = .ok (value, next) := by
  fun_induction scanPrefix tables text low p maxNumber start found with
  | case1 start found hnone => exact absurd hoccurs (findFrom_none p.text_ne_nil hnone hhit)
  | case2 start found first hfind failure hfails => cases h
  | case3 start found first hfind value next hread ih =>
      obtain ⟨hstart, -, hthere, hfirst⟩ := findFrom_some hfind
      have hnext := lt_of_referenceAt p.length_pos hread
      rcases lt_trichotomy hit first with hless | rfl | hmore
      · exact absurd hoccurs (hfirst hit hhit hless)
      · exact ⟨value, next, hread⟩
      · by_cases hpassed : hit < next
        · exact absurd hoccurs ((hpasses first value next hstart hthere hread).passes hit hmore
            hpassed)
        · refine ih ?_ h (by omega)
          intro later value' next' hlater
          exact hpasses later value' next' (by omega)

/-! ## Lower case, character by character -/

/-- The lower case that a character has in a text; a capital sigma has two. -/
def LowersTo (tables : UnicodeTables) (c : Char) (piece : Text) : Prop :=
  if c = 'Σ' then piece = ['ς'] ∨ piece = ['σ'] else piece = tables.lowerChar c

/-- Whether the lower case of a character is one character. -/
def lowersToOne (tables : UnicodeTables) (c : Char) : Bool :=
  c == 'Σ' || (tables.lowerChar c).length == 1

/-- How much of a text has its offsets in the lower-cased copy. -/
def alignedLength (tables : UnicodeTables) (text : Text) : Nat :=
  (text.takeWhile (lowersToOne tables)).length

/-- No occurrence of a prefix in the copy reaches past the aligned part. -/
def AlignedHits (tables : UnicodeTables) (text : Text) : Prop :=
  ∀ (p : ReferencePrefix) (offset : Nat), OccursAt p.text (lower tables text) offset →
    offset + p.text.length ≤ alignedLength tables text

section LowerCase

variable {tables : UnicodeTables}

theorem lowerAfter_append (tables : UnicodeTables) (before x y : Text) :
    ∃ pieces, lowerAfter tables before (x ++ y) =
        pieces.flatten ++ lowerAfter tables (x.reverse ++ before) y ∧
      List.Forall₂ (LowersTo tables) x pieces := by
  induction x generalizing before with
  | nil => exact ⟨[], rfl, List.Forall₂.nil⟩
  | cons c x ih =>
      obtain ⟨pieces, hlow, hpieces⟩ := ih (c :: before)
      have hcontext : (c :: x).reverse ++ before = x.reverse ++ c :: before := by simp
      rw [List.cons_append, lowerAfter, hlow, hcontext, ← List.append_assoc]
      refine ⟨_ :: pieces, by rw [List.flatten_cons], List.Forall₂.cons ?_ hpieces⟩
      unfold LowersTo
      split_ifs with hsigma hfinal
      · exact Or.inl rfl
      · exact Or.inr rfl
      · rfl

/-- Characters with one-character lower cases keep their offsets. -/
theorem pieces_of_aligned {x : Text} {pieces : List Text}
    (h : List.Forall₂ (LowersTo tables) x pieces) (hone : ∀ c ∈ x, lowersToOne tables c = true) :
    List.Forall₂ (fun c l => LowersTo tables c [l]) x pieces.flatten := by
  induction h with
  | nil => exact List.Forall₂.nil
  | @cons c piece x pieces hpiece _ ih =>
      obtain ⟨hc, hx⟩ := List.forall_mem_cons.mp hone
      obtain ⟨l, rfl⟩ : ∃ l, piece = [l] := by
        unfold LowersTo at hpiece
        split_ifs at hpiece with hsigma
        · rcases hpiece with rfl | rfl
          · exact ⟨_, rfl⟩
          · exact ⟨_, rfl⟩
        · rw [lowersToOne, Bool.or_eq_true, beq_iff_eq, beq_iff_eq] at hc
          rw [hpiece]
          exact List.length_eq_one_iff.mp (hc.resolve_left hsigma)
      exact List.Forall₂.cons hpiece (ih hx)

/-- The lower case of a text is no shorter than its aligned part. -/
theorem alignedLength_le {x : Text} {pieces : List Text}
    (h : List.Forall₂ (LowersTo tables) x pieces) :
    alignedLength tables x ≤ pieces.flatten.length := by
  induction h with
  | nil => exact Nat.le_refl 0
  | @cons c piece x pieces hpiece hrest ih =>
      rw [alignedLength, List.takeWhile_cons]
      split_ifs with hone
      · have hpieces : piece.length = 1 := by
          have hsingle := (pieces_of_aligned (List.Forall₂.cons hpiece List.Forall₂.nil)
            (List.forall_mem_singleton.mpr hone)).length_eq
          simpa using hsingle.symm
        rw [List.length_cons, List.flatten_cons, List.length_append, hpieces]
        rw [alignedLength] at ih
        omega
      · exact Nat.zero_le _

/-! ## Occurrences in the copy and in the text -/

/-- A stretch of the text that the copy shows as a prefix. -/
def Spells (tables : UnicodeTables) (p : ReferencePrefix) (mark : Text) : Prop :=
  List.Forall₂ (fun c l => LowersTo tables c [l]) mark p.text

/-- An aligned occurrence stands at the same offset of the text. -/
theorem spells_of_occursAt {text : Text} {p : ReferencePrefix} {hit : Nat}
    (haligned : AlignedHits tables text) (h : OccursAt p.text (lower tables text) hit) :
    Spells tables p ((text.drop hit).take p.text.length) := by
  have hend := haligned p hit h
  rw [alignedLength] at hend
  obtain ⟨pieces, hlow, hpieces⟩ := lowerAfter_append tables []
    (text.takeWhile (lowersToOne tables)) (text.dropWhile (lowersToOne tables))
  rw [List.takeWhile_append_dropWhile] at hlow
  have hsingle := pieces_of_aligned hpieces fun c hc => List.mem_takeWhile_imp hc
  have hlength := hsingle.length_eq
  have hcopy : p.text = (pieces.flatten.drop hit).take p.text.length := by
    rw [OccursAt, lower, hlow, List.drop_append_of_le_length (by omega)] at h
    have htake := List.prefix_iff_eq_take.mp h
    rw [List.take_append_of_le_length (by rw [List.length_drop]; omega)] at htake
    exact htake
  have hmark : (text.drop hit).take p.text.length =
      ((text.takeWhile (lowersToOne tables)).drop hit).take p.text.length := by
    conv_lhs => rw [← List.takeWhile_append_dropWhile (p := lowersToOne tables) (l := text)]
    rw [List.drop_append_of_le_length (by omega),
      List.take_append_of_le_length (by rw [List.length_drop]; omega)]
  have hspelled := List.forall₂_take p.text.length (List.forall₂_drop hit hsingle)
  rw [← hcopy] at hspelled
  rw [hmark]
  exact hspelled

theorem not_sigma_of_mem_prefix {p : ReferencePrefix} {l : Char} (h : l ∈ p.text) :
    l ≠ 'ς' ∧ l ≠ 'σ' := by
  have hall : (p.text.all fun l => l != 'ς' && l != 'σ') = true := by
    cases p <;> decide
  have hl := List.all_eq_true.mp hall l h
  simpa using hl

/-- The copy shows a stretch of the text in one way when that is a prefix. -/
theorem flatten_of_spells {p : ReferencePrefix} {mark : Text} {pieces : List Text}
    (hmark : Spells tables p mark) (h : List.Forall₂ (LowersTo tables) mark pieces) :
    pieces.flatten = p.text := by
  have hfree : ∀ l ∈ p.text, l ≠ 'ς' ∧ l ≠ 'σ' := fun l hl => not_sigma_of_mem_prefix hl
  unfold Spells at hmark
  generalize p.text = letters at hmark hfree
  induction hmark generalizing pieces with
  | nil =>
      cases h
      rfl
  | @cons c l mark letters hc _ ih =>
      cases h with
      | @cons _ piece _ rest hpiece hrest =>
          obtain ⟨hl, hletters⟩ := List.forall_mem_cons.mp hfree
          have hone : piece = [l] := by
            unfold LowersTo at hc hpiece
            split_ifs at hc hpiece
            · rcases hc with heq | heq
              · exact absurd (List.singleton_inj.mp heq) hl.1
              · exact absurd (List.singleton_inj.mp heq) hl.2
            · rw [hpiece, hc]
          rw [List.flatten_cons, hone, ih hrest hletters]
          rfl

/-- A prefix in the text occurs in the copy at its own offset. -/
theorem occursAt_of_spells {before mark rest : Text} {p : ReferencePrefix}
    (haligned : AlignedHits tables (before ++ (mark ++ rest))) (hmark : Spells tables p mark) :
    OccursAt p.text (lower tables (before ++ (mark ++ rest))) before.length := by
  obtain ⟨front, hfront, hbefore⟩ := lowerAfter_append tables [] before (mark ++ rest)
  obtain ⟨middle, hmiddle, hpieces⟩ :=
    lowerAfter_append tables (before.reverse ++ []) mark rest
  have hlow : lower tables (before ++ (mark ++ rest)) = front.flatten ++ (p.text ++
      lowerAfter tables (mark.reverse ++ (before.reverse ++ [])) rest) := by
    rw [lower, hfront, hmiddle, flatten_of_spells hmark hpieces]
  have hoccurs : OccursAt p.text (lower tables (before ++ (mark ++ rest))) front.flatten.length := by
    rw [hlow, OccursAt, List.drop_left]
    exact List.prefix_append _ _
  have hend := haligned p _ hoccurs
  have hpositive := p.length_pos
  have hall : ∀ c ∈ before, lowersToOne tables c = true := by
    by_contra hnot
    -- the aligned part would end within `before`, and the occurrence would reach past it
    have hwithin : alignedLength tables (before ++ (mark ++ rest)) = alignedLength tables before := by
      push Not at hnot
      obtain ⟨c, hc, hone⟩ := hnot
      rw [alignedLength, alignedLength, List.takeWhile_append, if_neg]
      intro hlength
      have hwhole : before.takeWhile (lowersToOne tables) = before :=
        (List.takeWhile_prefix _).eq_of_length hlength
      exact hone (List.mem_takeWhile_imp (hwhole.symm ▸ hc))
    have hle := alignedLength_le hbefore
    omega
  rw [(pieces_of_aligned hbefore hall).length_eq]
  exact hoccurs

end LowerCase

/-! ## References in the text -/

/-- A prefix between a boundary and a whole run of digits. -/
structure ReferenceShape (tables : UnicodeTables) (text : Text) (p : ReferencePrefix)
    (before mark digits after : Text) : Prop where
  split : text = before ++ (mark ++ (digits ++ after))
  spells : Spells tables p mark
  opens : ∀ c ∈ before.getLast?, tables.isAlnum c = false
  digits_ne_nil : digits ≠ []
  digits_ascii : digits.all Char.isDigit = true
  closes : ∀ c ∈ after.head?, continuesANumber tables c = false

/-- A reference to a number. -/
def ReferenceToken (tables : UnicodeTables) (text : Text) (n : Nat) : Prop :=
  ∃ p before mark digits after, ReferenceShape tables text p before mark digits after ∧
    number? digits = some n

/-- `int` reads the digits of every reference. -/
def ShortRuns (tables : UnicodeTables) (text : Text) : Prop :=
  ∀ p before mark digits after, ReferenceShape tables text p before mark digits after →
    digits.length ≤ intMaxStrDigits

section Aligned

variable {tables : UnicodeTables} {text : Text}

theorem getElem?_length_takeWhile (p : Char → Bool) (t : Text) :
    t[(t.takeWhile p).length]? = (t.dropWhile p).head? := by
  induction t with
  | nil => rfl
  | cons c t ih =>
      rw [List.takeWhile_cons, List.dropWhile_cons]
      split_ifs
      · rw [List.length_cons, List.getElem?_cons_succ]
        exact ih
      · rfl

theorem continuesToken_eq {hit : Nat} (hhit : hit ≤ text.length) :
    continuesToken tables text hit = .ok ((text.take hit).getLast?.any tables.isAlnum) := by
  unfold continuesToken
  rw [List.getLast?_take]
  split_ifs with hzero
  · rfl
  · rw [List.getElem?_eq_getElem (show hit - 1 < text.length by omega)]
    rfl

/-- The digits that follow an occurrence, and what follows them. -/
theorem takeWhile_digits (hlawful : tables.Lawful) {digits after : Text}
    (hdigits : digits.all Char.isDigit = true)
    (hcloses : ∀ c ∈ after.head?, continuesANumber tables c = false) :
    (digits ++ after).takeWhile Char.isDigit = digits := by
  have hall : ∀ c ∈ digits, c.isDigit = true := List.all_eq_true.mp hdigits
  rw [List.takeWhile_append_of_pos hall]
  cases after with
  | nil => simp
  | cons c after =>
      have hc : c.isDigit = false := by
        by_contra hdigit
        rw [Bool.not_eq_false] at hdigit
        have hrange := toNat_of_isDigit hdigit
        have hdecimal := hlawful.decimal_ascii c (by omega)
        have hclosed := hcloses c rfl
        rw [continuesANumber, hdecimal, hdigit] at hclosed
        cases hclosed
      rw [List.takeWhile_cons_of_neg (by simp [hc]), List.append_nil]

/-- What the scanner reads of a reference in the text. -/
theorem referenceAt_of_shape (hlawful : tables.Lawful) {p : ReferencePrefix}
    {before mark digits after : Text}
    (h : ReferenceShape tables text p before mark digits after) :
    referenceAt tables text p.text.length before.length =
      if intMaxStrDigits < digits.length then .error .valueError
      else .ok (some (Nat.ofDigitChars 10 digits 0),
        before.length + p.text.length + digits.length) := by
  have hmark : mark.length = p.text.length := h.spells.length_eq
  have hstart : before.length ≤ text.length := by
    rw [h.split, List.length_append]
    omega
  have hopen : (text.take before.length).getLast?.any tables.isAlnum = false := by
    rw [h.split, List.take_left]
    cases hlast : before.getLast? with
    | none => rfl
    | some c => exact h.opens c hlast
  have hrest : text.drop (before.length + p.text.length) = digits ++ after := by
    rw [h.split, ← List.append_assoc, ← hmark, ← List.length_append, List.drop_left]
  have hnext : text[before.length + p.text.length + digits.length]? = after.head? := by
    rw [← List.getElem?_drop, hrest, List.getElem?_append_right (Nat.le_refl _), Nat.sub_self,
      List.head?_eq_getElem?]
  have hclosed : after.head?.any (continuesANumber tables) = false := by
    cases hhead : after.head? with
    | none => rfl
    | some c => exact h.closes c hhead
  rw [referenceAt, continuesToken_eq hstart, hopen]
  dsimp only
  rw [hrest, takeWhile_digits hlawful h.digits_ascii h.closes, hnext, hclosed, if_neg]
  simpa using h.digits_ne_nil

/-- What stands around an aligned occurrence that the scanner reads a number at. -/
theorem shape_of_referenceAt (haligned : AlignedHits tables text) {p : ReferencePrefix}
    {hit : Nat} (hoccurs : OccursAt p.text (lower tables text) hit)
    (hread : ∀ value next, referenceAt tables text p.text.length hit = .ok (value, next) →
      value ≠ none) :
    ∃ digits after, ReferenceShape tables text p (text.take hit)
      ((text.drop hit).take p.text.length) digits after := by
  have hend := haligned p hit hoccurs
  have hlength : alignedLength tables text ≤ text.length :=
    (List.takeWhile_prefix _).length_le
  have hstart : hit ≤ text.length := by omega
  unfold referenceAt at hread
  rw [continuesToken_eq hstart] at hread
  cases hopen : (text.take hit).getLast?.any tables.isAlnum with
  | true =>
      rw [hopen] at hread
      exact absurd rfl (hread none _ rfl)
  | false =>
      rw [hopen] at hread
      dsimp only at hread
      split_ifs at hread with hnone hlong
      · exact absurd rfl (hread none _ rfl)
      all_goals
        rw [not_or, Bool.not_eq_true] at hnone
        obtain ⟨hdigits, hclosed⟩ := hnone
        refine ⟨_, (text.drop (hit + p.text.length)).dropWhile Char.isDigit,
          ?_, spells_of_occursAt haligned hoccurs, ?_, hdigits, ?_, ?_⟩
        · rw [List.takeWhile_append_dropWhile, ← List.drop_drop, List.take_append_drop,
            List.take_append_drop]
        · intro c hc
          rw [hc] at hopen
          exact hopen
        · exact List.all_eq_true.mpr fun c hc => List.mem_takeWhile_imp hc
        · intro c hc
          have hafter : text[hit + p.text.length +
              ((text.drop (hit + p.text.length)).takeWhile Char.isDigit).length]? = some c := by
            rw [← List.getElem?_drop]
            rw [getElem?_length_takeWhile]
            exact hc
          rw [hafter] at hclosed
          exact hclosed

/-- The scanner passes no occurrence between one and where it goes on. -/
theorem passes_of_aligned (hlawful : tables.Lawful) (haligned : AlignedHits tables text)
    {p : ReferencePrefix} {hit next : Nat} {value : Option Nat}
    (hoccurs : OccursAt p.text (lower tables text) hit)
    (hread : referenceAt tables text p.text.length hit = .ok (value, next)) :
    ReadsOn tables text (lower tables text) p hit value next := by
  refine ⟨hread, fun offset hafter hbefore hthere => ?_⟩
  have hopens (p : ReferencePrefix) : ∃ rest, p.text = 'd' :: rest ∧ 'd' ∉ rest := by
    cases p with
    | decision => exact ⟨"ecision-".toList, by decide, by decide⟩
    | d => exact ⟨[], by decide, by decide⟩
  obtain ⟨rest, hrest, hfree⟩ := hopens p
  -- The text has a character at that offset whose lower case is `d`.
  have hd : ∃ c, text[offset]? = some c ∧ LowersTo tables c ['d'] := by
    have hspells := spells_of_occursAt haligned hthere
    rw [Spells, hrest] at hspells
    cases hmark : (text.drop offset).take ('d' :: rest).length with
    | nil =>
        rw [hmark] at hspells
        cases hspells
    | cons c mark =>
        rw [hmark] at hspells
        cases hspells with
        | cons hc _ =>
            refine ⟨c, ?_, hc⟩
            have hhead := congrArg List.head? hmark
            rw [List.length_cons, List.head?_take, if_neg (Nat.succ_ne_zero _),
              List.head?_drop] at hhead
            exact hhead
  obtain ⟨c, hc, hlowers⟩ := hd
  have hcopy : (lower tables text)[offset]? = some 'd' := by
    obtain ⟨after, hsplit⟩ := hthere
    have hhead := congrArg List.head? hsplit
    rw [hrest, List.cons_append, List.head?_cons, List.head?_drop] at hhead
    exact hhead.symm
  have hwithin : ¬ offset < hit + p.text.length := by
    intro hless
    obtain ⟨after, hsplit⟩ := hoccurs
    have hshown : (lower tables text)[offset]? = p.text[offset - hit]? := by
      have hget : (lower tables text)[hit + (offset - hit)]? = p.text[offset - hit]? := by
        rw [← List.getElem?_drop, ← hsplit, List.getElem?_append_left (by omega)]
      rwa [Nat.add_sub_cancel' (by omega)] at hget
    rw [hcopy, hrest, show offset - hit = (offset - hit - 1) + 1 by omega,
      List.getElem?_cons_succ] at hshown
    exact hfree (List.mem_of_getElem? hshown.symm)
  have hdigit : c.isDigit = true := by
    unfold referenceAt at hread
    split at hread
    · cases hread
    · cases hread
      omega
    · dsimp only at hread
      have hrun : next = hit + p.text.length +
          ((text.drop (hit + p.text.length)).takeWhile Char.isDigit).length := by
        split_ifs at hread
        · cases hread
          rfl
        · cases hread
          rfl
      have hindex : offset - (hit + p.text.length) <
          ((text.drop (hit + p.text.length)).takeWhile Char.isDigit).length := by omega
      have hchar : ((text.drop (hit + p.text.length)).takeWhile Char.isDigit)[offset -
          (hit + p.text.length)]? = some c := by
        have hthere : (text.drop (hit + p.text.length))[offset - (hit + p.text.length)]? =
            some c := by
          rw [List.getElem?_drop, Nat.add_sub_cancel' (by omega)]
          exact hc
        rw [← List.takeWhile_append_dropWhile (p := Char.isDigit)
          (l := text.drop (hit + p.text.length)), List.getElem?_append_left hindex] at hthere
        exact hthere
      exact List.mem_takeWhile_imp (List.mem_of_getElem? hchar)
  have hrange := toNat_of_isDigit hdigit
  have hsigma : c ≠ 'Σ' := by
    rintro rfl
    exact absurd hdigit (by decide)
  rw [LowersTo, if_neg hsigma, hlawful.lower_ascii c (by omega), toLower_of_isDigit hdigit] at hlowers
  rw [← List.singleton_inj.mp hlowers] at hdigit
  exact absurd hdigit (by decide)

/-- With short runs the scanner reads every aligned occurrence. -/
theorem reads_of_short (hlawful : tables.Lawful) (haligned : AlignedHits tables text)
    (hshort : ShortRuns tables text) {p : ReferencePrefix} {hit : Nat}
    (hoccurs : OccursAt p.text (lower tables text) hit) :
    ∃ value next, ReadsOn tables text (lower tables text) p hit value next := by
  cases hread : referenceAt tables text p.text.length hit with
  | ok outcome =>
      obtain ⟨value, next⟩ := outcome
      exact ⟨value, next, passes_of_aligned hlawful haligned hoccurs hread⟩
  | error failure =>
      obtain ⟨digits, after, hshape⟩ := shape_of_referenceAt haligned hoccurs (by
        intro value next hok
        rw [hread] at hok
        cases hok)
      have hlength : (text.take hit).length = hit := by
        have hend := haligned p hit hoccurs
        have hle : alignedLength tables text ≤ text.length := (List.takeWhile_prefix _).length_le
        rw [List.length_take]
        omega
      have hok := referenceAt_of_shape hlawful hshape
      rw [if_neg (not_lt.mpr (hshort _ _ _ _ _ hshape)), hlength, hread] at hok
      cases hok

/-- The numbers read at aligned occurrences are those of the references. -/
theorem token_iff_read (hlawful : tables.Lawful) (haligned : AlignedHits tables text)
    (hshort : ShortRuns tables text) {n : Nat} :
    ReferenceToken tables text n ↔
      ∃ (p : ReferencePrefix) (hit next : Nat), OccursAt p.text (lower tables text) hit ∧
        referenceAt tables text p.text.length hit = .ok (some n, next) := by
  constructor
  · rintro ⟨p, before, mark, digits, after, hshape, hnumber⟩
    have hread := referenceAt_of_shape hlawful hshape
    rw [if_neg (not_lt.mpr (hshort _ _ _ _ _ hshape))] at hread
    have hvalue : Nat.ofDigitChars 10 digits 0 = n := by
      rw [number?, if_pos ⟨hshape.digits_ne_nil, hshape.digits_ascii⟩] at hnumber
      exact Option.some.inj hnumber
    have hoccurs : OccursAt p.text (lower tables text) before.length := by
      rw [hshape.split] at haligned ⊢
      exact occursAt_of_spells haligned hshape.spells
    rw [hvalue] at hread
    exact ⟨p, before.length, _, hoccurs, hread⟩
  · rintro ⟨p, hit, next, hoccurs, hread⟩
    obtain ⟨digits, after, hshape⟩ := shape_of_referenceAt haligned hoccurs (by
      intro value next' hok
      rw [hread] at hok
      cases hok
      exact Option.some_ne_none n)
    have hlength : (text.take hit).length = hit := by
      have hend := haligned p hit hoccurs
      have hle : alignedLength tables text ≤ text.length := (List.takeWhile_prefix _).length_le
      rw [List.length_take]
      omega
    have hok := referenceAt_of_shape hlawful hshape
    rw [if_neg (not_lt.mpr (hshort _ _ _ _ _ hshape)), hlength, hread, Except.ok.injEq,
      Prod.mk.injEq, Option.some.injEq] at hok
    refine ⟨p, _, _, digits, after, hshape, ?_⟩
    rw [number?, if_pos ⟨hshape.digits_ne_nil, hshape.digits_ascii⟩, hok.1]

end Aligned

/-! ## When the scan is total and exact -/

/-- The scan returns, within the bound, just the numbers that the text refers to. -/
def ScanExact (tables : UnicodeTables) (text : Text) (maxNumber : Int) : Prop :=
  ∃ found, scanDecisionReferences tables text maxNumber = .ok found ∧
    (∀ n ∈ found, 1 ≤ n ∧ (n : Int) ≤ maxNumber) ∧
    ∀ n : Nat, 1 ≤ n → (n : Int) ≤ maxNumber → (n ∈ found ↔ ReferenceToken tables text n)

/-- A scan whose occurrences stand where the text has them is total and exact, unless a reference
has more digits than `int` reads. -/
theorem scan_exact_iff {tables : UnicodeTables} (hlawful : tables.Lawful) {text : Text}
    (haligned : AlignedHits tables text) (maxNumber : Int) :
    ScanExact tables text maxNumber ↔ ShortRuns tables text := by
  constructor
  · rintro ⟨found, hscan, -, -⟩ p before mark digits after hshape
    have hread : ∃ value next,
        referenceAt tables text p.text.length before.length = .ok (value, next) := by
      have hoccurs : OccursAt p.text (lower tables text) before.length := by
        rw [hshape.split] at haligned ⊢
        exact occursAt_of_spells haligned hshape.spells
      have hpasses (q : ReferencePrefix) (hit : Nat) (value : Option Nat) (next : Nat)
          (_ : 0 ≤ hit) (hthere : OccursAt q.text (lower tables text) hit)
          (hok : referenceAt tables text q.text.length hit = .ok (value, next)) :=
        passes_of_aligned hlawful haligned hthere hok
      obtain ⟨first, hdecision, hd⟩ := bind_eq_ok_iff.mp hscan
      cases p with
      | decision =>
          exact reads_of_scanPrefix (hpasses .decision) hdecision (Nat.zero_le _) hoccurs
      | d => exact reads_of_scanPrefix (hpasses .d) hd (Nat.zero_le _) hoccurs
    obtain ⟨value, next, hok⟩ := hread
    rw [referenceAt_of_shape hlawful hshape] at hok
    split_ifs at hok with hlong
    exact not_lt.mp hlong
  · intro hshort
    have hreads (p : ReferencePrefix) (hit : Nat) (_ : 0 ≤ hit)
        (hoccurs : OccursAt p.text (lower tables text) hit) :=
      reads_of_short hlawful haligned hshort hoccurs
    obtain ⟨first, hdecision, hfirst⟩ := scanPrefix_of_reads maxNumber []
      (hreads .decision)
    obtain ⟨found, hd, hfound⟩ := scanPrefix_of_reads maxNumber first
      (hreads .d)
    have hmem (n : Nat) : n ∈ found ↔
        (1 ≤ n ∧ (n : Int) ≤ maxNumber) ∧ ReferenceToken tables text n := by
      rw [hfound, hfirst, token_iff_read hlawful haligned hshort]
      constructor
      · rintro ((hnil | ⟨hbounds, hit, next, -, hread⟩) | ⟨hbounds, hit, next, -, hread⟩)
        · cases hnil
        · exact ⟨hbounds, .decision, hit, next, hread⟩
        · exact ⟨hbounds, .d, hit, next, hread⟩
      · rintro ⟨hbounds, p, hit, next, hread⟩
        cases p with
        | decision => exact Or.inl (Or.inr ⟨hbounds, hit, next, Nat.zero_le _, hread⟩)
        | d => exact Or.inr ⟨hbounds, hit, next, Nat.zero_le _, hread⟩
    refine ⟨found, bind_eq_ok_iff.mpr ⟨first, hdecision, hd⟩, fun n hn => ((hmem n).mp hn).1, ?_⟩
    intro n hone hmax
    exact ⟨fun hn => ((hmem n).mp hn).2, fun htoken => (hmem n).mpr ⟨⟨hone, hmax⟩, htoken⟩⟩

/-! ## Texts that meet the conditions -/

/-- A text whose characters all keep their offsets. -/
theorem alignedHits_of_one {tables : UnicodeTables} {text : Text}
    (h : ∀ c ∈ text, lowersToOne tables c = true) : AlignedHits tables text := by
  intro p offset hoccurs
  obtain ⟨pieces, hlow, hpieces⟩ := lowerAfter_append tables [] text []
  have hlength := (pieces_of_aligned hpieces h).length_eq
  have hend := hoccurs.add_le p.text_ne_nil
  rw [List.append_nil, lowerAfter, List.append_nil] at hlow
  rw [lower, hlow] at hend
  have hall : text.takeWhile (lowersToOne tables) = text := List.takeWhile_eq_self_iff.mpr h
  rw [alignedLength, hall]
  omega

theorem shortRuns_of_length {tables : UnicodeTables} {text : Text}
    (h : text.length ≤ intMaxStrDigits) : ShortRuns tables text := by
  intro p before mark digits after hshape
  have hlength := congrArg List.length hshape.split
  simp only [List.length_append] at hlength
  omega

/-- The ASCII tables with the one character whose lower case is longer. -/
def dottedTables : UnicodeTables :=
  { UnicodeTables.ascii with
    lowerChar := fun c => if c = 'İ' then ['i', '\u0307'] else UnicodeTables.ascii.lowerChar c
    isAlnum := fun c => c = 'İ' || c.isAlphanum }

theorem dottedTables_lawful : dottedTables.Lawful := by
  have hascii := UnicodeTables.ascii_lawful
  have hdotted : dottedTables.lowerChar 'İ' = ['i', '\u0307'] := by decide
  have hother {c : Char} (hc : c ≠ 'İ') :
      dottedTables.lowerChar c = UnicodeTables.ascii.lowerChar c := if_neg hc
  have hsmall {c : Char} (hc : c.toNat < 128) : c ≠ 'İ' := by
    rintro rfl
    exact absurd hc (by decide)
  constructor
  · intro c hc
    rw [hother (hsmall hc), hascii.lower_ascii c hc]
  · intro c hc
    have hne : c ≠ 'İ' := by
      rintro rfl
      exact absurd hc (by decide)
    rw [hother hne, hascii.lower_space c hc]
  · intro c hc
    by_cases hne : c = 'İ'
    · rw [hne, hdotted]
      exact ⟨List.cons_ne_nil _ _, List.forall_mem_cons.mpr ⟨by decide,
        List.forall_mem_singleton.mpr (by decide)⟩⟩
    · rw [hother hne]
      exact hascii.lower_nonspace c hc
  · intro c hc x hx
    by_cases hne : c = 'İ'
    · rw [hne, hdotted] at hx
      simp only [List.mem_cons, List.not_mem_nil, or_false] at hx
      rcases hx with rfl | rfl
      · decide
      · decide
    · rw [hother hne] at hx
      obtain ⟨hsigma, hstable⟩ := hascii.lower_stable c hc x hx
      have hsame : x ≠ 'İ' := by
        rintro rfl
        simp only [UnicodeTables.ascii, if_neg hc, List.mem_singleton] at hx
        by_cases hupper : 65 ≤ c.toNat ∧ c.toNat ≤ 90
        · have hlower := toLower_toNat hupper
          rw [← hx, show ('İ').toNat = 304 by decide] at hlower
          omega
        · rw [toLower_eq_self hupper] at hx
          exact hne hx.symm
      rw [hother hsame]
      exact ⟨hsigma, hstable⟩
  · decide
  · exact fun c hc => hascii.decimal_ascii c hc

/-- The scan of a text with two such characters looks past the end of it. -/
theorem scan_raises :
    dottedTables.Lawful ∧ scanDecisionReferences dottedTables "İİd".toList 1 = .error .indexError ∧
      ¬ ScanExact dottedTables "İİd".toList 1 := by
  have hraises : scanDecisionReferences dottedTables "İİd".toList 1 = .error .indexError := by
    have hlow : lower dottedTables "İİd".toList = ['i', '\u0307', 'i', '\u0307', 'd'] := by decide
    have hdecision : findFrom ReferencePrefix.decision.text
        ['i', '\u0307', 'i', '\u0307', 'd'] 0 = none := by decide
    have hd : findFrom ReferencePrefix.d.text ['i', '\u0307', 'i', '\u0307', 'd'] 0 = some 4 := by
      decide
    have hread : referenceAt dottedTables "İİd".toList ReferencePrefix.d.text.length 4 =
        .error .indexError := by decide
    have hfirst : scanPrefix dottedTables "İİd".toList ['i', '\u0307', 'i', '\u0307', 'd']
        .decision 1 0 [] = .ok [] := by
      rw [scanPrefix]
      split
      · rfl
      · next hit hfind =>
          rw [hdecision] at hfind
          cases hfind
    have hsecond : scanPrefix dottedTables "İİd".toList ['i', '\u0307', 'i', '\u0307', 'd']
        .d 1 0 [] = .error .indexError := by
      rw [scanPrefix]
      split
      · next hfind =>
          rw [hd] at hfind
          cases hfind
      · next hit hfind =>
          rw [hd] at hfind
          cases hfind
          split
          · next failure hfails =>
              rw [hread] at hfails
              cases hfails
              rfl
          · next value next hok =>
              rw [hread] at hok
              cases hok
    rw [scanDecisionReferences, hlow, hfirst]
    exact hsecond
  refine ⟨dottedTables_lawful, hraises, ?_⟩
  rintro ⟨found, hscan, -⟩
  rw [hraises] at hscan
  cases hscan

/-- The scan of a plain text. -/
theorem scan_plain : ScanExact .ascii "See D12 and decision-7.".toList 100 := by
  have hone : ("See D12 and decision-7.".toList.all fun c => lowersToOne .ascii c) = true := by
    decide
  exact (scan_exact_iff UnicodeTables.ascii_lawful
    (alignedHits_of_one (List.all_eq_true.mp hone)) 100).mpr (shortRuns_of_length (by decide))

end Core
end Nauro
