import Nauro.Core.DecisionHeadings
import Nauro.Foundation.LineCuts

/-!
# Decision headings as sync reads them

* `HeadingLine` — the shape of a heading line, with `headingLineNumber_eq`.
-/

namespace Nauro
namespace Sync

open Foundation Core

/-! ## Lines -/

/-- The characters that end a line for `str.splitlines`. -/
def isLineBreak (c : Char) : Bool :=
  let n := c.toNat
  (10 ≤ n && n ≤ 13) || (28 ≤ n && n ≤ 30) || n == 0x85 || n == 0x2028 || n == 0x2029

/-- A carriage return before a newline leaves the line to the newline. -/
def endsLine (c : Char) (next : Option Char) : Bool :=
  isLineBreak c && !(c == '\r' && next == some '\n')

/-- `text.splitlines(keepends=True)`. -/
def splitlinesKeepEnds (text : Text) : List Text :=
  LineCuts.cutAfter endsLine text

def withoutEnd (line : Text) : Text :=
  line.takeWhile fun c => !isLineBreak c

/-- `text.splitlines()`. -/
def splitlines (text : Text) : List Text :=
  (splitlinesKeepEnds text).map withoutEnd

theorem splitlinesKeepEnds_append {front : Text} (hfront : front.getLast? = some '\n') (rest : Text) :
    splitlinesKeepEnds (front ++ rest) = splitlinesKeepEnds front ++ splitlinesKeepEnds rest := by
  refine LineCuts.cutAfter_append (fun c hc _ => ?_) rest
  rw [hfront] at hc
  cases hc
  rfl

/-! ## The number of a heading -/

/-- `int` refuses a run of more than 4300 digits. -/
inductive DigitLimit where
  | exceeded
deriving DecidableEq

/-- `int(digits)`. -/
def readInt (digits : Text) : Except DigitLimit (Option Nat) :=
  if intMaxStrDigits < digits.length then .error .exceeded else .ok (number? digits)

/-- `_HEADING_SEPARATORS`. -/
def headingSeparators : List Char := ['—', '-']

/-- `heading_line_number`. -/
def headingLineNumber (line : Text) : Except DigitLimit (Option Nat) :=
  match line with
  | '#' :: afterHash =>
      let rest := afterHash.dropWhile (· == ' ')
      if rest.length = afterHash.length then .ok none
      else
        -- `rest.partition(" ")`
        let head := rest.takeWhile (· != ' ')
        let tail := rest.drop (head.length + 1)
        if !isAsciiDecimal head || !tail.head?.any headingSeparators.contains then .ok none
        else readInt head
  | _ => .ok none

/-- The first line that claims a number. -/
def firstHeadingNumber : List Text → Except DigitLimit (Option Nat)
  | [] => .ok none
  | line :: rest =>
      match headingLineNumber line with
      | .ok none => firstHeadingNumber rest
      | found => found

/-- `heading_number`. -/
def headingNumber (text : Text) : Except DigitLimit (Option Nat) :=
  firstHeadingNumber (splitlines text)

/-! ## Rewriting -/

/-- `f"# {num:03d}"`. -/
def headingPrefix (num : Nat) : Text :=
  '#' :: ' ' :: padNumber 3 num

/-- Whether a line starts with the canonical heading of a number. -/
def isRewritable (num : Nat) (line : Text) : Bool :=
  (headingPrefix num ++ [' ', '—']).isPrefixOf line ||
    (headingPrefix num ++ [' ', '-']).isPrefixOf line

/-- `_rewritable_index`. -/
def rewritableIndex (lines : List Text) (num : Nat) : Option Nat :=
  lines.findIdx? (isRewritable num)

/-- `has_rewritable_heading`. -/
def hasRewritableHeading (text : Text) (num : Nat) : Bool :=
  (rewritableIndex (splitlinesKeepEnds text) num).isSome

/-- A line with the number of its heading replaced. -/
def renumberLine (oldNum newNum : Nat) (line : Text) : Text :=
  headingPrefix newNum ++ line.drop (headingPrefix oldNum).length

/-- `rewrite_decision_heading`. -/
def rewriteDecisionHeading (text : Text) (oldNum newNum : Nat) : Text :=
  let lines := splitlinesKeepEnds text
  match rewritableIndex lines oldNum with
  | none => text
  | some index => (lines.modify index (renumberLine oldNum newNum)).flatten

/-! ## The shape of a heading line -/

/-- A run of blanks that is not empty. -/
def Blanks (gap : Text) : Prop :=
  gap ≠ [] ∧ ∀ c ∈ gap, c = ' '

/-- `#`, blanks, the digits, one blank and a dash. -/
def HeadingLine (digits line : Text) : Prop :=
  ∃ gap tail, ∃ sep ∈ headingSeparators,
    line = '#' :: (gap ++ (digits ++ ' ' :: sep :: tail)) ∧ Blanks gap ∧ Number digits

theorem isAsciiDecimal_iff {digits : Text} : isAsciiDecimal digits = true ↔ Number digits := by
  rw [isAsciiDecimal, Bool.and_eq_true, List.all_eq_true, Bool.not_eq_true', List.isEmpty_eq_false_iff]
  rfl

theorem number?_of_number {digits : Text} (h : Number digits) :
    number? digits = some (Nat.ofDigitChars 10 digits 0) := by
  rw [number?, if_pos ⟨h.1, List.all_eq_true.mpr h.2⟩]

theorem readInt_ne_none {digits : Text} (h : Number digits) : readInt digits ≠ .ok none := by
  rw [readInt, number?_of_number h]
  split
  · exact fun heq => by cases heq
  · exact fun heq => by cases heq

theorem space_ne_digit {c : Char} (h : c.isDigit = true) : (c != ' ') = true := by
  rw [bne_iff_ne]
  rintro rfl
  exact absurd h (by decide)

/-- A heading line claims the number of its digits. -/
theorem headingLineNumber_of_heading {digits line : Text} (h : HeadingLine digits line) :
    headingLineNumber line = readInt digits := by
  obtain ⟨gap, tail, sep, hsep, rfl, hgap, hdigits⟩ := h
  have hafter : (gap ++ (digits ++ ' ' :: sep :: tail)).dropWhile (· == ' ') =
      digits ++ ' ' :: sep :: tail := by
    refine dropWhile_run (fun c hc => beq_iff_eq.mpr (hgap.2 c hc)) ?_
    intro c hc
    obtain ⟨d, hd, hdigit⟩ := hdigits.head (' ' :: sep :: tail)
    rw [Option.mem_def, hd] at hc
    cases hc
    rw [← Bool.not_eq_true, beq_iff_eq]
    exact bne_iff_ne.mp (space_ne_digit hdigit)
  have hhead : (digits ++ ' ' :: sep :: tail).takeWhile (· != ' ') = digits := by
    refine takeWhile_run (fun c hc => space_ne_digit (hdigits.2 c hc)) ?_
    intro c hc
    cases hc
    rfl
  have hlength : (digits ++ ' ' :: sep :: tail).length ≠
      (gap ++ (digits ++ ' ' :: sep :: tail)).length := by
    have hpos := List.length_pos_iff.mpr hgap.1
    have hlength : (gap ++ (digits ++ ' ' :: sep :: tail)).length =
        gap.length + (digits ++ ' ' :: sep :: tail).length := List.length_append
    omega
  have htail : (digits ++ ' ' :: sep :: tail).drop (digits.length + 1) = sep :: tail := by
    rw [← List.drop_drop, List.drop_left]
    rfl
  rw [headingLineNumber]
  simp only [hafter, hhead, htail, if_neg hlength, isAsciiDecimal_iff.mpr hdigits, List.head?_cons,
    Option.any_some, List.contains_iff_mem.mpr hsep, Bool.not_true, Bool.or_self,
    Bool.false_eq_true, if_false]

/-- A line that claims a number is a heading line. -/
theorem heading_of_headingLineNumber {line : Text} (h : headingLineNumber line ≠ .ok none) :
    ∃ digits, HeadingLine digits line := by
  unfold headingLineNumber at h
  split at h
  · next afterHash =>
      simp only at h
      split at h
      · exact absurd rfl h
      · next hlength =>
          split at h
          · exact absurd rfl h
          · next hshape =>
              simp only [Bool.or_eq_true, Bool.not_eq_true', not_or, Bool.not_eq_false] at hshape
              obtain ⟨hdecimal, htail⟩ := hshape
              set rest := afterHash.dropWhile (· == ' ') with hrest
              set digits := rest.takeWhile (· != ' ') with hdigits
              have hgap : ∀ c ∈ afterHash.takeWhile (· == ' '), c = ' ' := fun c hc => by
                simpa using List.mem_takeWhile_imp hc
              have hsplit : afterHash.takeWhile (· == ' ') ++ rest = afterHash :=
                List.takeWhile_append_dropWhile
              have hne : afterHash.takeWhile (· == ' ') ≠ [] := by
                intro hnil
                rw [hnil, List.nil_append] at hsplit
                exact hlength (by rw [hsplit])
              have hafter : digits ++ rest.dropWhile (· != ' ') = rest :=
                List.takeWhile_append_dropWhile
              cases hspace : rest.dropWhile (· != ' ') with
              | nil =>
                  rw [hspace, List.append_nil] at hafter
                  rw [← hafter, List.drop_of_length_le (by omega)] at htail
                  cases htail
              | cons c more =>
                  have hblank : c = ' ' := by
                    have hfirst := Trim.head?_dropWhile (p := (· != ' ')) rest c
                      (by rw [hspace]; rfl)
                    simpa using hfirst
                  subst hblank
                  rw [hspace] at hafter
                  have hmore : rest.drop (digits.length + 1) = more := by
                    rw [← hafter, ← List.drop_drop, List.drop_left]
                    rfl
                  rw [hmore] at htail
                  cases more with
                  | nil => cases htail
                  | cons sep tail =>
                      refine ⟨digits, _, tail, sep, ?_, ?_, ⟨hne, hgap⟩,
                        isAsciiDecimal_iff.mp hdecimal⟩
                      · exact List.contains_iff_mem.mp htail
                      · rw [hafter, hsplit]
  · exact absurd rfl h

theorem headingLineNumber_eq_none_iff {line : Text} :
    headingLineNumber line = .ok none ↔ ¬ ∃ digits, HeadingLine digits line := by
  constructor
  · rintro hnone ⟨digits, hline⟩
    rw [headingLineNumber_of_heading hline] at hnone
    obtain ⟨-, -, -, -, -, -, hdigits⟩ := hline
    exact readInt_ne_none hdigits hnone
  · intro h
    by_contra hne
    exact h (heading_of_headingLineNumber hne)

/-! ## Line ends do not matter -/

/-- Up to its dash, a heading line has no line break. -/
theorem heading_stamp_unbroken {gap digits : Text} {sep : Char} (hgap : Blanks gap)
    (hdigits : Number digits) (hsep : sep ∈ headingSeparators) :
    ∀ c ∈ '#' :: (gap ++ (digits ++ [' ', sep])), isLineBreak c = false := by
  intro c hc
  rcases List.mem_cons.mp hc with rfl | hc
  · decide
  · rcases List.mem_append.mp hc with hin | hc
    · rw [hgap.2 c hin]
      decide
    · rcases List.mem_append.mp hc with hin | hc
      · have hrange := digit_range (hdigits.2 c hin)
        have hzero : '0'.toNat = 48 := rfl
        simp only [isLineBreak, Bool.or_eq_false_iff, Bool.and_eq_false_iff,
          decide_eq_false_iff_not, beq_eq_false_iff_ne]
        omega
      · rcases List.mem_cons.mp hc with rfl | hc
        · decide
        · have hdashes : ∀ dash ∈ headingSeparators, isLineBreak dash = false :=
            forall_mem_of_all (by decide)
          rw [List.mem_singleton.mp hc]
          exact hdashes sep hsep

theorem HeadingLine.append {digits line : Text} (h : HeadingLine digits line) (more : Text) :
    HeadingLine digits (line ++ more) := by
  obtain ⟨gap, tail, sep, hsep, rfl, hgap, hdigits⟩ := h
  exact ⟨gap, tail ++ more, sep, hsep, by simp, hgap, hdigits⟩

/-- A heading line is one before its line break. -/
theorem HeadingLine.of_append {digits line more : Text} (h : HeadingLine digits (line ++ more))
    (hmore : ∀ c ∈ more.head?, isLineBreak c = true) : HeadingLine digits line := by
  obtain ⟨gap, tail, sep, hsep, hline, hgap, hdigits⟩ := h
  have hunbroken := heading_stamp_unbroken hgap hdigits hsep
  have hstamp : line ++ more = ('#' :: (gap ++ (digits ++ [' ', sep]))) ++ tail := by
    rw [hline]
    simp
  rcases List.append_eq_append_iff.mp hstamp with ⟨rest, hwhole, htail⟩ | ⟨rest, hwhole, -⟩
  · cases rest with
    | nil =>
        rw [List.append_nil] at hwhole
        exact ⟨gap, [], sep, hsep, by rw [← hwhole], hgap, hdigits⟩
    | cons c rest =>
        have hin : c ∈ '#' :: (gap ++ (digits ++ [' ', sep])) := by
          rw [hwhole]
          exact List.mem_append_right _ (List.mem_cons_self ..)
        have hbreak := hmore c (by rw [htail]; rfl)
        rw [hunbroken c hin] at hbreak
        cases hbreak
  · exact ⟨gap, rest, sep, hsep, by rw [hwhole]; simp, hgap, hdigits⟩

/-- What stands from a line break on does not change the number of a line. -/
theorem headingLineNumber_append {line more : Text}
    (hmore : ∀ c ∈ more.head?, isLineBreak c = true) :
    headingLineNumber (line ++ more) = headingLineNumber line := by
  by_cases hheading : ∃ digits, HeadingLine digits line
  · obtain ⟨digits, hline⟩ := hheading
    rw [headingLineNumber_of_heading hline, headingLineNumber_of_heading (hline.append more)]
  · have hnone : ¬ ∃ digits, HeadingLine digits (line ++ more) :=
      fun ⟨digits, hline⟩ => hheading ⟨digits, hline.of_append hmore⟩
    rw [headingLineNumber_eq_none_iff.mpr hheading, headingLineNumber_eq_none_iff.mpr hnone]

theorem headingLineNumber_withoutEnd (line : Text) :
    headingLineNumber (withoutEnd line) = headingLineNumber line := by
  have hsplit : withoutEnd line ++ line.dropWhile (fun c => !isLineBreak c) = line :=
    List.takeWhile_append_dropWhile
  have hmore : ∀ c ∈ (line.dropWhile fun c => !isLineBreak c).head?, isLineBreak c = true := by
    intro c hc
    simpa using Trim.head?_dropWhile line c hc
  rw [← headingLineNumber_append hmore, hsplit]

/-- The line that a piece opens has the number of the piece. -/
theorem headingLineNumber_of_cut {line first : Text} {others : List Text}
    (hcut : splitlinesKeepEnds line = first :: others) :
    headingLineNumber first = headingLineNumber line := by
  rw [← headingLineNumber_withoutEnd first, ← headingLineNumber_withoutEnd line]
  congr 1
  induction line generalizing first others with
  | nil => cases hcut
  | cons c rest ih =>
      by_cases hend : endsLine c rest.head? = true
      · rw [splitlinesKeepEnds, LineCuts.cutAfter_cons_end hend] at hcut
        have hbreak : isLineBreak c = true := (Bool.and_eq_true_iff.mp hend).1
        rw [← (List.cons.inj hcut).1]
        simp [withoutEnd, hbreak]
      · rw [Bool.not_eq_true] at hend
        cases hrest : LineCuts.cutAfter endsLine rest with
        | nil =>
            have hnil : rest = [] := LineCuts.cutAfter_eq_nil.mp hrest
            subst hnil
            rw [splitlinesKeepEnds, LineCuts.cutAfter, hend] at hcut
            rw [← (List.cons.inj hcut).1]
        | cons line lines =>
            rw [splitlinesKeepEnds, LineCuts.cutAfter_cons_inner hend hrest] at hcut
            rw [← (List.cons.inj hcut).1, withoutEnd, withoutEnd, List.takeWhile_cons,
              List.takeWhile_cons]
            have hsame := ih hrest
            rw [withoutEnd, withoutEnd] at hsame
            rw [hsame]

/-! ## The first heading line -/

/-- Whether a line claims a number, be it one that `int` refuses. -/
def claims (line : Text) : Bool :=
  match headingLineNumber line with
  | .ok none => false
  | _ => true

theorem claims_eq_false_iff {line : Text} :
    claims line = false ↔ headingLineNumber line = .ok none := by
  unfold claims
  split
  · next h => simp [h]
  · next h =>
      constructor
      · exact fun heq => by cases heq
      · exact fun heq => absurd heq h

theorem firstHeadingNumber_eq_find (lines : List Text) :
    firstHeadingNumber lines = ((lines.find? claims).map headingLineNumber).getD (.ok none) := by
  induction lines with
  | nil => rfl
  | cons line rest ih =>
      cases hclaims : claims line with
      | false =>
          rw [List.find?_cons_of_neg (by rw [hclaims]; exact Bool.false_ne_true), ← ih,
            firstHeadingNumber, claims_eq_false_iff.mp hclaims]
      | true =>
          rw [List.find?_cons_of_pos hclaims]
          have hne : headingLineNumber line ≠ .ok none := by
            intro hnone
            rw [claims_eq_false_iff.mpr hnone] at hclaims
            cases hclaims
          rw [firstHeadingNumber]
          split
          · next h => exact absurd h hne
          · rfl

theorem claims_congr {line other : Text} (h : headingLineNumber line = headingLineNumber other) :
    claims line = claims other := by
  rw [claims, claims, h]

/-- `heading_number` reads the lines with or without their ends. -/
theorem headingNumber_eq_find (text : Text) :
    headingNumber text =
      (((splitlinesKeepEnds text).find? claims).map headingLineNumber).getD (.ok none) := by
  have hclaims : claims ∘ withoutEnd = claims :=
    funext fun line => claims_congr (headingLineNumber_withoutEnd line)
  have hnumber : headingLineNumber ∘ withoutEnd = headingLineNumber :=
    funext headingLineNumber_withoutEnd
  rw [headingNumber, firstHeadingNumber_eq_find, splitlines, List.find?_map, hclaims,
    Option.map_map, hnumber]

end Sync
end Nauro
