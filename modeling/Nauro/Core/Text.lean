import Nauro.Foundation.LineText
import Nauro.Foundation.Trim

/-!
# Text as the program handles it

A `str` is a list of code points. This module has the string methods the program calls, on
that representation; what depends on the Unicode database beyond white space is a parameter
(`UnicodeTables`).
-/

namespace Nauro
namespace Core

open Foundation

/-- A text: its code points in order. -/
abbrev Text := List Char

instance : LawfulBEq Text := inferInstance

/-- The white-space characters of `str.isspace`, which `str.strip` and `\\s` use. -/
def isSpace (c : Char) : Bool :=
  let n := c.toNat
  (9 ≤ n && n ≤ 13) || (28 ≤ n && n ≤ 32) || n == 0x85 || n == 0xA0 || n == 0x1680 ||
    (0x2000 ≤ n && n ≤ 0x200A) || n == 0x2028 || n == 0x2029 || n == 0x202F ||
    n == 0x205F || n == 0x3000

/-- `str.strip()`. -/
def strip (text : Text) : Text :=
  Trim.trim isSpace text

/-- `str.rstrip()`. -/
def rstrip (text : Text) : Text :=
  text.rdropWhile isSpace

/-- `text.split("\\n")`. -/
def splitLines (text : Text) : List Text :=
  text.splitOn '\n'

/-- `"\\n".join(lines)`. -/
def joinLines (lines : List Text) : Text :=
  ['\n'].intercalate lines

/-- `text.split()`: the runs of non-space characters. -/
def splitWords (text : Text) : List Text :=
  (text.splitOnP isSpace).filter (fun word => !word.isEmpty)

/-- `needle in text`. -/
def containsText (needle text : Text) : Bool :=
  text.tails.any fun rest => needle.isPrefixOf rest

/-- Reading in text mode: `"\\r\\n"` and a lone `"\\r"` become `"\\n"`. -/
def universalNewlines : Text → Text
  | [] => []
  | '\r' :: '\n' :: rest => '\n' :: universalNewlines rest
  | '\r' :: rest => '\n' :: universalNewlines rest
  | c :: rest => c :: universalNewlines rest

@[simp] theorem strip_nil : strip [] = [] := rfl

@[simp] theorem strip_strip (text : Text) : strip (strip text) = strip text :=
  Trim.trim_trim text

/-- A fact that is decided for each member of a list. -/
theorem forall_mem_of_all {α : Type} {p : α → Prop} [DecidablePred p] {xs : List α}
    (h : (xs.all fun x => decide (p x)) = true) : ∀ x ∈ xs, p x := fun x hx =>
  of_decide_eq_true (List.all_eq_true.mp h x hx)

/-! ## Lines -/

@[simp] theorem joinLines_splitLines (text : Text) : joinLines (splitLines text) = text :=
  List.intercalate_splitOn '\n'

theorem splitLines_ne_nil (text : Text) : splitLines text ≠ [] :=
  List.splitOn_ne_nil '\n' text

theorem splitLines_append_newline (front rest : Text) :
    splitLines (front ++ '\n' :: rest) = splitLines front ++ splitLines rest :=
  LineText.splitOn_append_sep front rest

@[simp] theorem splitLines_newline_cons (rest : Text) :
    splitLines ('\n' :: rest) = [] :: splitLines rest :=
  LineText.splitOn_cons_sep rest

theorem splitLines_of_notMem {text : Text} (h : '\n' ∉ text) : splitLines text = [text] :=
  List.splitOn_eq_singleton h

theorem splitLines_joinLines {lines : List Text} (hne : lines ≠ [])
    (hplain : ∀ line ∈ lines, '\n' ∉ line) : splitLines (joinLines lines) = lines :=
  List.splitOn_intercalate '\n' hplain hne

theorem joinLines_append {front back : List Text} (hfront : front ≠ []) (hback : back ≠ []) :
    joinLines (front ++ back) = joinLines front ++ '\n' :: joinLines back := by
  induction front with
  | nil => exact absurd rfl hfront
  | cons line front ih =>
      cases front with
      | nil =>
          obtain ⟨first, others, rfl⟩ := List.exists_cons_of_ne_nil hback
          simp [joinLines]
      | cons second front =>
          have hrest := ih (by simp)
          simp only [List.cons_append, joinLines, LineText.intercalate_cons_cons] at hrest ⊢
          rw [hrest]
          simp

theorem mem_joinLines {c : Char} {lines : List Text} (h : c ∈ joinLines lines) :
    c = '\n' ∨ ∃ line ∈ lines, c ∈ line := by
  induction lines with
  | nil => cases h
  | cons first others ih =>
      cases others with
      | nil =>
          refine Or.inr ⟨first, List.mem_singleton_self _, ?_⟩
          simpa [joinLines] using h
      | cons second others =>
          rw [joinLines, LineText.intercalate_cons_cons] at h
          rcases List.mem_append.mp h with hfirst | hrest
          · exact Or.inr ⟨first, List.mem_cons_self .., hfirst⟩
          · rcases List.mem_cons.mp hrest with rfl | hlater
            · exact Or.inl rfl
            · refine (ih hlater).imp_right ?_
              rintro ⟨line, hline, hc⟩
              exact ⟨line, List.mem_cons_of_mem _ hline, hc⟩

theorem mem_of_mem_splitLines {c : Char} {text line : Text} (hline : line ∈ splitLines text)
    (hc : c ∈ line) : c ∈ text := by
  by_contra hnot
  apply hnot
  rw [← joinLines_splitLines text]
  clear hnot
  revert hline
  generalize splitLines text = lines
  intro hline
  induction lines with
  | nil => cases hline
  | cons first others ih =>
      cases others with
      | nil =>
          rw [List.mem_singleton.mp hline] at hc
          simpa [joinLines] using hc
      | cons second others =>
          rw [joinLines, LineText.intercalate_cons_cons]
          rcases List.mem_cons.mp hline with rfl | hrest
          · exact List.mem_append_left _ hc
          · exact List.mem_append_right _ (List.mem_cons_of_mem _ (ih hrest))

/-! ## Text as a read returns it -/

theorem universalNewlines_cons {c : Char} (hc : c ≠ '\r') (rest : Text) :
    universalNewlines (c :: rest) = c :: universalNewlines rest := by
  rw [universalNewlines]
  · exact fun _ h _ => hc h
  · exact hc

/-- A text without a carriage return is read as it is, whatever follows it. -/
theorem universalNewlines_append {text : Text} (h : '\r' ∉ text) (rest : Text) :
    universalNewlines (text ++ rest) = text ++ universalNewlines rest := by
  induction text with
  | nil => rfl
  | cons c text ih =>
      obtain ⟨hc, htext⟩ := not_or.mp (fun hin => h (List.mem_cons.mpr hin))
      rw [List.cons_append, universalNewlines_cons (Ne.symm hc), ih htext, List.cons_append]

theorem universalNewlines_of_notMem {text : Text} (h : '\r' ∉ text) :
    universalNewlines text = text := by
  have hread := universalNewlines_append h []
  rwa [List.append_nil, universalNewlines, List.append_nil] at hread

theorem notMem_universalNewlines (text : Text) : '\r' ∉ universalNewlines text := by
  fun_induction universalNewlines text with
  | case1 => exact List.not_mem_nil
  | case2 rest ih => simpa using ih
  | case3 rest _ ih => simpa using ih
  | case4 c rest _ hc ih => simpa using ⟨Ne.symm hc, ih⟩

/-- Reading does not join a line end to what stands before another character. -/
theorem universalNewlines_append_of_ne {c : Char} (hc : c ≠ '\r') (before rest : Text) :
    universalNewlines (before ++ c :: rest) =
      universalNewlines (before ++ [c]) ++ universalNewlines rest := by
  fun_induction universalNewlines before with
  | case1 => rw [List.nil_append, List.nil_append, universalNewlines_cons hc,
      universalNewlines_cons hc]; rfl
  | case2 before ih =>
      rw [List.cons_append, List.cons_append, List.cons_append, List.cons_append,
        universalNewlines, universalNewlines, ih, List.cons_append]
  | case3 before hbefore ih =>
      cases before with
      | nil =>
          by_cases hline : c = '\n'
          · rw [hline]
            rfl
          · have hread (more : Text) : universalNewlines ('\r' :: c :: more) =
                '\n' :: universalNewlines (c :: more) := by
              rw [universalNewlines]
              exact fun after hafter => hline (List.cons.inj hafter).1
            change universalNewlines ('\r' :: c :: rest) = universalNewlines ['\r', c] ++ _
            rw [hread, hread, universalNewlines_cons hc, universalNewlines_cons hc]
            rfl
      | cons d before =>
          have hread (more : Text) : universalNewlines ('\r' :: (d :: before ++ more)) =
              '\n' :: universalNewlines (d :: before ++ more) := by
            rw [universalNewlines]
            intro after hafter
            exact hbefore before (by rw [(List.cons.inj hafter).1])
          change universalNewlines ('\r' :: (d :: before ++ c :: rest)) =
            universalNewlines ('\r' :: (d :: before ++ [c])) ++ _
          rw [hread, hread, ih]
          rfl
  | case4 d before _ hd ih =>
      rw [List.cons_append, List.cons_append, universalNewlines_cons hd, universalNewlines_cons hd,
        ih, List.cons_append]

/-- A line end in a text ends the lines read so far. A carriage return before it makes one line
end with it, where at the end of a text it would open an empty line. -/
theorem splitLines_universalNewlines_append (front rest : Text) :
    splitLines (universalNewlines (front ++ '\n' :: rest)) =
        splitLines (universalNewlines front) ++ splitLines (universalNewlines rest) ∨
      ∃ lines, lines ≠ [] ∧ splitLines (universalNewlines front) = lines ++ [[]] ∧
        splitLines (universalNewlines (front ++ '\n' :: rest)) =
          lines ++ splitLines (universalNewlines rest) := by
  fun_induction universalNewlines front with
  | case1 =>
      left
      rw [List.nil_append, universalNewlines_cons (by decide), splitLines_newline_cons]
      rfl
  | case2 front ih =>
      rw [List.cons_append, List.cons_append, universalNewlines, splitLines_newline_cons, splitLines_newline_cons]
      rcases ih with h | ⟨lines, hne, hfront, h⟩
      · exact Or.inl (by rw [h, List.cons_append])
      · exact Or.inr ⟨[] :: lines, List.cons_ne_nil _ _, by rw [hfront]; rfl, by rw [h]; rfl⟩
  | case3 front hfront ih =>
      rw [splitLines_newline_cons]
      cases front with
      | nil =>
          right
          refine ⟨[[]], List.cons_ne_nil _ _, rfl, ?_⟩
          rw [List.cons_append, List.nil_append, universalNewlines, splitLines_newline_cons]
          rfl
      | cons d front =>
          have hread : universalNewlines ('\r' :: (d :: front ++ '\n' :: rest)) =
              '\n' :: universalNewlines (d :: front ++ '\n' :: rest) := by
            rw [universalNewlines]
            intro after hafter
            exact hfront front (by rw [(List.cons.inj hafter).1])
          rw [List.cons_append, hread, splitLines_newline_cons]
          rcases ih with h | ⟨lines, hne, hlines, h⟩
          · exact Or.inl (by rw [h, List.cons_append])
          · exact Or.inr ⟨[] :: lines, List.cons_ne_nil _ _, by rw [hlines]; rfl, by rw [h]; rfl⟩
  | case4 c front _ hc ih =>
      rw [List.cons_append, universalNewlines_cons hc]
      by_cases hend : c = '\n'
      · subst hend
        rw [splitLines_newline_cons, splitLines_newline_cons]
        rcases ih with h | ⟨lines, hne, hlines, h⟩
        · exact Or.inl (by rw [h, List.cons_append])
        · exact Or.inr ⟨[] :: lines, List.cons_ne_nil _ _, by rw [hlines]; rfl, by rw [h]; rfl⟩
      · have hcons : ∀ text : Text,
            splitLines (c :: text) = (splitLines text).modifyHead (List.cons c) :=
          fun text => LineText.splitOn_cons_of_ne hend text
        rw [hcons, hcons]
        rcases ih with h | ⟨lines, hne, hlines, h⟩
        · left
          obtain ⟨first, others, hsplit⟩ := List.exists_cons_of_ne_nil
            (List.splitOn_ne_nil '\n' (universalNewlines front))
          change splitLines (universalNewlines front) = _ at hsplit
          rw [h, hsplit]
          rfl
        · right
          obtain ⟨first, others, rfl⟩ := List.exists_cons_of_ne_nil hne
          exact ⟨(c :: first) :: others, List.cons_ne_nil _ _, by rw [hlines]; rfl, by rw [h]; rfl⟩

/-- How a file's text is given back: as it was written, or with universal newlines. -/
def ReadsText (read : Text → Text) : Prop :=
  read = id ∨ read = universalNewlines

/-- A text that a read gives back unchanged, also in parts. -/
def Stable (read : Text → Text) (text : Text) : Prop :=
  read = id ∨ '\r' ∉ text

theorem ReadsText.stable {read : Text → Text} (h : ReadsText read) (text : Text) :
    Stable read (read text) := by
  rcases h with rfl | rfl
  · exact Or.inl rfl
  · exact Or.inr (notMem_universalNewlines text)

theorem Stable.read_append {read : Text → Text} (h : ReadsText read) {front : Text}
    (hstable : Stable read front) (rest : Text) : read (front ++ rest) = front ++ read rest := by
  rcases h with rfl | rfl
  · rfl
  · rcases hstable with hid | hfree
    · rw [hid]
      rfl
    · exact universalNewlines_append hfree rest

theorem Stable.read_eq {read : Text → Text} (h : ReadsText read) {text : Text}
    (hstable : Stable read text) : read text = text := by
  rcases h with rfl | rfl
  · rfl
  · rcases hstable with hid | hfree
    · rw [hid]
      rfl
    · exact universalNewlines_of_notMem hfree

/-! ## Case -/

/-- The part of the Unicode database the program depends on. -/
structure UnicodeTables where
  /-- The full lower-case mapping of one character. -/
  lowerChar : Char → Text
  /-- The `Cased` property. -/
  isCased : Char → Bool
  /-- The `Case_Ignorable` property. -/
  isCaseIgnorable : Char → Bool
  /-- `str.isalnum` of one character. -/
  isAlnum : Char → Bool
  /-- The value of a decimal digit of any script. -/
  decimal? : Char → Option Nat

/-- Whether a capital sigma between the two contexts ends a word. -/
def finalSigma (tables : UnicodeTables) (beforeReversed after : Text) : Bool :=
  (beforeReversed.dropWhile tables.isCaseIgnorable).head?.any tables.isCased &&
    !(after.dropWhile tables.isCaseIgnorable).head?.any tables.isCased

/-- Lower-case the rest of a text whose beginning, reversed, is known. -/
def lowerAfter (tables : UnicodeTables) : Text → Text → Text
  | _, [] => []
  | beforeReversed, c :: rest =>
      (if c = 'Σ' then
        [if finalSigma tables beforeReversed rest then 'ς' else 'σ']
      else
        tables.lowerChar c) ++ lowerAfter tables (c :: beforeReversed) rest

/-- `text.lower()`. -/
def lower (tables : UnicodeTables) (text : Text) : Text :=
  lowerAfter tables [] text

/-- What the program relies on in the database. -/
structure UnicodeTables.Lawful (tables : UnicodeTables) : Prop where
  /-- ASCII letters have their ASCII lower case, and other ASCII characters none. -/
  lower_ascii : ∀ c : Char, c.toNat < 128 → tables.lowerChar c = [c.toLower]
  lower_space : ∀ c, isSpace c = true → tables.lowerChar c = [c]
  lower_nonspace : ∀ c, isSpace c = false →
    tables.lowerChar c ≠ [] ∧ ∀ x ∈ tables.lowerChar c, isSpace x = false
  /-- Lower case is stable. -/
  lower_stable : ∀ c, c ≠ 'Σ' → ∀ x ∈ tables.lowerChar c, x ≠ 'Σ' ∧ tables.lowerChar x = [x]
  lower_sigma : tables.lowerChar 'σ' = ['σ'] ∧ tables.lowerChar 'ς' = ['ς']
  decimal_ascii : ∀ c : Char, c.toNat < 128 → (tables.decimal? c).isSome = c.isDigit

/-- The tables on ASCII and sigma; every other character is caseless, no letter and no
digit. -/
def UnicodeTables.ascii : UnicodeTables where
  lowerChar c := if c = 'Σ' then ['σ'] else [c.toLower]
  isCased c := c.isAlpha
  isCaseIgnorable c := c = '.' || c = ':' || c = '^' || c = '\'' || c = '\x60'
  isAlnum c := c.isAlphanum
  decimal? c := if c.isDigit then some (c.toNat - '0'.toNat) else none

theorem toLower_eq_self {c : Char} (h : ¬ (65 ≤ c.toNat ∧ c.toNat ≤ 90)) : c.toLower = c := by
  delta Char.toLower
  rw [dif_neg]
  intro hupper
  apply h
  simp only [ge_iff_le, UInt32.le_iff_toNat_le] at hupper
  exact hupper

theorem toLower_toNat {c : Char} (h : 65 ≤ c.toNat ∧ c.toNat ≤ 90) :
    c.toLower.toNat = c.toNat + 32 := by
  have hupper : c.val ≥ 'A'.val ∧ c.val ≤ 'Z'.val := by
    simp only [ge_iff_le, UInt32.le_iff_toNat_le]
    exact h
  delta Char.toLower
  rw [dif_pos hupper]
  change (c.val + ('a'.val - 'A'.val)).toNat = c.val.toNat + 32
  rw [UInt32.toNat_add]
  have hval : c.val.toNat = c.toNat := rfl
  have hdiff : ('a'.val - 'A'.val).toNat = 32 := rfl
  omega

theorem isSpace_eq_false_of_letter {c : Char} (h : 65 ≤ c.toNat ∧ c.toNat ≤ 122) :
    isSpace c = false := by
  simp only [isSpace, Bool.or_eq_false_iff, Bool.and_eq_false_iff, decide_eq_false_iff_not,
    beq_eq_false_iff_ne]
  omega

theorem toNat_lt_of_isSpace {c : Char} (h : isSpace c = true) : ¬ (65 ≤ c.toNat ∧ c.toNat ≤ 90) := by
  intro hletter
  rw [isSpace_eq_false_of_letter (by omega)] at h
  cases h

/-- The ASCII tables are lawful. -/
theorem UnicodeTables.ascii_lawful : UnicodeTables.ascii.Lawful where
  lower_ascii c hc := by
    have hne : c ≠ 'Σ' := by
      rintro rfl
      exact absurd hc (by decide)
    simp [UnicodeTables.ascii, hne]
  lower_space c hc := by
    have hne : c ≠ 'Σ' := by
      rintro rfl
      exact absurd hc (by decide)
    simp [UnicodeTables.ascii, hne, toLower_eq_self (toNat_lt_of_isSpace hc)]
  lower_nonspace c hc := by
    by_cases hne : c = 'Σ'
    · subst hne
      simp only [UnicodeTables.ascii, if_true]
      refine ⟨by simp, ?_⟩
      intro x hx
      rw [List.mem_singleton.mp hx]
      rfl
    · simp only [UnicodeTables.ascii, if_neg hne]
      refine ⟨by simp, ?_⟩
      intro x hx
      rw [List.mem_singleton.mp hx]
      by_cases hupper : 65 ≤ c.toNat ∧ c.toNat ≤ 90
      · apply isSpace_eq_false_of_letter
        rw [toLower_toNat hupper]
        omega
      · rw [toLower_eq_self hupper, hc]
  lower_stable c hc x hx := by
    simp only [UnicodeTables.ascii, if_neg hc, List.mem_singleton] at hx
    subst hx
    by_cases hupper : 65 ≤ c.toNat ∧ c.toNat ≤ 90
    · have hlower := toLower_toNat hupper
      have hne : c.toLower ≠ 'Σ' := by
        intro h
        rw [h] at hlower
        have : ('Σ').toNat = 931 := by decide
        omega
      have hstable : c.toLower.toLower = c.toLower := toLower_eq_self (by omega)
      simp [UnicodeTables.ascii, hne, hstable]
    · rw [toLower_eq_self hupper]
      simp [UnicodeTables.ascii, hc, toLower_eq_self hupper]
  lower_sigma := by
    simp only [UnicodeTables.ascii]
    decide
  decimal_ascii c _ := by
    simp only [UnicodeTables.ascii]
    split
    · next h => simp [h]
    · next h => simp [h]

/-! ## Decimal numbers -/

/-- `f"{n:0{width}d}"`. -/
def padNumber (width n : Nat) : Text :=
  List.replicate (width - (Nat.toDigits 10 n).length) '0' ++ Nat.toDigits 10 n

/-- `int(digits)` for a run of ASCII digits. -/
def number? (digits : Text) : Option Nat :=
  if digits ≠ [] ∧ digits.all Char.isDigit then some (Nat.ofDigitChars 10 digits 0) else none

theorem padNumber_ne_nil (width n : Nat) : padNumber width n ≠ [] := by
  unfold padNumber
  intro h
  exact Nat.toDigits_ne_nil (List.append_eq_nil_iff.mp h).2

theorem isDigit_of_mem_padNumber {width n : Nat} {c : Char} (hc : c ∈ padNumber width n) :
    c.isDigit = true := by
  rcases List.mem_append.mp hc with hzero | hdigit
  · rw [List.eq_of_mem_replicate hzero]
    rfl
  · exact Nat.isDigit_of_mem_toDigits (by decide) (by decide) hdigit

/-- Leading zeros do not change a number. -/
theorem ofDigitChars_replicate_zero (k : Nat) (digits : Text) :
    Nat.ofDigitChars 10 (List.replicate k '0' ++ digits) 0 = Nat.ofDigitChars 10 digits 0 := by
  induction k with
  | zero => rfl
  | succ k ih => exact ih

/-- A printed number reads back. -/
theorem number?_padNumber (width n : Nat) : number? (padNumber width n) = some n := by
  have hdigits : (padNumber width n).all Char.isDigit = true :=
    List.all_eq_true.mpr fun _ hc => isDigit_of_mem_padNumber hc
  rw [number?, if_pos ⟨padNumber_ne_nil width n, hdigits⟩, padNumber,
    ofDigitChars_replicate_zero, Nat.ofDigitChars_ten_toDigits]

theorem number?_toDigits (n : Nat) : number? (Nat.toDigits 10 n) = some n := by
  have h := number?_padNumber 0 n
  simpa [padNumber] using h

theorem padNumber_injective (width : Nat) : Function.Injective (padNumber width) := by
  intro m n h
  have hread := number?_padNumber width m
  rw [h, number?_padNumber] at hread
  exact (Option.some.inj hread).symm

/-- A number that fits its width is printed with exactly that many digits. -/
theorem length_padNumber {width n : Nat} (hwidth : 0 < width) (hn : n < 10 ^ width) :
    (padNumber width n).length = width := by
  have hlen : (Nat.toDigits 10 n).length ≤ width :=
    (Nat.length_toDigits_le_iff (by decide) hwidth).mpr hn
  rw [padNumber, List.length_append, List.length_replicate]
  omega

/-! ## Digits of numbers that are read -/

theorem ofDigitChars_cons_zero (c : Char) (rest : Text) :
    Nat.ofDigitChars 10 (c :: rest) 0 =
      10 ^ rest.length * (c.toNat - '0'.toNat) + Nat.ofDigitChars 10 rest 0 := by
  rw [Nat.ofDigitChars_cons, Nat.ofDigitChars_eq_ofDigitChars_zero]
  simp

theorem digit_range {c : Char} (h : c.isDigit = true) :
    '0'.toNat ≤ c.toNat ∧ c.toNat < '0'.toNat + 10 := by
  have hrange : 48 ≤ c.toNat ∧ c.toNat ≤ 57 := by
    simpa [Char.isDigit, UInt32.le_iff_toNat_le] using h
  have hzero : '0'.toNat = 48 := rfl
  omega

theorem ofDigitChars_lt {digits : Text} (h : digits.all Char.isDigit = true) :
    Nat.ofDigitChars 10 digits 0 < 10 ^ digits.length := by
  induction digits with
  | nil => simp [Nat.ofDigitChars_nil]
  | cons c rest ih =>
      simp only [List.all_cons, Bool.and_eq_true] at h
      obtain ⟨hzero, hten⟩ := digit_range h.1
      have hrest := ih h.2
      have hdigit : c.toNat - '0'.toNat ≤ 9 := by omega
      have hscaled := Nat.mul_le_mul_left (10 ^ rest.length) hdigit
      rw [ofDigitChars_cons_zero, List.length_cons, Nat.pow_succ]
      omega

/-- Numbers of one width are told apart by their digits. -/
theorem ofDigitChars_injective {digits others : Text} (hlength : digits.length = others.length)
    (hdigits : digits.all Char.isDigit = true) (hothers : others.all Char.isDigit = true)
    (h : Nat.ofDigitChars 10 digits 0 = Nat.ofDigitChars 10 others 0) : digits = others := by
  induction digits generalizing others with
  | nil => exact (List.eq_nil_of_length_eq_zero hlength.symm).symm
  | cons c rest ih =>
      cases others with
      | nil => cases hlength
      | cons d others =>
          have hsame : rest.length = others.length := Nat.succ.inj hlength
          simp only [List.all_cons, Bool.and_eq_true] at hdigits hothers
          rw [ofDigitChars_cons_zero, ofDigitChars_cons_zero, hsame] at h
          have hrest := ofDigitChars_lt hdigits.2
          have hmore := ofDigitChars_lt hothers.2
          rw [hsame] at hrest
          have hpositive : 0 < 10 ^ others.length := Nat.pow_pos (by decide)
          have hhead : c.toNat - '0'.toNat = d.toNat - '0'.toNat := by
            have hdiv := congrArg (· / 10 ^ others.length) h
            simpa [Nat.mul_add_div hpositive, Nat.div_eq_of_lt hrest, Nat.div_eq_of_lt hmore]
              using hdiv
          have hchar : c = d := by
            obtain ⟨hzero, -⟩ := digit_range hdigits.1
            obtain ⟨hzero', -⟩ := digit_range hothers.1
            exact Char.toNat_inj.mp (by omega)
          rw [hhead] at h
          rw [hchar, ih hsame hdigits.2 hothers.2 (by omega)]

/-- The digits of a number that is read, padded to their own width. -/
theorem padNumber_of_number? {digits : Text} {n : Nat} (h : number? digits = some n) :
    padNumber digits.length n = digits := by
  unfold number? at h
  split_ifs at h with hdigits
  cases h
  have hread := number?_padNumber digits.length (Nat.ofDigitChars 10 digits 0)
  have hlength : (padNumber digits.length (Nat.ofDigitChars 10 digits 0)).length = digits.length :=
    length_padNumber (List.length_pos_iff.mpr hdigits.1) (ofDigitChars_lt hdigits.2)
  unfold number? at hread
  split_ifs at hread with hpadded
  exact ofDigitChars_injective hlength hpadded.2 hdigits.2 (Option.some.inj hread)

theorem toDigits_of_number? {digits : Text} {n : Nat} (h : number? digits = some n)
    (hlead : digits.head? ≠ some '0') : Nat.toDigits 10 n = digits := by
  have hpadded := padNumber_of_number? h
  unfold padNumber at hpadded
  cases hzeros : digits.length - (Nat.toDigits 10 n).length with
  | zero =>
      rw [hzeros] at hpadded
      exact hpadded
  | succ k =>
      rw [hzeros, List.replicate_succ] at hpadded
      rw [← hpadded] at hlead
      exact absurd rfl hlead

end Core
end Nauro
