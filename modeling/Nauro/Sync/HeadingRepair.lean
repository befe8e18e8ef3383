import Nauro.Sync.DecisionFile
import Nauro.Sync.HeadingAgreement

/-!
# Repairing the heading of one file

The number a file's heading claims is read off the file's lines; the line that is rewritten is
found by a prefix. They are one line, and the file's heading, only in a file that is plainly
headed.

* `repair_sound_iff` — a repair is sound exactly at a plainly headed file.
-/

namespace Nauro
namespace Sync

open Foundation Core
open EscapedUtf8 (utf8 newlineByte)

/-- The bytes a repair writes. -/
def repairedBytes (bytes : List UInt8) (heading number : Nat) : List UInt8 :=
  utf8 (rewriteDecisionHeading (readTextLenient bytes) heading number)

/-- Both reads of the heading give the number, and one line has changed: the line of the heading
the parser uses. Every other byte is as before. -/
def SoundRepair (before after : List UInt8) (number : Nat) : Prop :=
  headingNumber (readTextLenient after) = .ok (some number) ∧
    streamedHeading after = .ok (some number) ∧
    ∃ front line line' back h1,
      before = front ++ (line ++ back) ∧ after = front ++ (line' ++ back) ∧ line ≠ line' ∧
        newlineByte ∉ line ∧ newlineByte ∉ line' ∧ front.getLast? = some newlineByte ∧
        (∀ b ∈ back.head?, b = newlineByte) ∧
        cutAtH1 (readTextLenient before) = some (readTextLenient front, h1)

/-- `# NNN —`, the canonical beginning of the heading. -/
def headingStamp (num : Nat) : Text :=
  headingPrefix num ++ [' ', '—']

/-- No line ahead of the heading claims a number or is canonical for the old one, apart from
parts behind other separators, the first of which claims the new number already; the heading is
canonical; and but for the heading's own line the file is UTF-8 without carriage returns. -/
structure PlainlyHeaded (bytes : List UInt8) (heading number : Nat) (before h1 : Text) : Prop where
  cut : cutAtH1 (readTextLenient bytes) = some (before, h1)
  streamed : (fileLines before).find? claims = none
  hidden : ∀ part, (splitlinesKeepEnds before).find? claims = some part →
    headingLineNumber part = .ok (some number)
  unaddressed : ∀ part ∈ splitlinesKeepEnds before, isRewritable heading part = false
  canonical : headingStamp heading <+: h1
  clean : ∃ line, bytes = utf8 before ++ (line ++ utf8 (h1.dropWhile (· != '\n'))) ∧
    newlineByte ∉ line

/-! ## Stamps -/

theorem padNumber_number (n : Nat) : Number (padNumber 3 n) :=
  ⟨padNumber_ne_nil 3 n, fun _ hc => isDigit_of_mem_padNumber hc⟩

/-- The digits after `# ` up to the next character. -/
theorem stamp_digits (n : Nat) {c : Char} (hc : c.isDigit = false) (rest : Text) :
    ((headingPrefix n ++ c :: rest).drop 2).takeWhile Char.isDigit = padNumber 3 n := by
  have hdrop : (headingPrefix n ++ c :: rest).drop 2 = padNumber 3 n ++ c :: rest := rfl
  rw [hdrop, takeWhile_isDigit_padNumber n hc]

/-- Texts that begin with canonical headings of two numbers are two. -/
theorem prefix_eq_of_stamps {m n : Nat} {c d : Char} (hc : c.isDigit = false)
    (hd : d.isDigit = false) {rest more : Text}
    (h : headingPrefix m ++ c :: rest = headingPrefix n ++ d :: more) : m = n := by
  have hdigits := stamp_digits m hc rest
  rw [h, stamp_digits n hd] at hdigits
  exact padNumber_injective 3 hdigits.symm

theorem isRewritable_iff {num : Nat} {line : Text} :
    isRewritable num line = true ↔
      ∃ sep ∈ headingSeparators, ∃ tail, line = headingPrefix num ++ ' ' :: sep :: tail := by
  rw [isRewritable, Bool.or_eq_true, List.isPrefixOf_iff_prefix, List.isPrefixOf_iff_prefix]
  constructor
  · rintro (⟨tail, rfl⟩ | ⟨tail, rfl⟩)
    · exact ⟨'—', by decide, tail, by simp⟩
    · exact ⟨'-', by decide, tail, by simp⟩
  · rintro ⟨sep, hsep, tail, rfl⟩
    rcases List.mem_cons.mp hsep with rfl | hsep
    · exact Or.inl ⟨tail, by simp⟩
    · rw [List.mem_singleton.mp hsep]
      exact Or.inr ⟨tail, by simp⟩

/-- A canonical heading is a heading line of its number. -/
theorem heading_of_leading {num : Nat} {sep : Char} (hsep : sep ∈ headingSeparators) (tail : Text) :
    HeadingLine (padNumber 3 num) (headingPrefix num ++ ' ' :: sep :: tail) :=
  ⟨[' '], tail, sep, hsep, rfl, ⟨List.cons_ne_nil _ _, by simp⟩, padNumber_number num⟩

theorem headingLineNumber_of_leading {num : Nat} {sep : Char} (hsep : sep ∈ headingSeparators)
    (tail : Text) (hshort : (padNumber 3 num).length ≤ intMaxStrDigits) :
    headingLineNumber (headingPrefix num ++ ' ' :: sep :: tail) = .ok (some num) := by
  rw [headingLineNumber_of_heading (heading_of_leading hsep tail), readInt,
    if_neg (Nat.not_lt.mpr hshort), number?_padNumber]

theorem claims_of_leading {num : Nat} {sep : Char} (hsep : sep ∈ headingSeparators) (tail : Text) :
    claims (headingPrefix num ++ ' ' :: sep :: tail) = true := by
  rw [← Bool.not_eq_false, claims_eq_false_iff, headingLineNumber_eq_none_iff, not_not]
  exact ⟨_, heading_of_leading hsep tail⟩

/-- No character of a canonical heading breaks the line. -/
theorem prefix_unbroken {num : Nat} {sep : Char} (hsep : sep ∈ headingSeparators) :
    ∀ c ∈ headingPrefix num ++ [' ', sep], isLineBreak c = false :=
  heading_stamp_unbroken (show Blanks [' '] from ⟨List.cons_ne_nil _ _, by simp⟩)
    (padNumber_number num) hsep

/-! ## Lines of a text that begins with a canonical heading -/

/-- The lines from a canonical heading on, for any text after it. -/
theorem splitlines_of_leading {num : Nat} {sep : Char} (hsep : sep ∈ headingSeparators)
    (rest : Text) :
    splitlinesKeepEnds (headingPrefix num ++ [' ', sep] ++ rest) =
      (headingPrefix num ++ [' ', sep] ++ (splitlinesKeepEnds rest).headD []) ::
        (splitlinesKeepEnds rest).tail := by
  refine LineCuts.cutAfter_unbroken_append (fun c hc next => ?_) (List.cons_ne_nil _ _) rest
  rw [endsLine, prefix_unbroken hsep c hc, Bool.false_and]

theorem fileLines_of_leading {num : Nat} {sep : Char} (hsep : sep ∈ headingSeparators)
    (rest : Text) :
    fileLines (headingPrefix num ++ [' ', sep] ++ rest) =
      (headingPrefix num ++ [' ', sep] ++ (fileLines rest).headD []) :: (fileLines rest).tail := by
  refine LineCuts.cutAfter_unbroken_append (fun c hc _ => ?_) (List.cons_ne_nil _ _) rest
  rw [beq_eq_false_iff_ne]
  rintro rfl
  exact absurd (prefix_unbroken hsep _ hc) (by decide)

/-! ## The line that is rewritten -/

theorem renumberLine_prefix (m n : Nat) (tail : Text) :
    renumberLine m n (headingPrefix m ++ tail) = headingPrefix n ++ tail := by
  rw [renumberLine, List.drop_left]

/-- The lines of a text that has a canonical heading of the number: the first one with it. -/
theorem rewritable_split {lines : List Text} {num : Nat}
    (h : (rewritableIndex lines num).isSome = true) :
    ∃ front piece back, lines = front ++ piece :: back ∧ isRewritable num piece = true ∧
      ∀ part ∈ front, isRewritable num part = false := by
  rw [rewritableIndex, List.findIdx?_isSome, List.any_eq_true] at h
  induction lines with
  | nil =>
      obtain ⟨line, hline, -⟩ := h
      cases hline
  | cons line lines ih =>
      cases hfirst : isRewritable num line with
      | true => exact ⟨[], line, lines, rfl, hfirst, fun _ hpart => absurd hpart List.not_mem_nil⟩
      | false =>
          obtain ⟨found, hin, hfound⟩ := h
          have hrest : found ∈ lines := by
            rcases List.mem_cons.mp hin with rfl | hrest
            · rw [hfirst] at hfound
              cases hfound
            · exact hrest
          obtain ⟨front, piece, back, rfl, hpiece, hfront⟩ := ih ⟨found, hrest, hfound⟩
          exact ⟨line :: front, piece, back, rfl, hpiece,
            List.forall_mem_cons.mpr ⟨hfirst, hfront⟩⟩

theorem rewritableIndex_split {front back : List Text} {piece : Text} {num : Nat}
    (hpiece : isRewritable num piece = true) (hfront : ∀ part ∈ front, isRewritable num part = false) :
    rewritableIndex (front ++ piece :: back) num = some front.length := by
  rw [rewritableIndex]
  induction front with
  | nil =>
      rw [List.nil_append, List.findIdx?_cons, hpiece]
      rfl
  | cons line front ih =>
      have hline := hfront line (List.mem_cons_self ..)
      have hrest := ih fun part hpart => hfront part (List.mem_cons_of_mem _ hpart)
      rw [List.cons_append, List.findIdx?_cons, hline, hrest]
      rfl

theorem modify_split (front back : List Text) (piece : Text) (f : Text → Text) :
    (front ++ piece :: back).modify front.length f = front ++ f piece :: back := by
  induction front with
  | nil => rfl
  | cons line front ih => rw [List.cons_append, List.length_cons, List.modify_succ_cons, ih]; rfl

/-- What the first canonical heading is rewritten to. -/
theorem rewrite_split {text : Text} {m n : Nat} {front back : List Text} {piece : Text}
    (hlines : splitlinesKeepEnds text = front ++ piece :: back)
    (hpiece : isRewritable m piece = true) (hfront : ∀ part ∈ front, isRewritable m part = false) :
    ∃ sep ∈ headingSeparators, ∃ tail,
      text = front.flatten ++ (headingPrefix m ++ [' ', sep] ++ tail) ∧
      rewriteDecisionHeading text m n = front.flatten ++ (headingPrefix n ++ [' ', sep] ++ tail) := by
  obtain ⟨sep, hsep, tail, rfl⟩ := isRewritable_iff.mp hpiece
  have htext : text = front.flatten ++ (headingPrefix m ++ ' ' :: sep :: tail ++ back.flatten) := by
    have hwhole : (splitlinesKeepEnds text).flatten = text := LineCuts.flatten_cutAfter text
    rw [hlines, List.flatten_append, List.flatten_cons] at hwhole
    exact hwhole.symm
  refine ⟨sep, hsep, tail ++ back.flatten, ?_, ?_⟩
  · conv_lhs => rw [htext]
    simp
  · rw [rewriteDecisionHeading]
    simp only [hlines, rewritableIndex_split hpiece hfront, modify_split, renumberLine_prefix]
    simp

/-! ## Reading around a repair -/

theorem readTextLenient_utf8_append {front : Text} (h : '\r' ∉ front) (rest : List UInt8) :
    readTextLenient (utf8 front ++ rest) = front ++ readTextLenient rest := by
  rw [readTextLenient, LossyUtf8.decode_utf8_append, universalNewlines_append h, readTextLenient]

theorem readTextLenient_utf8 {text : Text} (h : '\r' ∉ text) :
    readTextLenient (utf8 text) = text := by
  rw [readTextLenient, LossyUtf8.decode_utf8, universalNewlines_of_notMem h]

theorem cr_notMem_readTextLenient (bytes : List UInt8) : '\r' ∉ readTextLenient bytes :=
  notMem_universalNewlines _

/-- What stands after a newline ends what is read. -/
theorem readTextLenient_newline (front : List UInt8) {rest : Text} (h : '\r' ∉ rest) :
    ∃ before, readTextLenient (front ++ utf8 ('\n' :: rest)) = before ++ rest := by
  refine ⟨universalNewlines (LossyUtf8.decode front ++ ['\n']), ?_⟩
  have hbytes : utf8 ('\n' :: rest) = newlineByte :: utf8 rest := rfl
  rw [readTextLenient, hbytes, LossyUtf8.decode_append_newline, LossyUtf8.decode_utf8,
    universalNewlines_append_of_ne (by decide), universalNewlines_of_notMem h]

/-- The number streamed off lines. -/
def streamedOf (text : Text) : Except DigitLimit (Option Nat) :=
  (((fileLines text).find? claims).map headingLineNumber).getD (.ok none)

theorem fileLines_append {front : Text} (hfront : ∀ c ∈ front.getLast?, c = '\n') (rest : Text) :
    fileLines (front ++ rest) = fileLines front ++ fileLines rest := by
  refine LineCuts.cutAfter_append (fun c hc _ => ?_) rest
  rw [hfront c hc]
  rfl

/-- The first heading of a text whose beginning claims nothing. -/
theorem streamedOf_append {front : Text} {n : Nat} {sep : Char}
    (hfront : ∀ c ∈ front.getLast?, c = '\n') (hnone : (fileLines front).find? claims = none)
    (hsep : sep ∈ headingSeparators) (hshort : (padNumber 3 n).length ≤ intMaxStrDigits)
    (tail : Text) : streamedOf (front ++ (headingPrefix n ++ [' ', sep] ++ tail)) = .ok (some n) := by
  have hline : headingPrefix n ++ [' ', sep] ++ (fileLines tail).headD [] =
      headingPrefix n ++ ' ' :: sep :: (fileLines tail).headD [] := by simp
  rw [streamedOf, fileLines_append hfront, List.find?_append, hnone, Option.none_or,
    fileLines_of_leading hsep, hline, List.find?_cons_of_pos (claims_of_leading hsep _),
    Option.map_some, Option.getD_some, headingLineNumber_of_leading hsep _ hshort]

/-- Where the streamed number depends on the number of a rewritten heading, the heading starts a
line of the file and no line before it claims a number. -/
theorem streamed_of_ne {front tail : Text} {m n : Nat} {sep : Char} (hsep : sep ∈ headingSeparators)
    (hfront : ∀ c ∈ front.getLast?, isLineBreak c = true)
    (hne : streamedOf (front ++ (headingPrefix m ++ [' ', sep] ++ tail)) ≠
      streamedOf (front ++ (headingPrefix n ++ [' ', sep] ++ tail))) :
    (∀ c ∈ front.getLast?, c = '\n') ∧ (fileLines front).find? claims = none := by
  set whole := front.rdropWhile (· != '\n') with hwhole
  set open_ := front.rtakeWhile (· != '\n') with hopen
  have hsplit : whole ++ open_ = front := List.rdropWhile_append_rtakeWhile
  have hended : ∀ c ∈ whole.getLast?, c = '\n' := by
    intro c hc
    simpa using Trim.getLast?_rdropWhile (p := (· != '\n')) front c hc
  have hinner : ∀ c ∈ open_, c ≠ '\n' := fun c hc => by
    simpa using List.mem_rtakeWhile_imp hc
  by_cases hnil : open_ = []
  · rw [hnil, List.append_nil] at hsplit
    rw [← hsplit]
    refine ⟨hended, ?_⟩
    by_contra hsome
    apply hne
    obtain ⟨line, hline⟩ := Option.ne_none_iff_exists'.mp hsome
    rw [← hsplit, streamedOf, streamedOf, fileLines_append hended, fileLines_append hended,
      List.find?_append, List.find?_append, hline]
    rfl
  · -- the heading continues a line of the file, whose own number it does not change
    exfalso
    apply hne
    obtain ⟨inner, last, hlast⟩ : ∃ inner last, open_ = inner ++ [last] :=
      ⟨_, _, (List.dropLast_append_getLast hnil).symm⟩
    have hbreak : isLineBreak last = true := by
      apply hfront
      rw [← hsplit, hlast, ← List.append_assoc, List.getLast?_concat]
      rfl
    have hline (k : Nat) : fileLines (front ++ (headingPrefix k ++ [' ', sep] ++ tail)) =
        fileLines whole ++
          (open_ ++ (headingPrefix k ++ [' ', sep] ++ (fileLines tail).headD [])) ::
            (fileLines tail).tail := by
      have hcut : fileLines (open_ ++ (headingPrefix k ++ [' ', sep] ++ tail)) =
          (open_ ++ (fileLines (headingPrefix k ++ [' ', sep] ++ tail)).headD []) ::
            (fileLines (headingPrefix k ++ [' ', sep] ++ tail)).tail :=
        LineCuts.cutAfter_unbroken_append
          (fun c hc _ => beq_eq_false_iff_ne.mpr (hinner c hc)) hnil _
      rw [← hsplit, List.append_assoc whole, fileLines_append hended, hcut,
        fileLines_of_leading hsep]
      rfl
    have hnumber (k : Nat) : headingLineNumber
        (open_ ++ (headingPrefix k ++ [' ', sep] ++ (fileLines tail).headD [])) =
          headingLineNumber inner := by
      rw [hlast, List.append_assoc]
      refine headingLineNumber_append fun c hc => ?_
      cases hc
      exact hbreak
    have hsame : headingLineNumber
        (open_ ++ (headingPrefix m ++ [' ', sep] ++ (fileLines tail).headD [])) =
        headingLineNumber (open_ ++ (headingPrefix n ++ [' ', sep] ++ (fileLines tail).headD [])) :=
      (hnumber m).trans (hnumber n).symm
    rw [streamedOf, streamedOf, hline, hline, List.find?_append, List.find?_append]
    cases (fileLines whole).find? claims with
    | some line => rfl
    | none =>
        rw [Option.none_or, Option.none_or]
        cases hclaims : claims (open_ ++
            (headingPrefix m ++ [' ', sep] ++ (fileLines tail).headD [])) with
        | true =>
            rw [List.find?_cons_of_pos hclaims,
              List.find?_cons_of_pos (claims_congr hsame ▸ hclaims), Option.map_some,
              Option.map_some, hsame]
        | false =>
            have hclaims' : claims (open_ ++
                (headingPrefix n ++ [' ', sep] ++ (fileLines tail).headD [])) = false :=
              claims_congr hsame ▸ hclaims
            rw [List.find?_cons_of_neg (by rw [hclaims]; exact Bool.false_ne_true),
              List.find?_cons_of_neg (by rw [hclaims']; exact Bool.false_ne_true)]

/-! ## When a repair is sound -/

theorem newlineByte_notMem_utf8 {text : Text} (h : '\n' ∉ text) : newlineByte ∉ utf8 text := by
  apply EscapedUtf8.newlineByte_notMem_encode
  rwa [EscapedUtf8.newline_mem_map_scalar]

theorem newline_notMem_stamp {num : Nat} {sep : Char} (hsep : sep ∈ headingSeparators) :
    '\n' ∉ headingPrefix num ++ [' ', sep] := by
  intro hin
  exact absurd (prefix_unbroken hsep _ hin) (by decide)

theorem dropWhile_stamp {num : Nat} {sep : Char} (hsep : sep ∈ headingSeparators) (tail : Text) :
    (headingPrefix num ++ [' ', sep] ++ tail).dropWhile (· != '\n') =
      tail.dropWhile (· != '\n') := by
  refine Trim.dropWhile_append_of_all (fun c hc => ?_) tail
  rw [bne_iff_ne]
  rintro rfl
  exact newline_notMem_stamp hsep hc

theorem head?_dropWhile_newline (tail : Text) :
    ∀ c ∈ (tail.dropWhile (· != '\n')).head?, c = '\n' := by
  intro c hc
  simpa using Trim.head?_dropWhile (p := (· != '\n')) tail c hc

/-- The heading the parser uses has an em dash. -/
theorem dash_of_h1At {num : Nat} {sep : Char} {tail : Text} (hsep : sep ∈ headingSeparators)
    (h : (h1At (headingPrefix num ++ [' ', sep] ++ tail)).isSome = true) : sep = '—' := by
  rcases List.mem_cons.mp hsep with rfl | hsep
  · rfl
  · rw [List.mem_singleton.mp hsep] at h
    have hgap : Gap [' '] := ⟨List.cons_ne_nil _ _, by simp [show isSpace ' ' = true by decide]⟩
    have hdash : ∀ c ∈ ('-' :: tail).head?, isSpace c = false := by
      intro c hc
      cases hc
      decide
    obtain ⟨hnumber, hafter, hrest⟩ := past_number hgap (padNumber_number num) hgap.2 hdash
      (hgap.stops _)
    have hshape : headingPrefix num ++ [' ', '-'] ++ tail =
        '#' :: ([' '] ++ (padNumber 3 num ++ ([' '] ++ '-' :: tail))) := by
      simp [headingPrefix]
    rw [hshape, h1At] at h
    simp only [hnumber, hafter, hrest] at h
    cases h

/-- After a sound look at the file, the rewritten heading reads as the new number. -/
theorem headingNumber_rewritten {before tail : Text} {n : Nat} {sep : Char}
    (hlast : before.getLast? = some '\n') (hsep : sep ∈ headingSeparators)
    (hshort : (padNumber 3 n).length ≤ intMaxStrDigits) :
    headingNumber (before ++ (headingPrefix n ++ [' ', sep] ++ tail)) = .ok (some n) ↔
      ∀ part, (splitlinesKeepEnds before).find? claims = some part →
        headingLineNumber part = .ok (some n) := by
  have hline : headingPrefix n ++ [' ', sep] ++ (splitlinesKeepEnds tail).headD [] =
      headingPrefix n ++ ' ' :: sep :: (splitlinesKeepEnds tail).headD [] := by simp
  rw [headingNumber_eq_find, splitlinesKeepEnds_append hlast, List.find?_append, splitlines_of_leading hsep,
    hline, List.find?_cons_of_pos (claims_of_leading hsep _)]
  cases (splitlinesKeepEnds before).find? claims with
  | none => simp [headingLineNumber_of_leading hsep _ hshort]
  | some part => simp

/-- A repair of a plainly headed file is sound. -/
theorem PlainlyHeaded.sound {bytes : List UInt8} {heading number : Nat} {before h1 : Text}
    (h : PlainlyHeaded bytes heading number before h1)
    (hheading : streamedHeading bytes = .ok (some heading)) (hne : heading ≠ number)
    (hshort : (padNumber 3 number).length ≤ intMaxStrDigits) :
    SoundRepair bytes (repairedBytes bytes heading number) number := by
  obtain ⟨htext, hlast, -⟩ := cutAtH1_spec h.cut
  obtain ⟨more, hmore⟩ := h.canonical
  have hdash : '—' ∈ headingSeparators := by decide
  have hlines : splitlinesKeepEnds (readTextLenient bytes) = splitlinesKeepEnds before ++
      (headingPrefix heading ++ [' ', '—'] ++ (splitlinesKeepEnds more).headD []) ::
        (splitlinesKeepEnds more).tail := by
    rw [htext, splitlinesKeepEnds_append hlast, ← hmore, headingStamp, splitlines_of_leading hdash]
  have hpiece : isRewritable heading
      (headingPrefix heading ++ [' ', '—'] ++ (splitlinesKeepEnds more).headD []) = true :=
    isRewritable_iff.mpr ⟨'—', hdash, (splitlinesKeepEnds more).headD [], by simp⟩
  obtain ⟨sep, hsep, tail, hread, hrewrite⟩ :=
    rewrite_split (n := number) hlines hpiece h.unaddressed
  have hflat : (splitlinesKeepEnds before).flatten = before := LineCuts.flatten_cutAfter before
  rw [hflat] at hread hrewrite
  have hh1 : h1 = headingPrefix heading ++ [' ', sep] ++ tail :=
    List.append_cancel_left (htext.symm.trans hread)
  have hcr : '\r' ∉ readTextLenient bytes := cr_notMem_readTextLenient bytes
  have hcrBefore : '\r' ∉ before := fun hin => hcr (htext ▸ List.mem_append_left _ hin)
  have hcrStamp : '\r' ∉ headingPrefix number ++ [' ', sep] := fun hin =>
    absurd (prefix_unbroken hsep _ hin) (by decide)
  have hcrAfter : '\r' ∉ before ++ (headingPrefix number ++ [' ', sep] ++ tail) := by
    intro hin
    rcases List.mem_append.mp hin with hin | hin
    · exact hcrBefore hin
    · rcases List.mem_append.mp hin with hin | hin
      · exact hcrStamp hin
      · exact hcr (hread ▸ List.mem_append_right _ (List.mem_append_right _ hin))
  have hafter : readTextLenient (repairedBytes bytes heading number) =
      before ++ (headingPrefix number ++ [' ', sep] ++ tail) := by
    rw [repairedBytes, hrewrite, readTextLenient_utf8 hcrAfter]
  have hended : ∀ c ∈ before.getLast?, c = '\n' := by
    intro c hc
    rw [hlast] at hc
    exact (Option.some.inj hc).symm
  have hstreamed : streamedHeading (repairedBytes bytes heading number) = .ok (some number) := by
    rw [streamedHeading_eq_find, hafter]
    exact streamedOf_append hended h.streamed hsep hshort tail
  obtain ⟨line, hbytes, hline⟩ := h.clean
  refine ⟨?_, hstreamed, utf8 before, line,
    utf8 (headingPrefix number ++ [' ', sep] ++ tail.takeWhile (· != '\n')),
    utf8 (h1.dropWhile (· != '\n')), h1, hbytes, ?_, ?_, hline, ?_, ?_, ?_, ?_⟩
  · rw [hafter]
    exact (headingNumber_rewritten hlast hsep hshort).mpr h.hidden
  · rw [repairedBytes, hrewrite, hh1, dropWhile_stamp hsep, ← EscapedUtf8.utf8_append,
      ← EscapedUtf8.utf8_append, List.append_assoc (headingPrefix number ++ [' ', sep]),
      List.takeWhile_append_dropWhile]
  · intro hsame
    have hunchanged : bytes = repairedBytes bytes heading number := by
      conv_lhs => rw [hbytes, hsame, hh1, dropWhile_stamp hsep, ← EscapedUtf8.utf8_append,
        ← EscapedUtf8.utf8_append, List.append_assoc (headingPrefix number ++ [' ', sep]),
        List.takeWhile_append_dropWhile]
      rw [repairedBytes, hrewrite]
    rw [← hunchanged, hheading] at hstreamed
    exact hne (Option.some.inj (Except.ok.inj hstreamed))
  · apply newlineByte_notMem_utf8
    intro hin
    rcases List.mem_append.mp hin with hin | hin
    · exact newline_notMem_stamp hsep hin
    · exact absurd (List.mem_takeWhile_imp hin) (by decide)
  · exact (EscapedUtf8.getLast?_utf8 before).mpr hlast
  · intro b hb
    cases hrest : h1.dropWhile (· != '\n') with
    | nil =>
        rw [hrest] at hb
        cases hb
    | cons c rest =>
        have hc := head?_dropWhile_newline h1 c (by rw [hrest]; rfl)
        rw [hrest, hc] at hb
        exact (Option.some.inj hb).symm
  · rw [readTextLenient_utf8 hcrBefore]
    exact h.cut

/-- The text up to the last `#` and the characters after it are determined by the text. -/
theorem prefix_eq_of_append {before more : Text} {m n : Nat}
    (h : before ++ headingPrefix m = more ++ headingPrefix n) : m = n := by
  have hplain (k : Nat) : ∀ c ∈ (' ' :: padNumber 3 k).reverse, (c != '#') = true := by
    intro c hc
    rw [bne_iff_ne]
    rintro rfl
    rcases List.mem_cons.mp (List.mem_reverse.mp hc) with hblank | hdigit
    · exact absurd hblank (by decide)
    · exact absurd (isDigit_of_mem_padNumber hdigit) (by decide)
  have hlast (k : Nat) (front : Text) : (front ++ headingPrefix k).reverse.takeWhile (· != '#') =
      (' ' :: padNumber 3 k).reverse := by
    have hshape : (front ++ headingPrefix k).reverse =
        (' ' :: padNumber 3 k).reverse ++ '#' :: front.reverse := by
      simp [headingPrefix]
    rw [hshape]
    refine takeWhile_run (hplain k) fun c hc => ?_
    cases hc
    decide
  have hsame := hlast m before
  rw [h, hlast n more] at hsame
  exact padNumber_injective 3 (List.cons.inj (List.reverse_injective hsame)).2.symm

/-- The bytes of a text that are cut where a line starts, and within that line where it ends. -/
theorem utf8_cut {text : Text} {front line back : List UInt8}
    (h : utf8 text = front ++ (line ++ back)) (hfront : front.getLast? = some newlineByte)
    (hline : newlineByte ∉ line) (hback : ∀ b ∈ back.head?, b = newlineByte) :
    ∃ before rest, text = before ++ rest ∧ front = utf8 before ∧ before.getLast? = some '\n' ∧
      '\n' ∉ rest.takeWhile (· != '\n') ∧ back = utf8 (rest.dropWhile (· != '\n')) := by
  obtain ⟨inner, rfl⟩ := List.getLast?_eq_some_iff.mp hfront
  rw [List.append_assoc, List.singleton_append] at h
  obtain ⟨before, rest, rfl, rfl, hrest⟩ := EscapedUtf8.utf8_eq_append_newline h
  have hplain : '\n' ∉ rest.takeWhile (· != '\n') :=
    fun hin => absurd (List.mem_takeWhile_imp hin) (by decide)
  refine ⟨before ++ ['\n'], rest, by simp, ?_, List.getLast?_concat, hplain, ?_⟩
  · rw [EscapedUtf8.utf8_append]
    rfl
  · cases back with
    | nil =>
        have hnone : '\n' ∉ rest := by
          intro hin
          rw [List.append_nil] at hrest
          obtain ⟨x, y, rfl⟩ := List.append_of_mem hin
          apply hline
          rw [hrest, EscapedUtf8.utf8_append]
          exact List.mem_append_right _ (List.mem_cons_self ..)
        have hall : rest.dropWhile (· != '\n') = [] := by
          rw [List.dropWhile_eq_nil_iff]
          intro c hc
          rw [bne_iff_ne]
          rintro rfl
          exact hnone hc
        rw [hall]
        rfl
    | cons b more =>
        obtain rfl : b = newlineByte := hback b rfl
        obtain ⟨x, y, rfl, hx, rfl⟩ := EscapedUtf8.utf8_eq_append_newline hrest.symm
        have hnone : ∀ c ∈ x, (c != '\n') = true := by
          intro c hc
          rw [bne_iff_ne]
          rintro rfl
          apply hline
          obtain ⟨u, v, rfl⟩ := List.append_of_mem hc
          rw [hx, EscapedUtf8.utf8_append]
          exact List.mem_append_right _ (List.mem_cons_self ..)
        rw [Trim.dropWhile_append_of_all hnone]
        rfl

theorem getLast?_flatten_ended {front : List Text}
    (h : ∀ part ∈ front, ∃ inner last next, part = inner ++ [last] ∧ endsLine last next = true) :
    ∀ c ∈ front.flatten.getLast?, isLineBreak c = true := by
  rcases List.eq_nil_or_concat front with rfl | ⟨init, part, rfl⟩
  · exact fun c hc => absurd hc (by simp)
  · obtain ⟨inner, last, next, rfl, hlast⟩ := h part (by simp)
    intro c hc
    rw [List.concat_eq_append, List.flatten_append, List.flatten_singleton, ← List.append_assoc,
      List.getLast?_concat] at hc
    rw [← Option.some.inj hc]
    exact (Bool.and_eq_true_iff.mp hlast).1

/-- A repair that changes the line of the heading alone rewrites the heading: the rewritten line
stands neither before it nor after it. -/
theorem rewritten_at_heading {bytes line back : List UInt8} {heading number : Nat} {sep : Char}
    {front rest : List Text} {piece before after h1 tail : Text} (hne : heading ≠ number)
    (hlines : splitlinesKeepEnds (readTextLenient bytes) = front ++ piece :: rest)
    (hpiece : isRewritable heading piece = true)
    (hread : readTextLenient bytes =
      front.flatten ++ (headingPrefix heading ++ [' ', sep] ++ tail))
    (hended : ∀ c ∈ front.flatten.getLast?, c = '\n')
    (hwhole : readTextLenient bytes = before ++ h1) (hlast : before.getLast? = some '\n')
    (hafter : before ++ after = front.flatten ++ (headingPrefix number ++ [' ', sep] ++ tail))
    (hcr : '\r' ∉ before ++ after) (hbytes : bytes = utf8 before ++ (line ++ back))
    (hback : back = utf8 (after.dropWhile (· != '\n'))) :
    front = splitlinesKeepEnds before := by
  have hblank : (' ').isDigit = false := by decide
  have hcut : splitlinesKeepEnds before ++ splitlinesKeepEnds h1 = front ++ piece :: rest := by
    rw [← splitlinesKeepEnds_append hlast, ← hwhole, hlines]
  have hflat : (splitlinesKeepEnds before).flatten = before := LineCuts.flatten_cutAfter before
  rcases List.append_eq_append_iff.mp hcut with ⟨more, hfront, hlater⟩ | ⟨more, hbefore, hlater⟩
  · cases more with
    | nil => rw [hfront, List.append_nil]
    | cons part parts =>
        -- a line after the heading's would leave its text unchanged at a shifted place
        exfalso
        have hlines₁ : ∀ line ∈ splitlinesKeepEnds h1, line ≠ [] :=
          fun _ hin => LineCuts.ne_nil_of_mem_cutAfter hin
        have hpart : part ≠ [] := by
          apply hlines₁
          rw [hlater]
          exact List.mem_cons_self ..
        set between := (part :: parts).flatten with hbetween
        have hfrontFlat : front.flatten = before ++ between := by
          rw [hfront, List.flatten_append, hflat]
        have hne' : between ≠ [] := by
          rw [hbetween, List.flatten_cons]
          exact List.append_ne_nil_of_left_ne_nil hpart _
        rw [hfrontFlat, List.append_assoc] at hafter hread
        have hafter' : after = between ++ (headingPrefix number ++ [' ', sep] ++ tail) :=
          List.append_cancel_left hafter
        have hh1 : h1 = between ++ (headingPrefix heading ++ [' ', sep] ++ tail) :=
          List.append_cancel_left (hwhole.symm.trans hread)
        have hnewline : between.getLast? = some '\n' := by
          obtain ⟨init, last, hinit⟩ : ∃ init last, between = init ++ [last] :=
            ⟨_, _, (List.dropLast_append_getLast hne').symm⟩
          have hlast' := hended last (by
            rw [hfrontFlat, hinit, ← List.append_assoc, List.getLast?_concat]
            rfl)
          rw [hinit, List.getLast?_concat, hlast']
        have hmem : ∃ c ∈ between, (c != '\n') = false :=
          ⟨'\n', List.mem_of_getLast? hnewline, by decide⟩
        obtain ⟨c, z, hz⟩ : ∃ c z, between.dropWhile (· != '\n') = c :: z := by
          refine List.exists_cons_of_ne_nil fun hnil => ?_
          have hall := List.dropWhile_eq_nil_iff.mp hnil '\n' (List.mem_of_getLast? hnewline)
          exact absurd hall (by decide)
        obtain rfl : c = '\n' := head?_dropWhile_newline between c (by rw [hz]; rfl)
        rw [hafter', Trim.dropWhile_append_of_any hmem, hz, List.cons_append] at hback
        have hcrBefore : '\r' ∉ before := fun hin => hcr (List.mem_append_left _ hin)
        have hcrRest : '\r' ∉ z ++ (headingPrefix number ++ [' ', sep] ++ tail) := by
          intro hin
          apply hcr
          rw [hafter', List.mem_append, List.mem_append]
          rcases List.mem_append.mp hin with hin | hin
          · have hsub : '\r' ∈ between.dropWhile (· != '\n') := by
              rw [hz]
              exact List.mem_cons_of_mem _ hin
            exact Or.inr (Or.inl ((List.dropWhile_suffix _).subset hsub))
          · exact Or.inr (Or.inr hin)
        obtain ⟨x, hx⟩ := readTextLenient_newline line hcrRest
        have hshift : h1 = x ++ (z ++ (headingPrefix number ++ [' ', sep] ++ tail)) := by
          rw [hbytes, hback, readTextLenient_utf8_append hcrBefore, hx] at hwhole
          exact (List.append_cancel_left hwhole).symm
        rw [hh1] at hshift
        have hcancel : (between ++ headingPrefix heading) ++ ([' ', sep] ++ tail) =
            (x ++ z ++ headingPrefix number) ++ ([' ', sep] ++ tail) := by
          simpa only [List.append_assoc] using hshift
        exact hne (prefix_eq_of_append (List.append_cancel_right hcancel))
  · cases more with
    | nil => rw [hbefore, List.append_nil]
    | cons part parts =>
        -- a line before the heading's would have changed too
        exfalso
        obtain ⟨rfl, hrest⟩ := List.cons.inj hlater
        obtain ⟨sep', -, more, rfl⟩ := isRewritable_iff.mp hpiece
        have hbeforeFlat : before =
            front.flatten ++ (headingPrefix heading ++ ' ' :: sep' :: more ++ parts.flatten) := by
          rw [← hflat, hbefore, List.flatten_append, List.flatten_cons]
        rw [hbeforeFlat, List.append_assoc] at hafter
        have hsame := List.append_cancel_left hafter
        rw [List.append_assoc, List.append_assoc, List.append_assoc] at hsame
        exact hne (prefix_eq_of_stamps hblank hblank hsame)

/-- A repair is sound only at a plainly headed file. -/
theorem SoundRepair.plainlyHeaded {bytes : List UInt8} {heading number : Nat}
    (h : SoundRepair bytes (repairedBytes bytes heading number) number)
    (hheading : streamedHeading bytes = .ok (some heading)) (hne : heading ≠ number)
    (hshort : (padNumber 3 number).length ≤ intMaxStrDigits)
    (hrewritable : hasRewritableHeading (readTextLenient bytes) heading = true) :
    ∃ before h1, PlainlyHeaded bytes heading number before h1 := by
  obtain ⟨hnumber, hstreamed, fb, line, line', back, h1, hbytes, hafter, -, hline, hline', hfb,
    hback, hcut⟩ := h
  set text := readTextLenient bytes with htext
  obtain ⟨front, piece, rest, hlines, hpiece, hfront⟩ := rewritable_split hrewritable
  obtain ⟨sep, hsep, tail, hread, hrewrite⟩ := rewrite_split (n := number) hlines hpiece hfront
  have hcr : '\r' ∉ text := cr_notMem_readTextLenient bytes
  -- the text after the repair, cut at the changed line
  rw [repairedBytes, ← htext] at hafter hnumber hstreamed
  obtain ⟨before, after, hrewritten, hfront', hlast, hplain, hback'⟩ :=
    utf8_cut hafter hfb hline' hback
  have hcrStamp : '\r' ∉ headingPrefix number ++ [' ', sep] := fun hin =>
    absurd (prefix_unbroken hsep _ hin) (by decide)
  have hcrRewritten : '\r' ∉ rewriteDecisionHeading text heading number := by
    rw [hrewrite]
    intro hin
    rcases List.mem_append.mp hin with hin | hin
    · exact hcr (hread ▸ List.mem_append_left _ hin)
    · rcases List.mem_append.mp hin with hin | hin
      · exact hcrStamp hin
      · exact hcr (hread ▸ List.mem_append_right _ (List.mem_append_right _ hin))
  have hcrBefore : '\r' ∉ before := fun hin =>
    hcrRewritten (hrewritten ▸ List.mem_append_left _ hin)
  rw [hfront', readTextLenient_utf8 hcrBefore] at hcut
  obtain ⟨hwhole, -, hmatch⟩ := cutAtH1_spec hcut
  rw [readTextLenient_utf8 hcrRewritten] at hnumber
  -- the rewritten heading starts a line of the file, and nothing before it claims a number
  have hbreak : ∀ c ∈ front.flatten.getLast?, isLineBreak c = true :=
    getLast?_flatten_ended (LineCuts.cutAfter_front hlines)
  have hdiffer : streamedOf (front.flatten ++ (headingPrefix heading ++ [' ', sep] ++ tail)) ≠
      streamedOf (front.flatten ++ (headingPrefix number ++ [' ', sep] ++ tail)) := by
    rw [← hread, ← hrewrite]
    rw [streamedHeading_eq_find, ← htext] at hheading
    rw [streamedHeading_eq_find, readTextLenient_utf8 hcrRewritten] at hstreamed
    rw [streamedOf, streamedOf, hheading, hstreamed]
    intro heq
    exact hne (Option.some.inj (Except.ok.inj heq))
  obtain ⟨hended, hnone⟩ := streamed_of_ne hsep hbreak hdiffer
  have hsame : front = splitlinesKeepEnds before :=
    rewritten_at_heading hne hlines hpiece hread hended hwhole hlast
      (hrewritten.symm.trans hrewrite) (hrewritten ▸ hcrRewritten) (hfront' ▸ hbytes) hback'
  have hflat : front.flatten = before := hsame ▸ LineCuts.flatten_cutAfter before
  rw [hflat] at hread hrewrite hnone
  have hh1 : h1 = headingPrefix heading ++ [' ', sep] ++ tail :=
    List.append_cancel_left (hwhole.symm.trans hread)
  have hdash : sep = '—' := dash_of_h1At hsep (hh1 ▸ hmatch)
  have hrest : after = headingPrefix number ++ [' ', sep] ++ tail :=
    List.append_cancel_left (hrewritten.symm.trans hrewrite)
  refine ⟨before, h1, hcut, hnone, ?_, ?_, ?_, line, ?_, hline⟩
  · rw [hrewrite] at hnumber
    exact (headingNumber_rewritten hlast hsep hshort).mp hnumber
  · rw [← hsame]
    exact hfront
  · rw [hh1, hdash, headingStamp]
    exact List.prefix_append _ _
  · rw [hbytes, hfront', hback', hrest, hh1, dropWhile_stamp hsep, dropWhile_stamp hsep]

/-- A repair is sound exactly at a plainly headed file. -/
theorem repair_sound_iff {bytes : List UInt8} {heading number : Nat}
    (hheading : streamedHeading bytes = .ok (some heading)) (hne : heading ≠ number)
    (hshort : (padNumber 3 number).length ≤ intMaxStrDigits)
    (hrewritable : hasRewritableHeading (readTextLenient bytes) heading = true) :
    SoundRepair bytes (repairedBytes bytes heading number) number ↔
      ∃ before h1, PlainlyHeaded bytes heading number before h1 := by
  constructor
  · exact fun h => h.plainlyHeaded hheading hne hshort hrewritable
  · rintro ⟨before, h1, h⟩
    exact h.sound hheading hne hshort

end Sync
end Nauro
