import Nauro.Sync.Headings

/-!
# The heading sync reads and the heading the parser reads

The parser finds the title heading with a pattern on the body; sync scans the lines of the whole
file. They meet on the heading only when nothing before it claims a number and the heading is
spelled with blanks.

* `heading_agrees_iff` — exactly when sync reads the number of the parser's heading.
-/

namespace Nauro
namespace Sync

open Foundation Core

/-! ## The heading the parser uses -/

/-- The body from the leftmost match of the title pattern on. -/
def h1Start (body : Text) : Option Text :=
  (body :: afterNewlines body).find? fun rest => (h1At rest).isSome

/-- A decision text before and from the heading the parser uses. -/
def cutAtH1 (text : Text) : Option (Text × Text) :=
  match splitFrontmatter text with
  | .error _ => none
  | .ok (_, body) =>
      (h1Start body).map fun h1 => (text.take (text.length - h1.length), h1)

/-- The digits that stand in a heading. -/
def h1Digits (h1 : Text) : Text :=
  (h1.tail.dropWhile isSpace).takeWhile Char.isDigit

/-- The first line before the heading that claims a number claims that of the heading; where
none does, the heading is spelled `#`, blanks, at most 4300 digits, one blank and the dash, or the
first claim after a heading spelled otherwise is of its number. -/
def ReadsH1 (before h1 : Text) : Prop :=
  match (splitlinesKeepEnds before).find? claims with
  | some line => headingLineNumber line = .ok (number? (h1Digits h1))
  | none =>
      (HeadingLine (h1Digits h1) h1 ∧ (h1Digits h1).length ≤ intMaxStrDigits) ∨
        (¬ HeadingLine (h1Digits h1) h1 ∧
          ∃ line, (splitlinesKeepEnds h1).tail.find? claims = some line ∧
            headingLineNumber line = .ok (number? (h1Digits h1)))

/-! ## Where the heading stands -/

theorem afterNewlines_mem {body rest : Text} (h : rest ∈ afterNewlines body) :
    ∃ front, body = front ++ '\n' :: rest := by
  induction body with
  | nil => cases h
  | cons c body ih =>
      rw [afterNewlines] at h
      split at h
      · next hnewline =>
          rcases List.mem_cons.mp h with rfl | hin
          · exact ⟨[], by rw [hnewline]; rfl⟩
          · obtain ⟨front, hfront⟩ := ih hin
            exact ⟨c :: front, by rw [hfront]; rfl⟩
      · obtain ⟨front, hfront⟩ := ih h
        exact ⟨c :: front, by rw [hfront]; rfl⟩

/-- The heading starts a line: what stands before it ends in a newline. -/
theorem cutAtH1_spec {text before h1 : Text} (h : cutAtH1 text = some (before, h1)) :
    text = before ++ h1 ∧ before.getLast? = some '\n' ∧ (h1At h1).isSome = true := by
  rw [cutAtH1] at h
  split at h
  · cases h
  · next block body hsplit =>
      obtain ⟨found, hfound, heq⟩ := Option.map_eq_some_iff.mp h
      obtain ⟨hbefore, rfl⟩ := Prod.mk.inj heq
      have hmatch := List.find?_some hfound
      have htext := splitFrontmatter_body hsplit
      have hwhole : ∃ front, text = front ++ found ∧ front.getLast? = some '\n' := by
        have hfences : (openFence ++ (block ++ closeFence)).getLast? = some '\n' := by
          have hclose : closeFence = "\n---".toList ++ ['\n'] := rfl
          rw [hclose, ← List.append_assoc, ← List.append_assoc, List.getLast?_concat]
        rcases List.mem_cons.mp (List.mem_of_find?_eq_some hfound) with rfl | hin
        · exact ⟨_, htext, hfences⟩
        · obtain ⟨front, hfront⟩ := afterNewlines_mem hin
          refine ⟨openFence ++ (block ++ closeFence) ++ (front ++ ['\n']), ?_, ?_⟩
          · rw [htext, hfront]
            simp
          · rw [← List.append_assoc, List.getLast?_concat]
      obtain ⟨front, hfront, hlast⟩ := hwhole
      rw [hfront, List.length_append, Nat.add_sub_cancel, List.take_left] at hbefore
      rw [← hbefore]
      exact ⟨hfront, hlast, hmatch⟩

/-- A text that parses has a heading. -/
theorem cutAtH1_of_parse {E : Type} {tables : UnicodeTables} {yaml : Yaml E} {text filename : Text}
    {d : Decision E} (h : parseDecision tables yaml text filename = .ok d) :
    ∃ before h1, cutAtH1 text = some (before, h1) := by
  obtain ⟨block, body, m, title, rationale, rejected, hsplit, -, hbody, -⟩ := parseDecision_ok h
  obtain ⟨htitle, -⟩ := parseBody_ok_iff.mp hbody
  obtain ⟨rest, hin, hrest⟩ := List.exists_of_findSome?_eq_some htitle
  cases hfound : h1Start body with
  | none =>
      have hnone := List.find?_eq_none.mp hfound rest hin
      rw [hrest] at hnone
      exact absurd rfl hnone
  | some h1 =>
      refine ⟨text.take (text.length - h1.length), h1, ?_⟩
      rw [cutAtH1, hsplit]
      show (h1Start body).map _ = _
      rw [hfound]
      rfl

/-! ## The number of the heading -/

/-- A heading line has the digits of its heading. -/
theorem HeadingLine.digits_eq {digits h1 : Text} (h : HeadingLine digits h1) :
    digits = h1Digits h1 := by
  obtain ⟨gap, tail, sep, -, rfl, hgap, hdigits⟩ := h
  have hblank : ∀ c ∈ gap, isSpace c = true := by
    intro c hc
    rw [hgap.2 c hc]
    decide
  have hstop : ∀ c ∈ (' ' :: sep :: tail).head?, c.isDigit = false := by
    intro c hc
    cases hc
    decide
  rw [h1Digits, List.tail_cons, dropWhile_run hblank (hdigits.dropWhile_space _),
    takeWhile_run hdigits.2 hstop]

theorem claims_iff {line : Text} : claims line = true ↔ HeadingLine (h1Digits line) line := by
  rw [← not_iff_not, Bool.not_eq_true, claims_eq_false_iff, headingLineNumber_eq_none_iff]
  constructor
  · exact fun h hline => h ⟨_, hline⟩
  · rintro h ⟨digits, hline⟩
    exact h (hline.digits_eq ▸ hline)

theorem h1_ne_nil {h1 : Text} (h : (h1At h1).isSome = true) : h1 ≠ [] := by
  rintro rfl
  cases h

/-- A heading has a number. -/
theorem number_h1Digits {h1 : Text} (h : (h1At h1).isSome = true) : Number (h1Digits h1) := by
  obtain ⟨title, htitle⟩ := Option.isSome_iff_exists.mp h
  obtain ⟨gap₁, digits, gap₂, after, rfl, hgap₁, hdigits, hgap₂, -⟩ := h1At_eq_some_iff.mp htitle
  rw [h1Digits, List.tail_cons, dropWhile_run hgap₁.2 (hdigits.dropWhile_space _),
    takeWhile_run hdigits.2 (hgap₂.stops _)]
  exact hdigits

/-- The heading itself is read when its spelling and the length of its number let it. -/
theorem readInt_eq_number_iff {digits : Text} (h : Number digits) :
    readInt digits = .ok (number? digits) ↔ digits.length ≤ intMaxStrDigits := by
  rw [readInt]
  split
  · next hlong =>
      constructor
      · exact fun heq => by cases heq
      · intro hshort
        omega
  · next hshort => exact iff_of_true rfl (Nat.le_of_not_lt hshort)

/-- What sync finds from the heading on. -/
theorem found_from_h1_iff {h1 : Text} (hmatch : (h1At h1).isSome = true) :
    (((splitlinesKeepEnds h1).find? claims).map headingLineNumber).getD (.ok none) =
        .ok (number? (h1Digits h1)) ↔
      (HeadingLine (h1Digits h1) h1 ∧ (h1Digits h1).length ≤ intMaxStrDigits) ∨
        (¬ HeadingLine (h1Digits h1) h1 ∧
          ∃ line, (splitlinesKeepEnds h1).tail.find? claims = some line ∧
            headingLineNumber line = .ok (number? (h1Digits h1))) := by
  have hnumber := number_h1Digits hmatch
  obtain ⟨first, others, hfirst⟩ := List.exists_cons_of_ne_nil
    (mt LineCuts.cutAfter_eq_nil.mp (h1_ne_nil hmatch) : splitlinesKeepEnds h1 ≠ [])
  have hsame := headingLineNumber_of_cut hfirst
  rw [hfirst, List.tail_cons]
  by_cases hplain : HeadingLine (h1Digits h1) h1
  · have hclaims : claims first = true := by rw [claims_congr hsame, claims_iff.mpr hplain]
    rw [List.find?_cons_of_pos hclaims, Option.map_some, Option.getD_some, hsame,
      headingLineNumber_of_heading hplain, readInt_eq_number_iff hnumber]
    simp [hplain]
  · have hclaims : ¬ claims first = true := by
      rw [claims_congr hsame, claims_iff]
      exact hplain
    rw [List.find?_cons_of_neg hclaims]
    simp only [hplain, false_and, false_or, not_false_eq_true, true_and]
    cases others.find? claims with
    | some line => simp
    | none => simp [number?_of_number hnumber]

/-- Sync reads the number of the parser's heading exactly when the lines before the heading and
its spelling let it. -/
theorem heading_agrees_iff {E : Type} {tables : UnicodeTables} {yaml : Yaml E}
    {text filename : Text} {d : Decision E}
    (hparse : parseDecision tables yaml text filename = .ok d) :
    ∃ before h1, cutAtH1 text = some (before, h1) ∧
      (headingNumber text = .ok (number? (h1Digits h1)) ↔ ReadsH1 before h1) := by
  obtain ⟨before, h1, hcut⟩ := cutAtH1_of_parse hparse
  refine ⟨before, h1, hcut, ?_⟩
  obtain ⟨rfl, hlast, hmatch⟩ := cutAtH1_spec hcut
  have hends : ∀ c ∈ before.getLast?, LineCuts.Ends endsLine c := by
    intro c hc
    rw [hlast] at hc
    cases hc
    exact fun _ => rfl
  have hlines : splitlinesKeepEnds (before ++ h1) =
      splitlinesKeepEnds before ++ splitlinesKeepEnds h1 := LineCuts.cutAfter_append hends h1
  rw [headingNumber_eq_find, hlines, List.find?_append, ReadsH1]
  cases (splitlinesKeepEnds before).find? claims with
  | some line => exact Iff.rfl
  | none => exact found_from_h1_iff hmatch

/-- The condition at a file whose heading is spelled with blanks. -/
theorem heading_agrees_edited :
    ∃ before h1, cutAtH1 editedFile = some (before, h1) ∧
      (headingNumber editedFile = .ok (number? (h1Digits h1)) ↔ ReadsH1 before h1) :=
  heading_agrees_iff editedFile_parses

/-- A decision with a tab behind the `#` of its heading. -/
def tabbedFile : Text :=
  ("---\ndate: 2026-04-16\nconfidence: high\n---\n\n#\t007 — Use a queue\n\n## Decision\n\n" ++
    "Jobs go through the queue.\n").toList

/-- The parser accepts the tab and reads 7; sync takes the file for one without a heading. -/
theorem tabbed_heading_unread :
    ∃ d before h1, parseDecision .ascii plainYaml tabbedFile "007-use-a-queue.md".toList = .ok d ∧
      cutAtH1 tabbedFile = some (before, h1) ∧ number? (h1Digits h1) = some 7 ∧
      headingNumber tabbedFile = .ok none := by
  have hread : ((parseDecision .ascii plainYaml tabbedFile
      "007-use-a-queue.md".toList).toOption.isSome &&
      (cutAtH1 tabbedFile).any (fun parts => number? (h1Digits parts.2) == some 7) &&
      (splitlines tabbedFile).all fun line => !claims line) = true := by decide +kernel
  simp only [Bool.and_eq_true, Option.isSome_iff_exists, Option.any_eq_true, beq_iff_eq] at hread
  obtain ⟨⟨⟨d, hparse⟩, ⟨before, h1⟩, hcut, hnumber⟩, hlines⟩ := hread
  refine ⟨d, before, h1, ?_, hcut, hnumber, ?_⟩
  · cases hresult : parseDecision .ascii plainYaml tabbedFile "007-use-a-queue.md".toList with
    | error e =>
        rw [hresult] at hparse
        cases hparse
    | ok d' =>
        rw [hresult] at hparse
        cases hparse
        rfl
  · rw [headingNumber, firstHeadingNumber_eq_find]
    have hnone : (splitlines tabbedFile).find? claims = none := by
      rw [List.find?_eq_none]
      intro line hline
      simpa using List.all_eq_true.mp hlines line hline
    rw [hnone]
    rfl

end Sync
end Nauro
