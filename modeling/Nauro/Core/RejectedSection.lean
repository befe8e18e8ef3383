import Nauro.Core.DecisionScan

/-!
# Writing rejected alternatives and reading them back

* `parseRejectedSubsections_written_iff` — exactly the readable alternatives are read back.
-/

namespace Nauro
namespace Core

open Foundation

/-! ## What is written -/

/-- The paragraphs of one alternative: its heading and, when it has one, its reason. -/
def alternativeParts (r : RejectedAlternative) : List Text :=
  ("### ".toList ++ r.name) ::
    match r.reason with
    | some reason => if reason = [] then [] else [strip reason]
    | none => []

/-- Paragraphs joined by blank lines, as lines. -/
def paragraphLines : List Text → List Text
  | [] => []
  | [part] => splitLines part
  | part :: parts => splitLines part ++ [] :: paragraphLines parts

/-- The lines of all alternatives. -/
def alternativesLines (alternatives : List RejectedAlternative) : List Text :=
  paragraphLines (alternatives.flatMap alternativeParts)

theorem paragraphLines_cons {part : Text} {parts : List Text} (hne : parts ≠ []) :
    paragraphLines (part :: parts) = splitLines part ++ [] :: paragraphLines parts := by
  cases parts with
  | nil => exact absurd rfl hne
  | cons second parts => rfl

theorem paragraphLines_append {front back : List Text} (hfront : front ≠ []) (hback : back ≠ []) :
    paragraphLines (front ++ back) = paragraphLines front ++ [] :: paragraphLines back := by
  induction front with
  | nil => exact absurd rfl hfront
  | cons part front ih =>
      cases front with
      | nil => exact paragraphLines_cons hback
      | cons second front =>
          have hfirst : paragraphLines (part :: second :: front) =
              splitLines part ++ [] :: paragraphLines (second :: front) :=
            paragraphLines_cons (by simp)
          rw [List.cons_append, paragraphLines_cons (by simp), ih (by simp), hfirst]
          simp

theorem splitLines_intercalate_paragraphs {parts : List Text} (hne : parts ≠ []) :
    splitLines ("\n\n".toList.intercalate parts) = paragraphLines parts := by
  induction parts with
  | nil => exact absurd rfl hne
  | cons part parts ih =>
      cases parts with
      | nil => simp [paragraphLines]
      | cons second parts =>
          have hjoin : "\n\n".toList.intercalate (part :: second :: parts) =
              part ++ '\n' :: '\n' :: "\n\n".toList.intercalate (second :: parts) := by
            simp [List.intercalate, List.intersperse]
          have hfirst : paragraphLines (part :: second :: parts) =
              splitLines part ++ [] :: paragraphLines (second :: parts) :=
            paragraphLines_cons (by simp)
          rw [hjoin, splitLines_append_newline, splitLines_newline_cons, ih (by simp), hfirst]

/-! ## Headings among lines -/

/-- Lines before the first heading are the preamble. -/
theorem subsections_append {front : List Text} (hfront : ∀ line ∈ front, headingRest? line = none)
    (rest : List Text) :
    subsections none (front ++ rest) =
      (front ++ (subsections none rest).1, (subsections none rest).2) := by
  induction front with
  | nil => rfl
  | cons line front ih =>
      obtain ⟨hline, hrest⟩ := List.forall_mem_cons.mp hfront
      rw [List.cons_append, subsections, hline]
      simp only [ih hrest, List.cons_append]

/-- An awaited name is found on the next line that is not blank. -/
theorem subsections_pending_preamble (pending : List Text) {rest : List Text}
    (hname : ∃ line ∈ rest, isBlank line = false) : (subsections (some pending) rest).1 = [] := by
  induction rest generalizing pending with
  | nil =>
      obtain ⟨line, hline, -⟩ := hname
      cases hline
  | cons line rest ih =>
      rw [subsections]
      split
      · next hblank =>
          apply ih
          obtain ⟨found, hfound, hnot⟩ := hname
          rcases List.mem_cons.mp hfound with rfl | hrest
          · rw [hblank] at hnot
            cases hnot
          · exact ⟨found, hrest, hnot⟩
      · rfl

/-- A heading that finds a name ends the preamble. -/
theorem subsections_heading_preamble {line name : Text} (hheading : headingRest? line = some name)
    {rest : List Text} (hname : isBlank name = false ∨ ∃ line ∈ rest, isBlank line = false) :
    (subsections none (line :: rest)).1 = [] := by
  rw [subsections, hheading]
  simp only
  split
  · next hblank =>
      rcases hname with hname | hname
      · rw [hblank] at hname
        cases hname
      · exact subsections_pending_preamble _ hname
  · rfl

theorem subsections_heading {line name : Text} (hheading : headingRest? line = some name)
    (hname : isBlank name = false) (rest : List Text) :
    subsections none (line :: rest) =
      ([], (strip name, (subsections none rest).1) :: (subsections none rest).2) := by
  rw [subsections, hheading]
  simp [hname]

/-- Without chunks, everything is preamble. -/
theorem subsections_preamble_of_nil {pending : Option (List Text)} {lines : List Text}
    (h : (subsections pending lines).2 = []) :
    (subsections pending lines).1 = pending.getD [] ++ lines := by
  induction lines generalizing pending with
  | nil =>
      cases pending with
      | none => rfl
      | some pending =>
          rw [subsections] at h ⊢
          split at h
          · cases h
          · next hblank => simp [hblank]
  | cons line lines ih =>
      cases pending with
      | none =>
          rw [subsections] at h ⊢
          cases hline : headingRest? line with
          | none =>
              rw [hline] at h
              simp only at h ⊢
              rw [ih h]
              rfl
          | some name =>
              rw [hline] at h
              simp only at h ⊢
              split at h
              · next hblank =>
                  rw [if_pos hblank, ih h]
                  rfl
              · cases h
      | some pending =>
          rw [subsections] at h ⊢
          split at h
          · next hblank =>
              rw [if_pos hblank, ih h]
              simp
          · cases h

/-- The first heading of some lines. -/
theorem exists_first_heading {lines : List Text}
    (h : ¬ ∀ line ∈ lines, headingRest? line = none) :
    ∃ front line name rest, lines = front ++ line :: rest ∧
      (∀ l ∈ front, headingRest? l = none) ∧ headingRest? line = some name := by
  induction lines with
  | nil => simp at h
  | cons line lines ih =>
      cases hline : headingRest? line with
      | some name => exact ⟨[], line, name, lines, rfl, by simp, hline⟩
      | none =>
          have hlines : ¬ ∀ l ∈ lines, headingRest? l = none := by
            intro hall
            apply h
            intro l hl
            rcases List.mem_cons.mp hl with rfl | hin
            · exact hline
            · exact hall l hin
          obtain ⟨front, found, name, rest, rfl, hfront, hfound⟩ := ih hlines
          refine ⟨line :: front, found, name, rest, rfl, ?_, hfound⟩
          intro l hl
          rcases List.mem_cons.mp hl with rfl | hin
          · exact hline
          · exact hfront l hin

theorem ink_ne_zero_of_headingRest? {line name : Text} (h : headingRest? line = some name) :
    ink line ≠ 0 := by
  intro hzero
  unfold headingRest? at h
  split at h
  · exact absurd (ink_eq_zero_iff.mp hzero '#' (List.mem_cons_self ..)) (by decide)
  · cases h

/-! ## Reading one alternative -/

/-- The lines of a reason under its heading. -/
def reasonLines (reason : Option Text) : List Text :=
  match reason with
  | some reason => if reason = [] then [] else [] :: splitLines (strip reason)
  | none => []

theorem paragraphLines_alternativeParts (r : RejectedAlternative) :
    paragraphLines (alternativeParts r) =
      splitLines ("### ".toList ++ r.name) ++ reasonLines r.reason := by
  unfold alternativeParts reasonLines
  cases r.reason with
  | none => simp [paragraphLines]
  | some reason =>
      by_cases hreason : reason = []
      · simp [hreason, paragraphLines]
      · simp [hreason, paragraphLines]

theorem alternativesLines_cons {r : RejectedAlternative} {rest : List RejectedAlternative}
    (hrest : rest ≠ []) :
    alternativesLines (r :: rest) =
      splitLines ("### ".toList ++ r.name) ++
        (reasonLines r.reason ++ [] :: alternativesLines rest) := by
  have hback : rest.flatMap alternativeParts ≠ [] := by
    obtain ⟨second, others, rfl⟩ := List.exists_cons_of_ne_nil hrest
    simp [alternativeParts]
  rw [alternativesLines, List.flatMap_cons,
    paragraphLines_append (by simp [alternativeParts]) hback, paragraphLines_alternativeParts,
    List.append_assoc]
  rfl

theorem alternativesLines_singleton (r : RejectedAlternative) :
    alternativesLines [r] = splitLines ("### ".toList ++ r.name) ++ reasonLines r.reason := by
  rw [alternativesLines, List.flatMap_cons, List.flatMap_nil, List.append_nil,
    paragraphLines_alternativeParts]

/-- The first line of a name that starts with ink has ink. -/
theorem splitLines_name {name : Text} (hne : name ≠ []) (htrim : strip name = name) :
    ∃ first others, splitLines name = first :: others ∧ isBlank first = false := by
  obtain ⟨first, others, hlines⟩ := List.exists_cons_of_ne_nil (splitLines_ne_nil name)
  refine ⟨first, others, hlines, ?_⟩
  obtain ⟨c, rest, rfl⟩ := List.exists_cons_of_ne_nil hne
  have hhead : isSpace c = false := (Trim.trim_eq_self_iff.mp htrim).1 c rfl
  have hc : c ≠ '\n' := by
    rintro rfl
    exact absurd hhead (by decide)
  unfold splitLines at hlines
  rw [LineText.splitOn_cons_of_ne hc] at hlines
  obtain ⟨tail, more, htail⟩ := List.exists_cons_of_ne_nil (List.splitOn_ne_nil '\n' rest)
  rw [htail, List.modifyHead_cons] at hlines
  rw [← (List.cons.inj hlines).1]
  simp [isBlank, hhead]

theorem splitLines_heading {name first : Text} {others : List Text}
    (hlines : splitLines name = first :: others) :
    splitLines ("### ".toList ++ name) = ("### ".toList ++ first) :: others := by
  unfold splitLines at hlines ⊢
  change ('#' :: '#' :: '#' :: ' ' :: name).splitOn '\n' = _
  rw [LineText.splitOn_cons_of_ne (by decide), LineText.splitOn_cons_of_ne (by decide),
    LineText.splitOn_cons_of_ne (by decide), LineText.splitOn_cons_of_ne (by decide), hlines]
  rfl

theorem headingRest?_heading (first : Text) :
    headingRest? ("### ".toList ++ first) = some (' ' :: first) := by
  have hspace : isSpace ' ' = true := by decide
  simp [headingRest?, hspace]

theorem strip_space_cons (text : Text) : strip (' ' :: text) = strip text := by
  have hspace : ∀ c ∈ [' '], isSpace c = true := by simp [isSpace]
  exact Trim.trim_append_left hspace text

/-- The last lines without the empty ones. -/
def trimEnd (lines : List Text) : List Text :=
  lines.rdropWhile List.isEmpty

theorem exists_trimEnd (lines : List Text) :
    ∃ k, lines = trimEnd lines ++ List.replicate k [] := by
  refine ⟨(lines.rtakeWhile List.isEmpty).length, ?_⟩
  conv_lhs => rw [← List.rdropWhile_append_rtakeWhile (p := List.isEmpty) (l := lines)]
  congr 1
  rw [List.eq_replicate_iff]
  refine ⟨rfl, fun line hline => ?_⟩
  exact List.isEmpty_iff.mp (List.mem_rtakeWhile_imp hline)

theorem trimEnd_append_of_any {back : List Text} (hany : ∃ line ∈ back, line ≠ [])
    (front : List Text) : trimEnd (front ++ back) = front ++ trimEnd back := by
  apply Trim.rdropWhile_append_of_any
  obtain ⟨line, hline, hne⟩ := hany
  exact ⟨line, hline, by simpa using hne⟩

/-! ## Reading the alternatives back -/

/-- What is read of one subsection. -/
def readChunk (chunk : Text × List Text) : Text × Option Text :=
  (strip chunk.1, reasonOf chunk.2)

/-- What is read of the lines of a section. -/
def readAlternatives (lines : List Text) : List (Text × Option Text) :=
  (subsections none lines).2.map readChunk

/-- A reason that is read back under its heading, when headings may not follow. -/
def ReasonReadable (noHeading : List Text → Prop) (reason : Option Text) : Prop :=
  ∀ r ∈ reason, r ≠ [] ∧ strip r = r ∧ noHeading (splitLines r)

/-- The alternatives that are read back as written: each name stands on one line, each reason
is trimmed and has no `###` heading. A bare `###` that ends the section is no heading. -/
def AlternativesReadable : List RejectedAlternative → Prop
  | [] => True
  | [r] => '\n' ∉ r.name ∧
      ReasonReadable (fun lines => (subsections none lines).2 = []) r.reason
  | r :: rest => '\n' ∉ r.name ∧
      ReasonReadable (fun lines => ∀ line ∈ lines, headingRest? line = none) r.reason ∧
      AlternativesReadable rest

theorem reasonOf_eq_none_of_blank {body : List Text} (h : inkLines body = 0) :
    reasonOf body = none := by
  have hnil : strip (joinLines body) = [] := by
    rw [strip, Trim.trim_eq_nil_iff]
    exact ink_eq_zero_iff.mp (by rw [ink_joinLines, h])
  simp [reasonOf, hnil]

/-- A reason that is read has the ink of the lines it is read from. -/
theorem inkLines_of_reasonOf {body : List Text} {r : Text} (h : reasonOf body = some r) :
    inkLines body = ink r ∧ strip r = r ∧ r ≠ [] := by
  unfold reasonOf at h
  simp only at h
  split at h
  · cases h
  · next hne =>
      cases h
      exact ⟨by rw [ink_strip, ink_joinLines], strip_strip _, hne⟩

theorem reasonOf_surround (r : Text) (hne : r ≠ []) (htrim : strip r = r) :
    reasonOf ([] :: splitLines r) = some r ∧ reasonOf ([] :: (splitLines r ++ [[]])) = some r := by
  have hlines := splitLines_ne_nil r
  have hnewline : ∀ c ∈ ['\n'], isSpace c = true := by simp [isSpace]
  have hfirst : joinLines ([] :: splitLines r) = '\n' :: r := by
    rw [show [] :: splitLines r = [[]] ++ splitLines r from rfl, joinLines_append (by simp) hlines,
      joinLines_splitLines]
    rfl
  have hstrip : strip ('\n' :: r) = r := (Trim.trim_append_left hnewline r).trans htrim
  constructor
  · rw [reasonOf, hfirst, hstrip, if_neg hne]
  · rw [reasonOf, show joinLines ([] :: (splitLines r ++ [[]])) = _ from joinLines_plainTail r,
      strip_newline_surround, htrim, if_neg hne]

/-- Reading a heading line and what follows it. -/
theorem readAlternatives_heading {first : Text} (hfirst : isBlank first = false)
    (rest : List Text) :
    readAlternatives (("### ".toList ++ first) :: rest) =
      (strip first, reasonOf (subsections none rest).1) :: readAlternatives rest := by
  have hblank : isBlank (' ' :: first) = false := by
    have hspace : isSpace ' ' = true := by decide
    simpa [isBlank, hspace] using hfirst
  rw [readAlternatives, subsections_heading (headingRest?_heading first) hblank]
  simp [readAlternatives, readChunk, strip_space_cons]

theorem trimEnd_cons {line : Text} (hline : line ≠ []) (lines : List Text) :
    trimEnd (line :: lines) = line :: trimEnd lines := by
  by_cases hany : ∃ l ∈ lines, l ≠ []
  · exact trimEnd_append_of_any hany [line]
  · have hall : ∀ l ∈ lines, l.isEmpty = true := by
      simpa using hany
    have hnil : trimEnd lines = [] := List.rdropWhile_eq_nil_iff.mpr hall
    rw [hnil, trimEnd, show line :: lines = [line] ++ lines from rfl,
      Trim.rdropWhile_append_of_all hall]
    simp [List.rdropWhile_singleton, hline]

theorem readAlternatives_blank (lines : List Text) :
    readAlternatives ([] :: lines) = readAlternatives lines := by
  have hplain : ∀ line ∈ [([] : Text)], headingRest? line = none := by simp [headingRest?]
  rw [readAlternatives, show [] :: lines = [[]] ++ lines from rfl, subsections_append hplain]
  rfl

/-- A trimmed text does not end in an empty line. -/
theorem trimEnd_append_splitLines {text : Text} (htrim : strip text = text) (hne : text ≠ [])
    (front : List Text) : trimEnd (front ++ splitLines text) = front ++ splitLines text := by
  apply Trim.rdropWhile_eq_self
  intro last hlast
  rw [List.getLast?_append_of_ne_nil _ (splitLines_ne_nil text), Option.mem_def] at hlast
  obtain ⟨before, hbefore⟩ := List.getLast?_eq_some_iff.mp hlast
  rw [List.isEmpty_eq_false_iff]
  rintro rfl
  have htext : joinLines (before ++ [[]]) = text := by
    rw [← hbefore, joinLines_splitLines]
  by_cases hnil : before = []
  · rw [hnil] at htext
    exact hne htext.symm
  · rw [joinLines_append hnil (by simp)] at htext
    have hend : text.getLast? = some '\n' := by
      rw [← htext]
      simp [joinLines]
    have := (Trim.trim_eq_self_iff.mp htrim).2 '\n' hend
    exact absurd this (by decide)

theorem reasonLines_some {r : Text} (hne : r ≠ []) :
    reasonLines (some r) = [] :: splitLines (strip r) := by
  simp [reasonLines, hne]

/-- What follows the heading of the last alternative. -/
theorem read_last_reason_iff (reason : Option Text) :
    (reasonOf (subsections none (trimEnd (reasonLines reason))).1 = reason ∧
        readAlternatives (trimEnd (reasonLines reason)) = []) ↔
      ReasonReadable (fun lines => (subsections none lines).2 = []) reason := by
  cases reason with
  | none => simp [reasonLines, trimEnd, readAlternatives, subsections, ReasonReadable, reasonOf,
      joinLines]
  | some r =>
      simp only [ReasonReadable, Option.mem_def, Option.some.injEq, forall_eq']
      have hlines : strip r = r → r ≠ [] →
          trimEnd (reasonLines (some r)) = [] :: splitLines r := by
        intro htrim hne
        rw [reasonLines_some hne, htrim]
        exact trimEnd_append_splitLines htrim hne [[]]
      constructor
      · rintro ⟨hreason, hchunks⟩
        obtain ⟨-, htrim, hne⟩ := inkLines_of_reasonOf hreason
        rw [hlines htrim hne, readAlternatives_blank] at hchunks
        exact ⟨hne, htrim, List.map_eq_nil_iff.mp hchunks⟩
      · rintro ⟨hne, htrim, hplain⟩
        rw [hlines htrim hne, readAlternatives_blank, readAlternatives, hplain]
        refine ⟨?_, rfl⟩
        have hchunks : (subsections none ([] :: splitLines r)).2 = [] := by
          rw [subsections]
          simpa [headingRest?] using hplain
        rw [subsections_preamble_of_nil hchunks]
        exact (reasonOf_surround r hne htrim).1

/-- What follows the heading of an alternative that is not the last; `rest` are the lines of
the others, which start with a heading. -/
theorem read_reason_iff (reason : Option Text) {rest : List Text}
    (hrest : (subsections none rest).1 = []) (hink : ∃ line ∈ rest, isBlank line = false)
    (expected : List (Text × Option Text)) :
    (reasonOf (subsections none (reasonLines reason ++ [] :: rest)).1 = reason ∧
        readAlternatives (reasonLines reason ++ [] :: rest) = expected) ↔
      ReasonReadable (fun lines => ∀ line ∈ lines, headingRest? line = none) reason ∧
        readAlternatives rest = expected := by
  have hplainRead : (∀ line ∈ reasonLines reason, headingRest? line = none) →
      (subsections none (reasonLines reason ++ [] :: rest)).1 = reasonLines reason ++ [[]] ∧
      readAlternatives (reasonLines reason ++ [] :: rest) = readAlternatives rest := by
    intro hplain
    have hall : ∀ line ∈ reasonLines reason ++ [[]], headingRest? line = none := by
      intro line hline
      rcases List.mem_append.mp hline with hin | hin
      · exact hplain line hin
      · rw [List.mem_singleton.mp hin]
        rfl
    rw [List.append_cons, readAlternatives, subsections_append hall, hrest, List.append_nil]
    exact ⟨rfl, rfl⟩
  constructor
  · rintro ⟨hreason, hread⟩
    by_cases hplain : ∀ line ∈ reasonLines reason, headingRest? line = none
    · rw [(hplainRead hplain).2] at hread
      refine ⟨?_, hread⟩
      intro r hr
      rw [Option.mem_def] at hr
      rw [hr] at hreason hplain
      obtain ⟨-, htrim, hne⟩ := inkLines_of_reasonOf hreason
      rw [reasonLines_some hne, htrim] at hplain
      exact ⟨hne, htrim, (List.forall_mem_cons.mp hplain).2⟩
    · -- the part before the first heading has less ink than the reason
      exfalso
      obtain ⟨front, line, name, back, hsplit, hfront, hheading⟩ := exists_first_heading hplain
      have hname : isBlank name = false ∨ ∃ l ∈ back ++ [] :: rest, isBlank l = false := by
        obtain ⟨l, hl, hblank⟩ := hink
        exact Or.inr ⟨l, by simp [hl], hblank⟩
      have hpreamble : (subsections none (reasonLines reason ++ [] :: rest)).1 = front := by
        rw [hsplit, List.append_assoc, subsections_append hfront, List.cons_append,
          subsections_heading_preamble hheading hname, List.append_nil]
      rw [hpreamble] at hreason
      cases reason with
      | none => simp [reasonLines] at hsplit
      | some r =>
          obtain ⟨hink', htrim, hne⟩ := inkLines_of_reasonOf hreason
          have htotal : inkLines (reasonLines (some r)) = ink r := by
            rw [reasonLines_some hne, inkLines_cons, inkLines_splitLines, ink_strip]
            simp
          rw [hsplit, inkLines_append, inkLines_cons] at htotal
          have := ink_ne_zero_of_headingRest? hheading
          omega
  · rintro ⟨hreadable, hread⟩
    cases reason with
    | none =>
        have hplain : ∀ line ∈ reasonLines none, headingRest? line = none := by
          simp [reasonLines]
        obtain ⟨hbody, hchunks⟩ := hplainRead hplain
        rw [hbody, hchunks]
        exact ⟨reasonOf_eq_none_of_blank rfl, hread⟩
    | some r =>
        obtain ⟨hne, htrim, hheadings⟩ := hreadable r rfl
        have hlines : reasonLines (some r) = [] :: splitLines r := by
          rw [reasonLines_some hne, htrim]
        have hplain : ∀ line ∈ reasonLines (some r), headingRest? line = none := by
          rw [hlines]
          exact List.forall_mem_cons.mpr ⟨rfl, hheadings⟩
        obtain ⟨hbody, hchunks⟩ := hplainRead hplain
        rw [hbody, hchunks, hlines]
        exact ⟨(reasonOf_surround r hne htrim).2, hread⟩

/-! ## All alternatives -/

/-- A section starts with a heading that has a name. -/
theorem exists_heading_trimEnd {alternatives : List RejectedAlternative}
    (hne : alternatives ≠ []) (htrim : ∀ r ∈ alternatives, strip r.name = r.name) :
    ∃ first more, trimEnd (alternativesLines alternatives) = ("### ".toList ++ first) :: more ∧
      isBlank first = false := by
  obtain ⟨r, rest, rfl⟩ := List.exists_cons_of_ne_nil hne
  obtain ⟨first, others, hlines, hblank⟩ := splitLines_name r.name_ne_nil (htrim r (by simp))
  by_cases hrest : rest = []
  · subst hrest
    refine ⟨first, trimEnd (others ++ reasonLines r.reason), ?_, hblank⟩
    rw [alternativesLines_singleton, splitLines_heading hlines, List.cons_append,
      trimEnd_cons (by simp)]
  · refine ⟨first, trimEnd (others ++ (reasonLines r.reason ++ [] :: alternativesLines rest)),
      ?_, hblank⟩
    rw [alternativesLines_cons hrest, splitLines_heading hlines, List.cons_append,
      trimEnd_cons (by simp)]

theorem alternativesLines_ink {alternatives : List RejectedAlternative}
    (hne : alternatives ≠ []) (htrim : ∀ r ∈ alternatives, strip r.name = r.name) :
    (subsections none (trimEnd (alternativesLines alternatives))).1 = [] ∧
      ∃ line ∈ trimEnd (alternativesLines alternatives), isBlank line = false := by
  obtain ⟨first, more, hlines, hblank⟩ := exists_heading_trimEnd hne htrim
  have hname : isBlank (' ' :: first) = false := by
    have hspace : isSpace ' ' = true := by decide
    simpa [isBlank, hspace] using hblank
  rw [hlines]
  refine ⟨?_, _, List.mem_cons_self .., ?_⟩
  · exact subsections_heading_preamble (headingRest?_heading first) (Or.inl hname)
  · have hhash : isSpace '#' = false := by decide
    simp [isBlank, hhash]

theorem alternativesReadable_cons {r : RejectedAlternative} {rest : List RejectedAlternative}
    (hrest : rest ≠ []) :
    AlternativesReadable (r :: rest) ↔ '\n' ∉ r.name ∧
      ReasonReadable (fun lines => ∀ line ∈ lines, headingRest? line = none) r.reason ∧
      AlternativesReadable rest := by
  obtain ⟨second, others, rfl⟩ := List.exists_cons_of_ne_nil hrest
  rfl

/-- Exactly the readable alternatives are read back from their lines. -/
theorem readAlternatives_iff {alternatives : List RejectedAlternative}
    (htrim : ∀ r ∈ alternatives, strip r.name = r.name) :
    readAlternatives (trimEnd (alternativesLines alternatives)) =
        alternatives.map (fun r => (r.name, r.reason)) ↔
      AlternativesReadable alternatives := by
  induction alternatives with
  | nil => simp [alternativesLines, paragraphLines, trimEnd, readAlternatives, subsections,
      AlternativesReadable]
  | cons r rest ih =>
      obtain ⟨hname, htrimRest⟩ := List.forall_mem_cons.mp htrim
      obtain ⟨first, others, hlines, hblank⟩ := splitLines_name r.name_ne_nil hname
      have hheading := splitLines_heading hlines
      have hfirst : '\n' ∉ first := by
        apply LineText.notMem_of_mem_splitOn
        change first ∈ splitLines r.name
        rw [hlines]
        exact List.mem_cons_self ..
      by_cases hnewline : '\n' ∈ r.name
      · -- the name that is read stands on one line
        have hread : ∃ reason more, readAlternatives (trimEnd (alternativesLines (r :: rest))) =
            (strip first, reason) :: more := by
          by_cases hrest : rest = []
          · subst hrest
            rw [alternativesLines_singleton, hheading, List.cons_append, trimEnd_cons (by simp),
              readAlternatives_heading hblank]
            exact ⟨_, _, rfl⟩
          · rw [alternativesLines_cons hrest, hheading, List.cons_append, trimEnd_cons (by simp),
              readAlternatives_heading hblank]
            exact ⟨_, _, rfl⟩
        obtain ⟨reason, more, hread⟩ := hread
        constructor
        · intro h
          exfalso
          rw [hread, List.map_cons] at h
          have hsame : strip first = r.name := congrArg Prod.fst (List.cons.inj h).1
          rw [← hsame] at hnewline
          exact hfirst (Trim.mem_of_mem_trim hnewline)
        · intro h
          exfalso
          by_cases hrest : rest = []
          · subst hrest
            exact h.1 hnewline
          · exact ((alternativesReadable_cons hrest).mp h).1 hnewline
      · have hsingle : first = r.name ∧ others = [] := by
          rw [splitLines_of_notMem hnewline] at hlines
          exact ⟨(List.cons.inj hlines).1.symm, (List.cons.inj hlines).2.symm⟩
        obtain ⟨rfl, rfl⟩ := hsingle
        by_cases hrest : rest = []
        · subst hrest
          rw [alternativesLines_singleton, hheading, List.singleton_append,
            trimEnd_cons (by simp), readAlternatives_heading hblank, hname, List.map_cons,
            List.map_nil, List.cons.injEq, Prod.mk.injEq, AlternativesReadable,
            ← read_last_reason_iff]
          simp [hnewline]
        · obtain ⟨hpreamble, line, hline, hink⟩ := alternativesLines_ink hrest htrimRest
          have hlineNe : line ≠ [] := by
            rintro rfl
            cases hink
          have hback : trimEnd ([] :: alternativesLines rest) =
              [] :: trimEnd (alternativesLines rest) := by
            refine trimEnd_append_of_any ⟨line, ?_, hlineNe⟩ [[]]
            exact (List.rdropWhile_prefix _ _).subset hline
          have hany : ∃ l ∈ [] :: alternativesLines rest, l ≠ [] :=
            ⟨line, List.mem_cons_of_mem _ ((List.rdropWhile_prefix _ _).subset hline), hlineNe⟩
          rw [alternativesLines_cons hrest, hheading, List.singleton_append,
            trimEnd_cons (by simp), trimEnd_append_of_any hany, hback,
            readAlternatives_heading hblank, hname, List.map_cons, List.cons.injEq,
            Prod.mk.injEq, alternativesReadable_cons hrest, ← ih htrimRest,
            ← read_reason_iff r.reason hpreamble ⟨line, hline, hink⟩]
          simp [hnewline]

/-! ## The text of a section -/

theorem joinLines_concat (front : List Text) (line : Text) :
    ∃ before, joinLines (front ++ [line]) = before ++ line := by
  by_cases hfront : front = []
  · exact ⟨[], by simp [hfront, joinLines]⟩
  · refine ⟨joinLines front ++ ['\n'], ?_⟩
    rw [joinLines_append hfront (by simp)]
    simp [joinLines]

theorem joinLines_append_replicate {lines : List Text} (hne : lines ≠ []) (k : Nat) :
    joinLines (lines ++ List.replicate k []) = joinLines lines ++ List.replicate k '\n' := by
  induction k with
  | zero => simp
  | succ k ih =>
      rw [List.replicate_succ', ← List.append_assoc, joinLines_append (by simp [hne]) (by simp), ih,
        List.replicate_succ', List.append_assoc]
      rfl

theorem newline_notMem_paragraphLines {parts : List Text} {line : Text}
    (hline : line ∈ paragraphLines parts) : '\n' ∉ line := by
  induction parts with
  | nil => cases hline
  | cons part parts ih =>
      by_cases hparts : parts = []
      · subst hparts
        exact LineText.notMem_of_mem_splitOn hline
      · rw [paragraphLines_cons hparts] at hline
        rcases List.mem_append.mp hline with hin | hin
        · exact LineText.notMem_of_mem_splitOn hin
        · rcases List.mem_cons.mp hin with rfl | hrest
          · exact List.not_mem_nil
          · exact ih hrest

/-- A text without white space at its end. -/
def EndsInked (text : Text) : Prop :=
  ∀ c ∈ text.getLast?, isSpace c = false

theorem endsInked_append {back : Text} (hne : back ≠ []) (h : EndsInked back) (front : Text) :
    EndsInked (front ++ back) := by
  intro c hc
  rw [List.getLast?_append_of_ne_nil _ hne] at hc
  exact h c hc

theorem endsInked_of_strip {text : Text} (h : strip text = text) : EndsInked text :=
  (Trim.trim_eq_self_iff.mp h).2

/-- The last line of a text that ends inked ends inked, and is not empty. -/
theorem getLast?_splitLines {text : Text} (hne : text ≠ []) (hend : EndsInked text) :
    ∃ front last, splitLines text = front ++ [last] ∧ last ≠ [] ∧ EndsInked last := by
  obtain ⟨last, hlast⟩ := List.getLast?_isSome.mpr (splitLines_ne_nil text) |> Option.isSome_iff_exists.mp
  obtain ⟨front, hfront⟩ := List.getLast?_eq_some_iff.mp hlast
  have htext : joinLines (front ++ [last]) = text := by
    rw [← hfront, joinLines_splitLines]
  have hlastNe : last ≠ [] := by
    rintro rfl
    by_cases hnil : front = []
    · rw [hnil] at htext
      exact hne htext.symm
    · rw [joinLines_append hnil (by simp)] at htext
      have hnewline : '\n' ∈ text.getLast? := by
        rw [← htext]
        simp [joinLines]
      exact absurd (hend '\n' hnewline) (by decide)
  refine ⟨front, last, hfront, hlastNe, ?_⟩
  obtain ⟨before, hbefore⟩ := joinLines_concat front last
  intro c hc
  apply hend c
  rw [← htext, hbefore, List.getLast?_append_of_ne_nil _ hlastNe]
  exact hc

theorem trimEnd_concat {last : Text} (hne : last ≠ []) (front : List Text) :
    trimEnd (front ++ [last]) = front ++ [last] := by
  apply Trim.rdropWhile_eq_self
  intro x hx
  rw [List.getLast?_concat, Option.mem_def, Option.some.injEq] at hx
  rw [← hx, List.isEmpty_eq_false_iff]
  exact hne

/-- Without its empty last lines, a run of paragraphs ends inked. -/
theorem endsInked_trimEnd_paragraphLines {parts : List Text} (hparts : ∀ part ∈ parts, EndsInked part) :
    ∀ last ∈ (trimEnd (paragraphLines parts)).getLast?, EndsInked last := by
  induction parts using List.reverseRecOn with
  | nil =>
      intro last hlast
      cases hlast
  | append_singleton front part ih =>
      intro last hlast
      have hfront := ih fun p hp => hparts p (List.mem_append_left _ hp)
      have hshape : ∃ before, paragraphLines (front ++ [part]) = before ++ splitLines part ∧
          ∀ last ∈ (trimEnd before).getLast?, EndsInked last := by
        by_cases hnil : front = []
        · exact ⟨[], by simp [hnil, paragraphLines], by simp [trimEnd]⟩
        · refine ⟨paragraphLines front ++ [[]], ?_, ?_⟩
          · rw [paragraphLines_append hnil (by simp)]
            simp [paragraphLines]
          · rw [trimEnd, Trim.rdropWhile_append_of_all (by simp)]
            exact hfront
      obtain ⟨before, hbefore, hended⟩ := hshape
      rw [hbefore] at hlast
      by_cases hpart : part = []
      · rw [hpart, trimEnd, Trim.rdropWhile_append_of_all (by simp [splitLines])] at hlast
        exact hended last hlast
      · obtain ⟨lines, final, hlines, hne, hink⟩ :=
          getLast?_splitLines hpart (hparts part (by simp))
        rw [hlines, ← List.append_assoc, trimEnd_concat hne, List.getLast?_concat,
          Option.mem_def, Option.some.injEq] at hlast
        rw [← hlast]
        exact hink

theorem endsInked_alternativeParts {r : RejectedAlternative} (htrim : strip r.name = r.name) :
    ∀ part ∈ alternativeParts r, EndsInked part := by
  have hheading : EndsInked ("### ".toList ++ r.name) :=
    endsInked_append r.name_ne_nil (endsInked_of_strip htrim) _
  unfold alternativeParts
  intro part hpart
  rcases List.mem_cons.mp hpart with rfl | hreason
  · exact hheading
  · cases hr : r.reason with
    | none =>
        rw [hr] at hreason
        cases hreason
    | some reason =>
        rw [hr] at hreason
        simp only at hreason
        split at hreason
        · cases hreason
        · rw [List.mem_singleton.mp hreason]
          exact endsInked_of_strip (strip_strip reason)

/-- The lines that are read of a written section. -/
theorem splitLines_strip_alternatives {alternatives : List RejectedAlternative}
    (hne : alternatives ≠ []) (htrim : ∀ r ∈ alternatives, strip r.name = r.name) :
    splitLines (strip (joinLines ([] :: (alternativesLines alternatives ++ [[]])))) =
      trimEnd (alternativesLines alternatives) := by
  have hparts : ∀ part ∈ alternatives.flatMap alternativeParts, EndsInked part := by
    intro part hpart
    obtain ⟨a, ha, hin⟩ := List.mem_flatMap.mp hpart
    exact endsInked_alternativeParts (htrim a ha) part hin
  obtain ⟨first, more, hlines, -⟩ := exists_heading_trimEnd hne htrim
  have htrimNe : trimEnd (alternativesLines alternatives) ≠ [] := by simp [hlines]
  obtain ⟨k, hk⟩ := exists_trimEnd (alternativesLines alternatives)
  have hhead : ∃ tail, joinLines (trimEnd (alternativesLines alternatives)) = '#' :: tail := by
    rw [hlines]
    cases more with
    | nil => exact ⟨_, rfl⟩
    | cons second more =>
        rw [joinLines, LineText.intercalate_cons_cons]
        exact ⟨_, rfl⟩
  obtain ⟨tail, htail⟩ := hhead
  have hended : EndsInked (joinLines (trimEnd (alternativesLines alternatives))) := by
    have hlast := List.getLast?_eq_some_getLast htrimNe
    obtain ⟨front, hfront⟩ := List.getLast?_eq_some_iff.mp hlast
    have hlastNe := Trim.getLast?_rdropWhile (alternativesLines alternatives) _ hlast
    rw [List.isEmpty_eq_false_iff] at hlastNe
    generalize (trimEnd (alternativesLines alternatives)).getLast htrimNe = last
      at hlast hfront hlastNe
    obtain ⟨before, hbefore⟩ := joinLines_concat front last
    have hinked := endsInked_trimEnd_paragraphLines hparts last hlast
    rw [hfront, hbefore]
    exact endsInked_append hlastNe hinked before
  have hstrip : strip (joinLines (trimEnd (alternativesLines alternatives))) =
      joinLines (trimEnd (alternativesLines alternatives)) := by
    apply Trim.trim_eq_self
    refine ⟨?_, hended⟩
    rw [htail]
    intro c hc
    cases hc
    decide
  have hpad : ∀ c ∈ List.replicate k '\n', isSpace c = true := by
    intro c hc
    rw [List.eq_of_mem_replicate hc]
    decide
  have htext : joinLines ([] :: (alternativesLines alternatives ++ [[]])) =
      '\n' :: (joinLines (alternativesLines alternatives) ++ ['\n']) := by
    have hall : alternativesLines alternatives ≠ [] := by
      intro hnil
      rw [hnil] at htrimNe
      exact htrimNe rfl
    rw [show [] :: (alternativesLines alternatives ++ [[]]) =
      [[]] ++ (alternativesLines alternatives ++ [[]]) from rfl,
      joinLines_append (by simp) (by simp), joinLines_append hall (by simp)]
    rfl
  rw [htext, strip_newline_surround]
  conv_lhs => rw [hk]
  rw [joinLines_append_replicate htrimNe, strip, Trim.trim_append_right hpad]
  change splitLines (strip _) = _
  rw [hstrip, splitLines_joinLines htrimNe]
  intro line hline
  exact newline_notMem_paragraphLines ((List.rdropWhile_prefix _ _).subset hline)

theorem make?_eq_some_iff {name : Text} {reason : Option Text} {r : RejectedAlternative} :
    RejectedAlternative.make? name reason = some r ↔ (name, reason) = (r.name, r.reason) := by
  unfold RejectedAlternative.make?
  split
  · cases r
    simp
  · next h =>
      simp only [reduceCtorEq, Prod.mk.injEq, false_iff, not_and]
      rintro rfl
      exact absurd r.name_ne_nil h

theorem mapM_make?_eq_some_iff (chunks : List (Text × List Text))
    (alternatives : List RejectedAlternative) :
    (chunks.mapM fun chunk => RejectedAlternative.make? (strip chunk.1) (reasonOf chunk.2)) =
        some alternatives ↔
      chunks.map readChunk = alternatives.map (fun r => (r.name, r.reason)) := by
  induction chunks generalizing alternatives with
  | nil =>
      cases alternatives with
      | nil => simp
      | cons r rest => simp
  | cons chunk chunks ih =>
      rw [List.mapM_cons]
      cases alternatives with
      | nil =>
          simp [Option.bind_eq_some_iff]
      | cons r rest =>
          simp only [Option.bind_eq_bind, Option.bind_eq_some_iff, Option.pure_def,
            Option.some.injEq, List.cons.injEq, List.map_cons, readChunk, ← ih rest]
          constructor
          · rintro ⟨first, hfirst, others, hothers, rfl, rfl⟩
            exact ⟨make?_eq_some_iff.mp hfirst, hothers⟩
          · rintro ⟨hfirst, hothers⟩
            exact ⟨r, make?_eq_some_iff.mpr hfirst, rest, hothers, rfl, rfl⟩

/-- The section written for some alternatives reads back as them just when they are readable. -/
theorem parseRejectedSubsections_written_iff {alternatives : List RejectedAlternative}
    (hne : alternatives ≠ []) (htrim : ∀ r ∈ alternatives, strip r.name = r.name) :
    parseRejectedSubsections
        (strip (joinLines ([] :: (alternativesLines alternatives ++ [[]])))) =
          some alternatives ↔
      AlternativesReadable alternatives := by
  have hlines := splitLines_strip_alternatives hne htrim
  obtain ⟨-, line, hline, hink⟩ := alternativesLines_ink hne htrim
  have hnonblank : strip (strip (joinLines ([] :: (alternativesLines alternatives ++ [[]])))) ≠
      [] := by
    rw [strip_strip]
    intro hnil
    rw [hnil] at hlines
    rw [← hlines, splitLines, List.splitOn_nil, List.mem_singleton] at hline
    rw [hline] at hink
    cases hink
  rw [parseRejectedSubsections, if_neg hnonblank, hlines, ← readAlternatives_iff htrim]
  exact mapM_make?_eq_some_iff _ alternatives

end Core
end Nauro
