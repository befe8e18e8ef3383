import Nauro.Client.AgentsSections
import Nauro.Core.QuestionLines
import Mathlib.Data.List.Infix

/-!
# The guidance file regenerated

A regeneration writes the user's sections behind a part that is generated from the store. They are
read back from it unless a header line is among the lines of either.
-/

namespace Nauro
namespace Client
namespace AgentsMd

open Foundation Nauro.Core Nauro.Core.Questions

/-! ## The generated part -/

/-- The lines above the user's sections, as they are read. -/
def generatedLines (now : Moment) (g : Guidance) : List Text :=
  splitLines (universalNewlines (joinLines (generatedParts now g)))

theorem splitLines_joinLines_cons (first next : Text) (rest : List Text) :
    splitLines (joinLines (first :: next :: rest)) =
      splitLines first ++ splitLines (joinLines (next :: rest)) := by
  rw [joinLines_cons_cons, splitLines_append_newline]

theorem Body.rstripNewlines_eq {s : Text} (h : Body s) : rstripNewlines s = s := by
  apply Trim.rdropWhile_eq_self
  intro c hc
  by_contra hline
  have hnewline : c = '\n' := by simpa using hline
  have hblank := h.last_ink c hc
  rw [hnewline] at hblank
  exact absurd hblank (by decide)

theorem Body.splitLines_part {p : PreservedSections} {a : UserSection} {s : Text} (h : Body s)
    (hs : p.get a = some s) :
    ∃ part, sectionPart p.manual p.skills a = some part ∧ splitLines part = sectionLines a s := by
  have hlines : splitLines (a.header ++ '\n' :: '\n' :: (s ++ ['\n'])) = sectionLines a s := by
    have hlast : splitLines (s ++ ['\n']) = splitLines s ++ [[]] := splitLines_append_newline s []
    rw [splitLines_append_newline, splitLines_newline_cons, hlast,
      splitLines_of_notMem (newline_notMem_header a)]
    rfl
  refine ⟨a.header ++ '\n' :: '\n' :: (s ++ ['\n']), ?_, hlines⟩
  cases a with
  | skills =>
      rw [PreservedSections.get] at hs
      rw [sectionPart, hs, Option.map_some, h.rstripNewlines_eq]
      simp [UserSection.header]
  | manual =>
      rw [PreservedSections.get] at hs
      unfold sectionPart
      rw [hs]
      dsimp only
      rw [if_neg h.notEmpty, h.rstripNewlines_eq]
      simp [UserSection.header]

theorem sectionParts_lines {p : PreservedSections} (hp : Readable p) :
    splitLines (joinLines (((if p.order = [] then none else some p.order).getD
      (defaultSectionOrder p.skills.isSome)).filterMap (sectionPart p.manual p.skills) ++ [footer])) =
      userLines p := by
  have hfooter : splitLines (joinLines [footer]) = footerLines := by
    rw [joinLines_singleton, footerLines]
  cases hp with
  | none =>
      have hpart : splitLines (manualSectionHeader ++ ['\n']) = [manualSectionHeader, []] := by
        decide
      have hparts : ((if ([] : List UserSection) = [] then none else some []).getD
          (defaultSectionOrder (none : Option Text).isSome)).filterMap (sectionPart none none) =
          [manualSectionHeader ++ ['\n']] := rfl
      rw [hparts, userLines_none, List.singleton_append, splitLines_joinLines_cons, hpart, hfooter,
        List.cons_append, List.singleton_append]
  | @one s a hs =>
      have hget : (oneSection a s).get a = some s := by cases a <;> rfl
      obtain ⟨part, hpart, hlines⟩ := hs.splitLines_part hget
      have horder : (oneSection a s).order = [a] := by cases a <;> rfl
      rw [horder, if_neg (List.cons_ne_nil _ _), Option.getD_some, List.filterMap_cons_some hpart,
        List.filterMap_nil, List.singleton_append, splitLines_joinLines_cons, hlines, hfooter,
        userLines, horder, if_neg (List.cons_ne_nil _ _), List.flatMap_singleton, hget,
        Option.getD_some]
  | @two s t a hs ht =>
      have hget : (twoSections a s t).get a = some s := by cases a <;> rfl
      have hget' : (twoSections a s t).get a.other = some t := by cases a <;> rfl
      obtain ⟨part, hpart, hlines⟩ := hs.splitLines_part hget
      obtain ⟨part', hpart', hlines'⟩ := ht.splitLines_part hget'
      have horder : (twoSections a s t).order = [a, a.other] := by cases a <;> rfl
      rw [horder, if_neg (List.cons_ne_nil _ _), Option.getD_some, List.filterMap_cons_some hpart,
        List.filterMap_cons_some hpart', List.filterMap_nil, List.cons_append,
        List.singleton_append, splitLines_joinLines_cons, splitLines_joinLines_cons, hlines, hlines',
        hfooter, userLines, horder, if_neg (List.cons_ne_nil _ _)]
      simp [hget, hget']

/-- The generated file: the generated part and the lines of the user's part. -/
theorem regenerated_eq (now : Moment) (g : Guidance) {p : PreservedSections} (hp : Readable p) :
    regenerated now g p =
      joinLines (generatedParts now g) ++ '\n' :: joinLines (userLines p) := by
  have hparts : generatedParts now g ≠ [] := List.cons_ne_nil _ _
  rw [regenerated, generateAgentsMd, List.append_assoc, joinLines_append hparts (by simp), ← sectionParts_lines hp,
    joinLines_splitLines]

def editNotice : Text :=
  ("<!-- Do not edit above the Manual section -" ++
    " changes will be overwritten on next `nauro sync`. -->").toList

/-- The notices that close the file and follow its title are single lines of one style. -/
theorem notMem_noticeTexts :
    '\r' ∉ footer ∧ '\r' ∉ editNotice ∧ '\n' ∉ editNotice := by
  unfold footer editNotice
  repeat rw [String.toList_append]
  repeat rw [String.toList_ofList]
  decide +kernel

theorem cr_notMem_userLines {p : PreservedSections} (hp : Readable p) :
    '\r' ∉ joinLines (userLines p) := by
  have hheader (a : UserSection) : '\r' ∉ a.header := by cases a <;> decide
  have hfooter : ∀ line ∈ footerLines, '\r' ∉ line := by
    intro line hline hin
    exact notMem_noticeTexts.1 (mem_of_mem_splitLines hline hin)
  have hbody {s : Text} (hs : Body s) : ∀ line ∈ splitLines s, '\r' ∉ line :=
    fun line hline hin => hs.unixLines (mem_of_mem_splitLines hline hin)
  have hlines : ∀ line ∈ userLines p, '\r' ∉ line := by
    cases hp with
    | none =>
        rw [userLines_none, List.forall_mem_cons, List.forall_mem_cons]
        exact ⟨hheader .manual, List.not_mem_nil, hfooter⟩
    | one a hs =>
        rw [userLines_one]
        simp only [List.forall_mem_cons, List.forall_mem_append]
        exact ⟨hheader a, List.not_mem_nil, hbody hs, List.not_mem_nil, hfooter⟩
    | two a hs ht =>
        rw [userLines_two]
        simp only [List.forall_mem_cons, List.forall_mem_append]
        exact ⟨hheader a, List.not_mem_nil, hbody hs, List.not_mem_nil, hheader a.other,
          List.not_mem_nil, hbody ht, List.not_mem_nil, hfooter⟩
  intro hin
  rcases mem_joinLines hin with hnewline | ⟨line, hline, hcr⟩
  · exact absurd hnewline (by decide)
  · exact hlines line hline hcr

theorem generatedParts_end (now : Moment) (g : Guidance) :
    ∃ before, joinLines (generatedParts now g) = before ++ ['\n'] := by
  have hparts : generatedParts now g = (generatedParts now g).dropLast ++ [toolsSection] := rfl
  have hlast : toolsSection.getLast? = some '\n' := by
    unfold toolsSection
    repeat rw [String.toList_append]
    repeat rw [String.toList_ofList]
    decide +kernel
  obtain ⟨tools, htools⟩ := List.getLast?_eq_some_iff.mp hlast
  have hne : (generatedParts now g).dropLast ≠ [] := List.cons_ne_nil _ _
  refine ⟨joinLines (generatedParts now g).dropLast ++ '\n' :: tools, ?_⟩
  rw [hparts, joinLines_append hne (List.cons_ne_nil _ _), joinLines_singleton, htools]
  simp

/-- The generated file as it is read. -/
theorem read_regenerated (now : Moment) (g : Guidance) {p : PreservedSections} (hp : Readable p) :
    universalNewlines (regenerated now g p) =
      joinLines (generatedLines now g ++ userLines p) := by
  obtain ⟨before, hbefore⟩ := generatedParts_end now g
  have huser : userLines p ≠ [] := by
    rw [← sectionParts_lines hp]
    exact splitLines_ne_nil _
  rw [regenerated_eq now g hp, generatedLines,
    joinLines_append (splitLines_ne_nil _) huser, joinLines_splitLines, hbefore, List.append_assoc,
    List.singleton_append, universalNewlines_append_of_ne (by decide),
    universalNewlines_cons (by decide), universalNewlines_of_notMem (cr_notMem_userLines hp)]

/-! ## Guidance without headers -/

/-- A line of joined parts is a line of one of them. -/
theorem mem_lines_joinLines {line : Text} (hink : line ≠ []) {parts : List Text}
    (hparts : parts ≠ []) :
    line ∈ splitLines (universalNewlines (joinLines parts)) ↔
      ∃ part ∈ parts, line ∈ splitLines (universalNewlines part) := by
  induction parts with
  | nil => exact absurd rfl hparts
  | cons part parts ih =>
      cases parts with
      | nil => simp [joinLines_singleton]
      | cons next rest =>
          have hrest := ih (List.cons_ne_nil _ _)
          rw [joinLines_cons_cons, List.exists_mem_cons_iff, ← hrest]
          rcases splitLines_universalNewlines_append part (joinLines (next :: rest)) with
            hsplit | ⟨lines, -, hfront, hsplit⟩
          · rw [hsplit, List.mem_append]
          · rw [hsplit, hfront, List.mem_append, List.mem_append, List.mem_singleton,
              or_iff_left hink]

/-- No line that comes from the store or the registry is a header. -/
def Plain (g : Guidance) : Prop :=
  ∀ part ∈ [contextPart g, projectPart g, storePart g],
    HeaderFree (splitLines (universalNewlines part))

theorem mem_stamp {now : Moment} {c : Char} (h : c ∈ now.stamp) :
    c.isDigit = true ∨ c ∈ "-T:Z".toList := by
  simp only [Moment.stamp, List.mem_append, List.mem_cons, List.append_assoc, List.cons_append,
    List.not_mem_nil, or_false] at h
  rcases h with h | rfl | h | rfl | h | rfl | h | rfl
  · exact (mem_isoformat h).imp_right fun hc => by rw [hc]; decide
  · exact Or.inr (by decide)
  · exact Or.inl (isDigit_of_mem_padNumber h)
  · exact Or.inr (by decide)
  · exact Or.inl (isDigit_of_mem_padNumber h)
  · exact Or.inr (by decide)
  · exact Or.inl (isDigit_of_mem_padNumber h)
  · exact Or.inr (by decide)

theorem notMem_stamp (now : Moment) : '\n' ∉ now.stamp ∧ '\r' ∉ now.stamp := by
  constructor
  · intro hin
    rcases mem_stamp hin with hdigit | hmark
    · exact absurd hdigit (by decide)
    · exact absurd hmark (by decide)
  · intro hin
    rcases mem_stamp hin with hdigit | hmark
    · exact absurd hdigit (by decide)
    · exact absurd hmark (by decide)

/-- The line with the time of the regeneration. -/
def stampLine (now : Moment) : Text :=
  headerMarker ++ now.stamp ++ "). -->".toList

theorem titlePart_eq (now : Moment) :
    titlePart now = "# AGENTS.md".toList ++ '\n' :: (stampLine now ++
      '\n' :: (editNotice ++ ['\n'])) := by
  unfold titlePart stampLine headerMarker editNotice
  repeat rw [String.toList_append]
  repeat rw [String.toList_ofList]
  simp only [List.append_assoc, List.cons_append, List.nil_append]

theorem splitLines_titlePart (now : Moment) :
    splitLines (titlePart now) = ["# AGENTS.md".toList, stampLine now, editNotice, []] := by
  have hline : '\n' ∉ stampLine now := by
    have hmarker : '\n' ∉ headerMarker := by decide
    have hclose : '\n' ∉ "). -->".toList := by decide
    simp only [stampLine, List.mem_append, not_or]
    exact ⟨⟨hmarker, (notMem_stamp now).1⟩, hclose⟩
  have hfirst : '\n' ∉ "# AGENTS.md".toList := by decide
  have hlast : '\n' ∉ editNotice := notMem_noticeTexts.2.2
  rw [titlePart_eq, splitLines_append_newline, splitLines_append_newline,
    splitLines_append_newline, splitLines_of_notMem hfirst, splitLines_of_notMem hline,
    splitLines_of_notMem hlast]
  rfl

theorem cr_notMem_titlePart (now : Moment) : '\r' ∉ titlePart now := by
  have hmarker : '\r' ∉ headerMarker := by decide
  have hlast : '\r' ∉ editNotice := notMem_noticeTexts.2.1
  rw [titlePart_eq, stampLine]
  simp [hmarker, hlast, (notMem_stamp now).2]

/-- The parts that are the same in every file. -/
def fixedParts : List Text :=
  [protocolDigest, noToolsNotice, evidenceRiderSection, toolsSection]

/-- Neither a carriage return nor a header line. -/
def isFixed (part : Text) : Bool :=
  !part.contains '\r' && !(splitLines part).contains skillsSectionHeader &&
    !(splitLines part).contains manualSectionHeader

theorem isFixed_fixedParts :
    isFixed protocolDigest = true ∧ isFixed noToolsNotice = true ∧
      isFixed evidenceRiderSection = true ∧ isFixed toolsSection = true ∧
        isFixed payloadNotice = true := by
  unfold protocolDigest proposalAdmission approvalBeforePropose approvalBeforeStateWrite
    noToolsNotice evidenceRiderSection toolsSection payloadNotice
  repeat rw [String.toList_append]
  repeat rw [String.toList_ofList]
  decide +kernel

theorem isFixed_spec {part : Text} (h : isFixed part = true) :
    '\r' ∉ part ∧ ∀ a : UserSection, a.header ∉ splitLines part := by
  simp only [isFixed, Bool.not_eq_true', List.contains_eq_mem, decide_eq_false_iff_not,
    Bool.and_eq_true] at h
  refine ⟨h.1.1, ?_⟩
  rintro (_ | _)
  · exact h.1.2
  · exact h.2

theorem fixedParts_plain {part : Text} (h : part ∈ fixedParts) :
    '\r' ∉ part ∧ ∀ a : UserSection, a.header ∉ splitLines part := by
  apply isFixed_spec
  simp only [fixedParts, List.mem_cons, List.not_mem_nil, or_false] at h
  rcases h with heq | heq | heq | heq
  · rw [heq, isFixed_fixedParts.1]
  · rw [heq, isFixed_fixedParts.2.1]
  · rw [heq, isFixed_fixedParts.2.2.1]
  · rw [heq, isFixed_fixedParts.2.2.2.1]

theorem mem_generatedParts {now : Moment} {g : Guidance} {part : Text} :
    part ∈ generatedParts now g ↔
      part = titlePart now ∨ part ∈ fixedParts ∨
        part ∈ [contextPart g, projectPart g, storePart g] := by
  have hshuffle (a b c d e f g h : Text) : part ∈ [a, b, c, d, e, f, g, h] ↔
      part = a ∨ part ∈ [b, c, d, h] ∨ part ∈ [e, f, g] := by
    simp only [List.mem_cons, List.not_mem_nil, or_false]
    tauto
  exact hshuffle _ _ _ _ _ _ _ _

theorem headerFree_titlePart (now : Moment) :
    HeaderFree (splitLines (universalNewlines (titlePart now))) := by
  have hhead (a : UserSection) {line : Text} (hline : line.head? = some '<') : a.header ≠ line := by
    intro heq
    rw [← heq] at hline
    cases a <;> exact absurd hline (by decide)
  have htitle (a : UserSection) : a.header ≠ "# AGENTS.md".toList := by
    cases a <;> decide
  have hstamp : (stampLine now).head? = some '<' := by
    unfold stampLine headerMarker
    repeat rw [String.toList_ofList]
    rfl
  have hnotice : editNotice.head? = some '<' := by
    unfold editNotice
    rw [String.toList_append]
    repeat rw [String.toList_ofList]
    rfl
  intro a hin
  rw [universalNewlines_of_notMem (cr_notMem_titlePart now), splitLines_titlePart] at hin
  simp only [List.mem_cons, List.not_mem_nil, or_false] at hin
  rcases hin with heq | heq | heq | heq
  · exact htitle a heq
  · exact hhead a hstamp heq
  · exact hhead a hnotice heq
  · exact header_ne_nil a heq

/-- The generated part has a header line just when one comes from the store or the registry. -/
theorem headerFree_generatedLines {now : Moment} {g : Guidance} :
    HeaderFree (generatedLines now g) ↔ Plain g := by
  have hparts : generatedParts now g ≠ [] := List.cons_ne_nil _ _
  have hmem (a : UserSection) : a.header ∈ generatedLines now g ↔
      ∃ part ∈ generatedParts now g, a.header ∈ splitLines (universalNewlines part) :=
    mem_lines_joinLines (header_ne_nil a) hparts
  constructor
  · intro h part hpart a hin
    exact h a ((hmem a).mpr ⟨part, mem_generatedParts.mpr (Or.inr (Or.inr hpart)), hin⟩)
  · intro h a hin
    obtain ⟨part, hpart, hline⟩ := (hmem a).mp hin
    rcases mem_generatedParts.mp hpart with rfl | hfixed | hstore
    · exact headerFree_titlePart now a hline
    · obtain ⟨hcr, hfree⟩ := fixedParts_plain hfixed
      rw [universalNewlines_of_notMem hcr] at hline
      exact hfree a hline
    · exact h part hstore a hline

/-- With guidance of that kind, sections are read back just when none has the other's header. -/
theorem parse_regenerated {now : Moment} {g : Guidance} {p : PreservedSections} (hp : Readable p)
    (hg : Plain g) :
    parsePreservedSections (some (universalNewlines (regenerated now g p))) = p ↔ Separable p := by
  rw [read_regenerated now g hp]
  exact parse_userLines (fun _ hline => LineText.notMem_of_mem_splitOn hline)
    (headerFree_generatedLines.mpr hg) hp

/-! ## A header in the guidance -/

theorem mem_rstrip {c : Char} (hink : isSpace c = false) {text : Text} (hc : c ∈ text) :
    c ∈ rstrip text := by
  rw [← List.rdropWhile_append_rtakeWhile (p := isSpace) (l := text)] at hc
  rcases List.mem_append.mp hc with hin | hin
  · exact hin
  · rw [List.mem_rtakeWhile_imp hin] at hink
    cases hink

theorem mem_strip {c : Char} (hink : isSpace c = false) {text : Text} (hc : c ∈ text) :
    c ∈ strip text := by
  obtain ⟨front, back, hsplit, hfront, hback⟩ := Trim.exists_trim (p := isSpace) text
  rw [hsplit, List.mem_append, List.mem_append] at hc
  rcases hc with hin | hin | hin
  · rw [hfront c hin] at hink
    cases hink
  · exact hin
  · rw [hback c hin] at hink
    cases hink

theorem mem_dropSeparators {c : Char} (hdash : c ≠ '-') (hink : isSpace c = false) (fuel : Nat)
    {text : Text} (hc : c ∈ text) : c ∈ dropSeparators fuel text := by
  induction fuel generalizing text with
  | zero => exact hc
  | succ fuel ih =>
      rw [dropSeparators]
      split_ifs with hsuffix
      · obtain ⟨before, rfl⟩ := List.isSuffixOf_iff_suffix.mp hsuffix
        have hbefore : (before ++ "---".toList).take ((before ++ "---".toList).length - 3) = before := by
          apply List.take_left'
          simp
        rw [hbefore]
        have hin : c ∈ before := by
          rcases List.mem_append.mp hc with hin | hin
          · exact hin
          · exact absurd hin (by simp [hdash])
        exact ih (mem_rstrip hink hin)
      · exact hc

/-- A character that is no white space and no dash stays in a section. -/
theorem mem_sectionText {c : Char} (hdash : c ≠ '-') (hink : isSpace c = false) {text : Text}
    (hc : c ∈ text) : c ∈ sectionText text :=
  mem_strip hink (mem_dropSeparators hdash hink _ (mem_rstrip hink hc))

/-- A text of one character, longer than `n`. -/
def filler (n : Nat) : Text :=
  List.replicate (n + 1) 'x'

theorem mem_filler {n : Nat} {c : Char} (h : c ∈ filler n) : c = 'x' :=
  (List.mem_replicate.mp h).2

theorem body_filler (n : Nat) : Body (filler n) := by
  have hends : Trim.Trimmed isSpace (filler n) := by
    constructor
    · intro c hc
      rw [mem_filler (List.mem_of_mem_head? hc)]
      decide
    · intro c hc
      rw [mem_filler (List.mem_of_getLast? hc)]
      decide
  refine ⟨List.cons_ne_nil _ _, Trim.trim_eq_self hends, ?_, ?_, ?_⟩
  · intro hsuffix
    exact absurd (mem_filler (hsuffix.subset (show '-' ∈ "---".toList by decide))) (by decide)
  · intro hwithin
    exact absurd (mem_filler (hwithin.subset (show '*' ∈ footerMarker by decide))) (by decide)
  · exact fun hin => absurd (mem_filler hin) (by decide)

theorem separable_filler (a : UserSection) (n : Nat) : Separable (oneSection a (filler n)) := by
  have hline : '\n' ∉ filler n := fun hin => absurd (mem_filler hin) (by decide)
  have hmark : '#' ∈ a.other.header := by cases a <;> decide
  rw [separable_one, splitLines_of_notMem hline, List.mem_singleton]
  intro heq
  rw [heq] at hmark
  exact absurd (mem_filler hmark) (by decide)

/-- A header line above the user's part is taken for the section's own. -/
theorem headerFree_of_preserved {front : List Text} (hplain : ∀ line ∈ front, '\n' ∉ line)
    (h : ∀ p, Readable p → Separable p →
      parsePreservedSections (some (joinLines (front ++ userLines p))) = p) : HeaderFree front := by
  intro a hin
  obtain ⟨before, after, hsplit, hfirst⟩ := List.eq_append_cons_of_mem hin
  -- the section is longer than anything above it
  let s : Text := filler (offset front)
  have hs : Body s := body_filler _
  have hread := h (oneSection a s) (.one a hs) (separable_filler a _)
  rw [parse_eq_one, hsplit, List.append_assoc, List.cons_append] at hread
  have hlines : ∀ line ∈ before ++ a.header :: (after ++ userLines (oneSection a s)),
      '\n' ∉ line := by
    intro line hline
    rw [← List.cons_append, ← List.append_assoc, ← hsplit, userLines_one] at hline
    rcases List.mem_append.mp hline with hin | hin
    · exact hplain line hin
    · rcases List.mem_cons.mp hin with rfl | hin
      · exact newline_notMem_header a
      · exact newline_notMem_padding (fun _ => newline_notMem_footerLines) hin
  have hback : after ++ userLines (oneSection a s) ≠ [] := by
    rw [userLines_one]
    simp
  obtain ⟨-, hsection⟩ := sectionOf_lines hfirst hback hlines
  rw [hsection] at hread
  have hbody := hread.1
  dsimp only at hbody
  split_ifs at hbody
  have htext := Option.some.inj hbody
  set rest := joinLines (after ++ userLines (oneSection a s)) with hrest
  obtain ⟨above, more, hshape, hshort⟩ : ∃ above more, rest = above ++ '#' :: more ∧
      above.length ≤ offset front := by
    obtain ⟨more, hmore⟩ : ∃ more, joinLines (userLines (oneSection a s)) = '#' :: more := by
      rw [userLines_one, joinLines_cons_cons]
      cases a with
      | skills => exact ⟨_, rfl⟩
      | manual => exact ⟨_, rfl⟩
    by_cases hafter : after = []
    · refine ⟨[], more, ?_, Nat.zero_le _⟩
      rw [hrest, hafter, List.nil_append, hmore]
      rfl
    · refine ⟨joinLines after ++ ['\n'], more, ?_, ?_⟩
      · rw [hrest, joinLines_append hafter (by rw [userLines_one]; exact List.cons_ne_nil _ _), hmore]
        simp
      · obtain ⟨line, others, hcons⟩ := List.exists_cons_of_ne_nil hafter
        have hlength := length_joinLines_cons line others
        rw [hcons, List.length_append, List.length_singleton, hlength, hsplit, hcons]
        simp only [offset, List.map_append, List.map_cons, List.sum_append, List.sum_cons]
        omega
  by_cases hend : sectionEnd a.other.header rest ≤ above.length
  · have hle := (sectionText_isInside (rest.take (sectionEnd a.other.header rest))).length_le
    rw [htext, List.length_take] at hle
    have hlong : s.length = offset front + 1 := List.length_replicate
    omega
  · have hmark : '#' ∈ rest.take (sectionEnd a.other.header rest) := by
      obtain ⟨k, hk⟩ := Nat.exists_eq_add_of_lt (Nat.not_le.mp hend)
      rw [hk, hshape, Nat.add_assoc, List.take_length_add_append, List.take_succ_cons]
      simp
    have hin := mem_sectionText (by decide) (by decide) hmark
    rw [htext] at hin
    exact absurd (mem_filler hin) (by decide)

/-! ## Runs of regenerations -/

/-- The user's sections of a file. -/
def userSections (file : Option Text) : PreservedSections :=
  parsePreservedSections (file.map universalNewlines)

/-- One call: how it treats unmanaged files, when it runs, and what the project contributes. -/
structure Regeneration where
  overwriteUnmanaged : Bool
  now : Moment
  guidance : Guidance

def Regeneration.apply (r : Regeneration) (file : Option Text) : Option Text × Bool :=
  regenerate r.overwriteUnmanaged r.now r.guidance file

/-- The file after some regenerations. -/
def regenerateAll (file : Option Text) : List Regeneration → Option Text
  | [] => file
  | r :: steps => regenerateAll (r.apply file).1 steps

/-- A regeneration leaves the file, or writes it with its sections. -/
theorem apply_cases (r : Regeneration) (file : Option Text) :
    r.apply file = (file, false) ∨
      r.apply file = (some (regenerated r.now r.guidance (userSections file)), true) := by
  unfold Regeneration.apply regenerate
  dsimp only
  split_ifs
  · exact Or.inl rfl
  · exact Or.inl rfl
  · exact Or.inr rfl

theorem readable_userSections (file : Option Text) : Readable (userSections file) :=
  readable_parsePreservedSections file

theorem userSections_apply {r : Regeneration} {file : Option Text} (hr : Plain r.guidance)
    (h : Separable (userSections file)) :
    userSections (r.apply file).1 = userSections file := by
  rcases apply_cases r file with hkept | hwritten
  · rw [hkept]
  · rw [hwritten]
    exact (parse_regenerated (readable_userSections file) hr).mpr h

/-- Sections that can be told apart survive every run. -/
theorem userSections_run {steps : List Regeneration} (hsteps : ∀ r ∈ steps, Plain r.guidance)
    {file : Option Text} (h : Separable (userSections file)) :
    userSections (regenerateAll file steps) = userSections file := by
  induction steps generalizing file with
  | nil => rfl
  | cons r steps ih =>
      obtain ⟨hr, hrest⟩ := List.forall_mem_cons.mp hsteps
      have hstep : userSections (r.apply file).1 = userSections file := userSections_apply hr h
      have hlater : userSections (regenerateAll (r.apply file).1 steps) =
          userSections (r.apply file).1 := ih hrest (by rw [hstep]; exact h)
      rw [regenerateAll, hlater, hstep]

/-- No carriage return comes from the store or the registry. -/
def UnixText (g : Guidance) : Prop :=
  ∀ part ∈ [contextPart g, projectPart g, storePart g], '\r' ∉ part

theorem cr_notMem_regenerated {now : Moment} {g : Guidance} (hg : UnixText g)
    {p : PreservedSections} (hp : Readable p) : '\r' ∉ regenerated now g p := by
  have hparts : ∀ part ∈ generatedParts now g, '\r' ∉ part := by
    intro part hpart
    rcases mem_generatedParts.mp hpart with rfl | hfixed | hstore
    · exact cr_notMem_titlePart now
    · exact (fixedParts_plain hfixed).1
    · exact hg part hstore
  rw [regenerated_eq now g hp]
  intro hin
  rcases List.mem_append.mp hin with hgenerated | huser
  · rcases mem_joinLines hgenerated with hnewline | ⟨part, hpart, hcr⟩
    · exact absurd hnewline (by decide)
    · exact hparts part hpart hcr
  · rcases List.mem_cons.mp huser with hnewline | huser
    · exact absurd hnewline (by decide)
    · exact cr_notMem_userLines hp huser

/-- All of a generated file but the part with its time. -/
theorem exists_regenerated_eq (g : Guidance) {p : PreservedSections} (hp : Readable p) :
    ∃ rest, ∀ now, regenerated now g p = titlePart now ++ '\n' :: rest := by
  refine ⟨joinLines [protocolDigest, noToolsNotice, evidenceRiderSection, contextPart g,
    projectPart g, storePart g, toolsSection] ++ '\n' :: joinLines (userLines p), ?_⟩
  intro now
  rw [regenerated_eq now g hp, generatedParts, joinLines_cons_cons, List.append_assoc,
    List.cons_append]

theorem headerMarker_prefix_stampLine (now : Moment) :
    headerMarker.isPrefixOf (stampLine now) = true := by
  rw [List.isPrefixOf_iff_prefix, stampLine, List.append_assoc]
  exact List.prefix_append _ _

/-- Files that differ in their times alone look the same. -/
theorem mask_regenerated (now now' : Moment) (g : Guidance) {p : PreservedSections}
    (hp : Readable p) :
    maskHeaderTimestamp (regenerated now g p) = maskHeaderTimestamp (regenerated now' g p) := by
  obtain ⟨rest, hrest⟩ := exists_regenerated_eq g hp
  unfold maskHeaderTimestamp
  rw [hrest, hrest, splitLines_append_newline, splitLines_append_newline, splitLines_titlePart,
    splitLines_titlePart]
  simp only [List.map_append, List.map_cons, headerMarker_prefix_stampLine, if_true]

theorem headerMarker_mem_regenerated (now : Moment) (g : Guidance) {p : PreservedSections}
    (hp : Readable p) : containsText headerMarker (regenerated now g p) = true := by
  obtain ⟨rest, hrest⟩ := exists_regenerated_eq g hp
  rw [hrest, titlePart_eq, stampLine, containsText, List.any_eq_true]
  refine ⟨headerMarker ++ (now.stamp ++ "). -->".toList ++ '\n' :: (editNotice ++ ['\n']) ++
    '\n' :: rest), ?_, ?_⟩
  · rw [List.mem_tails]
    refine ⟨"# AGENTS.md".toList ++ ['\n'], ?_⟩
    simp only [List.append_assoc, List.cons_append, List.nil_append]
  · rw [List.isPrefixOf_iff_prefix]
    exact List.prefix_append _ _

/-- The file is not taken for a generated one and is left alone. -/
def Regeneration.keeps (r : Regeneration) (file : Option Text) : Bool :=
  !r.overwriteUnmanaged && !(file.map universalNewlines).all isManaged

/-- The file differs from a generated text in its time alone. -/
def looksSame (content : Text) (file : Option Text) : Bool :=
  (file.map universalNewlines).any fun existing =>
    containsText headerMarker existing && maskHeaderTimestamp existing == maskHeaderTimestamp content

theorem apply_writes_iff {r : Regeneration} {file : Option Text} :
    (r.apply file).2 = true ↔ r.keeps file = false ∧
      looksSame (regenerated r.now r.guidance (userSections file)) file = false := by
  have happly : r.apply file = if r.keeps file then (file, false)
      else if looksSame (regenerated r.now r.guidance (userSections file)) file then (file, false)
      else (some (regenerated r.now r.guidance (userSections file)), true) := rfl
  rw [happly]
  cases r.keeps file with
  | true => simp
  | false =>
      cases looksSame (regenerated r.now r.guidance (userSections file)) file with
      | true => simp
      | false => simp

theorem looksSame_regenerated (now now' : Moment) (g : Guidance) {p : PreservedSections}
    (hp : Readable p) (file : Option Text) :
    looksSame (regenerated now g p) file = looksSame (regenerated now' g p) file := by
  unfold looksSame
  rw [mask_regenerated now now' g hp]

/-- What a regeneration leaves is not written again at another time. -/
theorem apply_again {r : Regeneration} {file : Option Text} (hr : Plain r.guidance)
    (hunix : UnixText r.guidance) (h : Separable (userSections file)) (later : Moment) :
    (({ r with now := later } : Regeneration).apply (r.apply file).1).2 = false := by
  have hp := readable_userSections file
  have hsections := userSections_apply hr h
  rw [← Bool.not_eq_true, apply_writes_iff]
  rintro ⟨hkeeps, hdiffers⟩
  rw [hsections] at hdiffers
  change looksSame (regenerated later r.guidance (userSections file)) (r.apply file).1 =
    false at hdiffers
  rw [looksSame_regenerated later r.now r.guidance hp] at hdiffers
  rcases apply_cases r file with hkept | hwritten
  · -- a file that was left for its text is left again
    rw [hkept] at hkeeps hdiffers
    have hwrites : (r.apply file).2 = true := apply_writes_iff.mpr ⟨hkeeps, hdiffers⟩
    rw [hkept] at hwrites
    exact Bool.false_ne_true hwrites
  · rw [hwritten] at hdiffers
    have hsame : looksSame (regenerated r.now r.guidance (userSections file))
        (some (regenerated r.now r.guidance (userSections file))) = true := by
      rw [looksSame, Option.map_some,
        universalNewlines_of_notMem (cr_notMem_regenerated hunix hp), Option.any_some,
        headerMarker_mem_regenerated r.now r.guidance hp, Bool.true_and, beq_self_eq_true]
    exact Bool.false_ne_true (hdiffers.symm.trans hsame)

def newYear : Moment :=
  ⟨⟨2025, 1, 1, by decide⟩, 0, 0, 0⟩

/-- Guidance whose payload has no header. -/
def plainGuidance : Guidance :=
  ⟨"demo".toList, "Use tabs.".toList, none, none⟩

theorem isFixed_plainGuidance :
    ∀ part ∈ [contextPart plainGuidance, projectPart plainGuidance, storePart plainGuidance],
      isFixed part = true := by
  have hcontext : isFixed (contextPart plainGuidance) = true := by
    have hpart : contextPart plainGuidance = payloadNotice := rfl
    rw [hpart, isFixed_fixedParts.2.2.2.2]
  have hstored : isFixed (projectPart plainGuidance) = true ∧
      isFixed (storePart plainGuidance) = true := by
    have hid : projectIdLine plainGuidance = [] := rfl
    unfold storePart projectPart
    rw [hid]
    unfold plainGuidance
    repeat rw [String.toList_append]
    repeat rw [String.toList_ofList]
    decide +kernel
  intro part hpart
  simp only [List.mem_cons, List.not_mem_nil, or_false] at hpart
  rcases hpart with heq | heq | heq
  · rw [heq, hcontext]
  · rw [heq, hstored.1]
  · rw [heq, hstored.2]

theorem plain_plainGuidance : Plain plainGuidance ∧ UnixText plainGuidance := by
  have hfixed {part : Text} (h : isFixed part = true) :
      '\r' ∉ part ∧ ∀ a : UserSection, a.header ∉ splitLines part := isFixed_spec h
  constructor
  · intro part hpart a hin
    obtain ⟨hcr, hfree⟩ := hfixed (isFixed_plainGuidance part hpart)
    rw [universalNewlines_of_notMem hcr] at hin
    exact hfree a hin
  · exact fun part hpart => (hfixed (isFixed_plainGuidance part hpart)).1

/-- Sections of that kind are those of some file. -/
theorem exists_userSections {p : PreservedSections} (hp : Readable p) (h : Separable p) :
    ∃ file, userSections file = p := by
  exact ⟨some (regenerated newYear plainGuidance p),
    (parse_regenerated hp plain_plainGuidance.1).mpr h⟩

/-- The user's sections survive as long as headers tell them apart: guidance keeps all sections
that have no header line of each other when none of its own lines is a header, and it keeps no
others. They then survive every run of regenerations, and a regeneration that is repeated writes
nothing. -/
theorem sections_survive_iff (now : Moment) (g : Guidance) :
    (Plain g ↔ ∀ file, Separable (userSections file) →
        userSections (some (regenerated now g (userSections file))) = userSections file) ∧
      (Plain g → ∀ file,
        (userSections (some (regenerated now g (userSections file))) = userSections file ↔
          Separable (userSections file))) ∧
      ∀ (steps : List Regeneration) (file : Option Text), (∀ r ∈ steps, Plain r.guidance) →
        Separable (userSections file) →
          userSections (regenerateAll file steps) = userSections file ∧
            ∀ r : Regeneration, Plain r.guidance → UnixText r.guidance → ∀ later : Moment,
              (({ r with now := later } : Regeneration).apply
                (r.apply (regenerateAll file steps)).1).2 = false := by
  refine ⟨⟨?_, ?_⟩, ?_, ?_⟩
  · intro hg file hfile
    exact (parse_regenerated (readable_userSections file) hg).mpr hfile
  · intro h
    have hlines : ∀ line ∈ generatedLines now g, '\n' ∉ line :=
      fun _ hline => LineText.notMem_of_mem_splitOn hline
    have hiff : HeaderFree (generatedLines now g) ↔ Plain g := headerFree_generatedLines
    apply hiff.mp
    apply headerFree_of_preserved hlines
    intro p hp hseparable
    obtain ⟨file, hfile⟩ := exists_userSections hp hseparable
    have hread := h file (by rw [hfile]; exact hseparable)
    rw [hfile] at hread
    rw [← read_regenerated now g hp]
    exact hread
  · intro hg file
    exact parse_regenerated (readable_userSections file) hg
  · intro steps file hsteps hfile
    have hrun := userSections_run hsteps hfile
    refine ⟨hrun, ?_⟩
    intro r hr hunix later
    exact apply_again hr hunix (by rw [hrun]; exact hfile) later

theorem note_survives :
    userSections (regenerateAll (some "# Manual\n\nKeep the tests green.\n".toList)
      [⟨true, newYear, plainGuidance⟩, ⟨false, newYear, plainGuidance⟩]) =
        oneSection .manual "Keep the tests green.".toList := by
  have hfile : userSections (some "# Manual\n\nKeep the tests green.\n".toList) =
      oneSection .manual "Keep the tests green.".toList := by
    repeat rw [String.toList_ofList]
    decide +kernel
  have hsteps : ∀ r ∈ ([⟨true, newYear, plainGuidance⟩, ⟨false, newYear, plainGuidance⟩] :
      List Regeneration), Plain r.guidance := by
    simp only [List.forall_mem_cons, List.not_mem_nil, false_imp_iff, implies_true, and_true]
    exact ⟨plain_plainGuidance.1, plain_plainGuidance.1⟩
  have hfree : Separable (userSections (some "# Manual\n\nKeep the tests green.\n".toList)) := by
    rw [hfile, separable_one]
    decide
  have hrun := ((sections_survive_iff newYear plainGuidance).2.2 _ _ hsteps hfree).1
  rw [hrun, hfile]

/-- A header line of the payload opens a section. -/
theorem sectionOf_absorbed {before : Text} (hbefore : skillsSectionHeader ∉ splitLines before)
    (rest : Text) :
    sectionOf (before ++ '\n' :: (skillsSectionHeader ++ '\n' :: 'x' :: rest)) .skills ≠ none := by
  have hlines : splitLines (before ++ '\n' :: (skillsSectionHeader ++ '\n' :: 'x' :: rest)) =
      splitLines before ++ UserSection.skills.header :: splitLines ('x' :: rest) := by
    have hheader : splitLines skillsSectionHeader = [skillsSectionHeader] :=
      splitLines_of_notMem (newline_notMem_header .skills)
    rw [splitLines_append_newline, splitLines_append_newline, hheader]
    rfl
  have hplain : ∀ line ∈ splitLines before ++ UserSection.skills.header :: splitLines ('x' :: rest),
      '\n' ∉ line := by
    rw [← hlines]
    exact fun _ hline => LineText.notMem_of_mem_splitOn hline
  obtain ⟨-, hsection⟩ := sectionOf_lines hbefore (splitLines_ne_nil _) hplain
  rw [← hlines, joinLines_splitLines, joinLines_splitLines] at hsection
  have hend : ∃ n, sectionEnd UserSection.skills.other.header ('x' :: rest) = n + 1 := by
    have hheader (more : Text) : ¬ ('\n' :: more).isPrefixOf ('x' :: rest) = true := by
      simp [List.isPrefixOf]
    have hfooter : ¬ footerMarker.isPrefixOf ('x' :: rest) = true := by
      unfold footerMarker
      rw [String.toList_ofList]
      simp [List.isPrefixOf]
    rw [sectionEnd, textFind_cons, textFind_cons, if_neg (hheader _), if_neg hfooter]
    cases textFind ('\n' :: (UserSection.skills.other.header ++ ['\n'])) rest with
    | none =>
        cases textFind footerMarker rest with
        | none => exact ⟨rest.length, rfl⟩
        | some k => exact ⟨k, rfl⟩
    | some j =>
        cases textFind footerMarker rest with
        | none => exact ⟨j, rfl⟩
        | some k => exact ⟨min j k, Nat.succ_min_succ j k⟩
  obtain ⟨n, hn⟩ := hend
  have hmem : 'x' ∈ sectionText (('x' :: rest).take (n + 1)) :=
    mem_sectionText (by decide) (by decide) (List.mem_cons_self ..)
  dsimp only at hsection
  rw [hsection, hn, if_neg (List.ne_nil_of_mem hmem)]
  exact Option.some_ne_none _

/-- Guidance whose payload has the header line of the skills. -/
def headerGuidance : Guidance :=
  { plainGuidance with l0Payload := "## Skills\nx".toList }

theorem skills_userSections (content : Text) :
    (userSections (some content)).skills = sectionOf (universalNewlines content) .skills := rfl

theorem joinLines_around (a b c d e f g h user header : Text) :
    joinLines [a, b, c, d, e, f ++ '\n' :: (header ++ '\n' :: 'x' :: ['\n']), g, h] ++
        '\n' :: user =
      joinLines [a, b, c, d, e, f] ++ '\n' :: (header ++ '\n' :: 'x' ::
        '\n' :: '\n' :: (joinLines [g, h] ++ '\n' :: user)) := by
  simp only [joinLines_cons_cons, joinLines_singleton, List.append_assoc, List.cons_append,
    List.nil_append]

/-- Without a file the store's own lines come back as the user's. -/
theorem payload_absorbed :
    userSections (some (regenerated newYear headerGuidance (userSections none))) ≠
      userSections none := by
  let above : List Text := [titlePart newYear, protocolDigest, noToolsNotice, evidenceRiderSection,
    payloadNotice, "## Project: demo\n".toList]
  have hproject : projectPart headerGuidance =
      "## Project: demo\n".toList ++ '\n' :: (skillsSectionHeader ++ '\n' :: 'x' :: ['\n']) := by
    unfold projectPart headerGuidance plainGuidance skillsSectionHeader
    repeat rw [String.toList_ofList]
    rfl
  have hpayload : isFixed payloadNotice = true := isFixed_fixedParts.2.2.2.2
  have hheading : isFixed "## Project: demo\n".toList = true := by decide
  have habove : ∀ part ∈ above, '\r' ∉ part ∧ skillsSectionHeader ∉ splitLines part := by
    intro part hpart
    rcases List.mem_cons.mp hpart with heq | hpart
    · have htitle := headerFree_titlePart newYear .skills
      rw [universalNewlines_of_notMem (cr_notMem_titlePart newYear)] at htitle
      rw [heq]
      exact ⟨cr_notMem_titlePart newYear, htitle⟩
    · have hfixed : isFixed part = true := by
        simp only [List.mem_cons, List.not_mem_nil, or_false] at hpart
        rcases hpart with heq | heq | heq | heq | heq
        · rw [heq, isFixed_fixedParts.1]
        · rw [heq, isFixed_fixedParts.2.1]
        · rw [heq, isFixed_fixedParts.2.2.1]
        · rw [heq, hpayload]
        · rw [heq, hheading]
      exact ⟨(isFixed_spec hfixed).1, (isFixed_spec hfixed).2 .skills⟩
  have hbefore : skillsSectionHeader ∉ splitLines (joinLines above) := by
    have hcr : '\r' ∉ joinLines above := by
      intro hin
      rcases mem_joinLines hin with hnewline | ⟨part, hpart, hcr⟩
      · exact absurd hnewline (by decide)
      · exact (habove part hpart).1 hcr
    rw [← universalNewlines_of_notMem hcr]
    intro hin
    obtain ⟨part, hpart, hline⟩ :=
      (mem_lines_joinLines (header_ne_nil .skills) (List.cons_ne_nil _ _)).mp hin
    rw [universalNewlines_of_notMem (habove part hpart).1] at hline
    exact (habove part hpart).2 hline
  have hunix : UnixText headerGuidance := by
    have hmiddle : '\r' ∉ projectPart headerGuidance := by
      rw [hproject]
      decide
    intro part hpart
    simp only [List.mem_cons, List.not_mem_nil, or_false] at hpart
    rcases hpart with heq | heq | heq
    · rw [heq]
      exact plain_plainGuidance.2 _ (List.mem_cons_self ..)
    · rw [heq]
      exact hmiddle
    · rw [heq]
      exact plain_plainGuidance.2 (storePart plainGuidance)
        (List.mem_cons_of_mem _ (List.mem_cons_of_mem _ (List.mem_cons_self ..)))
  have hshape : ∃ rest, regenerated newYear headerGuidance (userSections none) =
      joinLines above ++ '\n' :: (skillsSectionHeader ++ '\n' :: 'x' :: rest) := by
    have hcontext : contextPart headerGuidance = payloadNotice := rfl
    refine ⟨'\n' :: '\n' :: (joinLines [storePart headerGuidance, toolsSection] ++
      '\n' :: joinLines (userLines (userSections none))), ?_⟩
    rw [regenerated_eq newYear headerGuidance (readable_userSections none), generatedParts, hcontext,
      hproject]
    exact joinLines_around _ _ _ _ _ _ _ _ _ _
  have hcr : '\r' ∉ regenerated newYear headerGuidance (userSections none) :=
    cr_notMem_regenerated hunix (readable_userSections none)
  obtain ⟨rest, hrest⟩ := hshape
  intro hsame
  have hskills : sectionOf (universalNewlines
      (regenerated newYear headerGuidance (userSections none))) .skills = none := by
    rw [← skills_userSections, hsame]
    rfl
  rw [universalNewlines_of_notMem hcr, hrest] at hskills
  exact sectionOf_absorbed hbefore rest hskills

end AgentsMd
end Client
end Nauro
