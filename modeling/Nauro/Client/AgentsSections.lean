import Nauro.Client.AgentsMd

/-!
# The user's sections of the guidance file

A section is found by its header line and ends at the other header or at the footer.

* `parse_userLines` — behind lines without headers, sections are read back just when neither has
  the header of the other.
-/

namespace Nauro
namespace Client
namespace AgentsMd

open Foundation Nauro.Core

/-! ## Finding texts -/

theorem textFind_cons (needle : Text) (c : Char) (rest : Text) :
    textFind needle (c :: rest) =
      if needle.isPrefixOf (c :: rest) then some 0
      else (textFind needle rest).map (· + 1) := by
  unfold textFind
  rw [partitionAt?]
  split_ifs with hstarts
  · rfl
  · cases partitionAt? needle rest with
    | none => rfl
    | some parts => rfl

theorem textFind_nil {needle : Text} (h : needle ≠ []) : textFind needle [] = none := by
  rw [textFind, partitionAt?, if_neg h]
  rfl

/-- A needle that starts with a line end is not found within a line. -/
theorem textFind_line {needle line : Text} (h : '\n' ∉ line) (rest : Text) :
    textFind ('\n' :: needle) (line ++ rest) =
      (textFind ('\n' :: needle) rest).map (· + line.length) := by
  induction line with
  | nil => simp
  | cons c line ih =>
      obtain ⟨hc, hline⟩ := not_or.mp (fun hin => h (List.mem_cons.mpr hin))
      have hno : ¬ ('\n' :: needle).isPrefixOf (c :: (line ++ rest)) = true := by
        rw [List.isPrefixOf_iff_prefix]
        rintro ⟨more, hmore⟩
        exact hc (List.cons.inj hmore).1
      rw [List.cons_append, textFind_cons, if_neg hno, ih hline, Option.map_map]
      rfl

/-- The lines before the first line `header` that is not the last one. -/
def lineBefore (header : Text) : List Text → Option (List Text)
  | [] => none
  | [_] => none
  | line :: next :: rest =>
      if line = header then some [] else (lineBefore header (next :: rest)).map (line :: ·)

theorem lineBefore_append {header : Text} {front back : List Text} (hfront : header ∉ front)
    (hback : back ≠ []) : lineBefore header (front ++ header :: back) = some front := by
  induction front with
  | nil =>
      obtain ⟨next, rest, rfl⟩ := List.exists_cons_of_ne_nil hback
      rw [List.nil_append, lineBefore, if_pos rfl]
  | cons line front ih =>
      obtain ⟨hline, hrest⟩ := not_or.mp (fun hin => hfront (List.mem_cons.mpr hin))
      have hne : front ++ header :: back ≠ [] := by simp
      obtain ⟨next, rest, hcons⟩ := List.exists_cons_of_ne_nil hne
      have hnext := ih hrest
      rw [hcons] at hnext
      rw [List.cons_append, hcons, lineBefore, if_neg (Ne.symm hline), hnext]
      rfl

theorem lineBefore_of_notMem {header : Text} {lines : List Text} (h : header ∉ lines) :
    lineBefore header lines = none := by
  induction lines with
  | nil => rfl
  | cons line lines ih =>
      obtain ⟨hline, hrest⟩ := not_or.mp (fun hin => h (List.mem_cons.mpr hin))
      cases lines with
      | nil => rfl
      | cons next rest => rw [lineBefore, if_neg (Ne.symm hline), ih hrest]; rfl

theorem joinLines_singleton (line : Text) : joinLines [line] = line := by
  simp [joinLines]

theorem joinLines_cons_cons (line next : Text) (rest : List Text) :
    joinLines (line :: next :: rest) = line ++ '\n' :: joinLines (next :: rest) :=
  LineText.intercalate_cons_cons line next rest

/-- A header and its line end begin some lines when the header is the first of several. -/
theorem header_prefix_iff {header line next : Text} {rest : List Text} (hheader : '\n' ∉ header)
    (hline : '\n' ∉ line) :
    (header ++ ['\n']).isPrefixOf (joinLines (line :: next :: rest)) = true ↔ line = header := by
  rw [List.isPrefixOf_iff_prefix, joinLines_cons_cons]
  constructor
  · rintro ⟨more, hmore⟩
    have hlines := congrArg splitLines hmore
    rw [List.append_assoc, List.singleton_append, splitLines_append_newline,
      splitLines_append_newline, splitLines_of_notMem hheader, splitLines_of_notMem hline] at hlines
    exact (List.cons.inj hlines).1.symm
  · rintro rfl
    exact ⟨joinLines (next :: rest), by simp⟩

theorem not_header_prefix_line {header line : Text} (hline : '\n' ∉ line) :
    ¬ (header ++ ['\n']).isPrefixOf line = true := by
  rw [List.isPrefixOf_iff_prefix]
  rintro ⟨more, rfl⟩
  exact hline (by simp)

/-- Where a header line is found after the first line. -/
theorem textFind_header {header first : Text} {lines : List Text} (hheader : '\n' ∉ header)
    (hfirst : '\n' ∉ first) (hlines : ∀ line ∈ lines, '\n' ∉ line) :
    textFind ('\n' :: (header ++ ['\n'])) (joinLines (first :: lines)) =
      (lineBefore header lines).map fun front => (joinLines (first :: front)).length := by
  induction lines generalizing first with
  | nil =>
      have hnone : textFind ('\n' :: (header ++ ['\n'])) (first ++ []) = _ := textFind_line hfirst []
      rw [List.append_nil, textFind_nil (List.cons_ne_nil _ _)] at hnone
      rw [joinLines_singleton, hnone]
      rfl
  | cons line lines ih =>
      obtain ⟨hline, hrest⟩ := List.forall_mem_cons.mp hlines
      have hskip := ih hline hrest
      rw [joinLines_cons_cons, textFind_line hfirst, textFind_cons]
      cases lines with
      | nil =>
          have hno : ¬ ('\n' :: (header ++ ['\n'])).isPrefixOf ('\n' :: joinLines [line]) = true := by
            rw [joinLines_singleton, List.isPrefixOf, beq_self_eq_true, Bool.true_and]
            exact not_header_prefix_line hline
          rw [if_neg hno, hskip]
          rfl
      | cons next rest =>
          have hstarts : ('\n' :: (header ++ ['\n'])).isPrefixOf
              ('\n' :: joinLines (line :: next :: rest)) = true ↔ line = header := by
            rw [List.isPrefixOf, beq_self_eq_true, Bool.true_and]
            exact header_prefix_iff hheader hline
          rw [lineBefore]
          by_cases hsame : line = header
          · rw [if_pos (hstarts.mpr hsame), if_pos hsame]
            simp [joinLines_singleton]
          · rw [if_neg (fun h => hsame (hstarts.mp h)), if_neg hsame, hskip]
            cases lineBefore header (next :: rest) with
            | none => rfl
            | some front =>
                simp only [Option.map_some, joinLines_cons_cons, List.length_append,
                  List.length_cons]
                congr 1
                omega

/-- The position of the line after some lines. -/
def offset (front : List Text) : Nat :=
  (front.map fun line => line.length + 1).sum

theorem length_joinLines_cons (line : Text) (front : List Text) :
    (joinLines (line :: front)).length + 1 = offset (line :: front) := by
  induction front generalizing line with
  | nil => simp [joinLines_singleton, offset]
  | cons next front ih =>
      have hnext := ih next
      rw [joinLines_cons_cons, List.length_append, List.length_cons, hnext]
      simp only [offset, List.map_cons, List.sum_cons]
      omega

/-- Where a header line is found. -/
theorem findHeader_joinLines {header : Text} {lines : List Text} (hheader : '\n' ∉ header)
    (hlines : ∀ line ∈ lines, '\n' ∉ line) (hne : lines ≠ []) :
    findHeader (joinLines lines) header = (lineBefore header lines).map offset := by
  obtain ⟨line, rest, rfl⟩ := List.exists_cons_of_ne_nil hne
  obtain ⟨hline, hrest⟩ := List.forall_mem_cons.mp hlines
  have hfind := textFind_header hheader hline hrest
  unfold findHeader
  cases rest with
  | nil =>
      rw [joinLines_singleton] at hfind ⊢
      rw [if_neg (not_header_prefix_line hline), hfind]
      rfl
  | cons next rest =>
      rw [lineBefore]
      by_cases hsame : line = header
      · rw [if_pos ((header_prefix_iff hheader hline).mpr hsame), if_pos hsame]
        rfl
      · rw [if_neg (fun h => hsame ((header_prefix_iff hheader hline).mp h)), if_neg hsame, hfind]
        cases lineBefore header (next :: rest) with
        | none => rfl
        | some front =>
            simp only [Option.map_some, length_joinLines_cons]

/-- The text after a line. -/
theorem drop_joinLines (front : List Text) (line : Text) {back : List Text} (hback : back ≠ []) :
    (joinLines (front ++ line :: back)).drop (offset front + (line.length + 1)) = joinLines back := by
  induction front with
  | nil =>
      obtain ⟨next, rest, rfl⟩ := List.exists_cons_of_ne_nil hback
      rw [List.nil_append, joinLines_cons_cons]
      simp [offset]
  | cons first front ih =>
      obtain ⟨next, rest, hcons⟩ := List.exists_cons_of_ne_nil
        (show front ++ line :: back ≠ [] by simp)
      rw [List.cons_append, hcons, joinLines_cons_cons, ← hcons]
      have hshape : offset (first :: front) + (line.length + 1) =
          first.length + (1 + (offset front + (line.length + 1))) := by
        simp only [offset, List.map_cons, List.sum_cons]
        omega
      rw [hshape, List.drop_length_add_append, Nat.add_comm 1, List.drop_succ_cons, ih]

/-! ## The footer -/

theorem footerMarker_ne_nil : footerMarker ≠ [] := by decide

theorem newline_notMem_footerMarker : '\n' ∉ footerMarker := by decide

/-- What is found is not found earlier. -/
theorem not_infix_take_of_textFind {needle text : Text} {k : Nat} (hne : needle ≠ [])
    (h : textFind needle text = some k) : ¬ needle <:+: text.take k := by
  induction text generalizing k with
  | nil =>
      rw [textFind_nil hne] at h
      cases h
  | cons c text ih =>
      rw [textFind_cons] at h
      split_ifs at h with hstarts
      · rw [← Option.some.inj h, List.take_zero, List.infix_nil]
        exact hne
      · obtain ⟨j, hj, rfl⟩ := Option.map_eq_some_iff.mp h
        rw [List.take_succ_cons, List.infix_cons_iff]
        rintro (hfirst | hlater)
        · apply hstarts
          rw [List.isPrefixOf_iff_prefix]
          exact hfirst.trans (List.cons_prefix_cons.mpr ⟨rfl, List.take_prefix j text⟩)
        · exact ih hj hlater

theorem textFind_eq_none_iff {needle text : Text} (hne : needle ≠ []) :
    textFind needle text = none ↔ ¬ needle <:+: text := by
  induction text with
  | nil => simp only [textFind_nil hne, List.infix_nil, hne, not_false_eq_true]
  | cons c text ih =>
      rw [textFind_cons, List.infix_cons_iff, not_or, ← ih, ← List.isPrefixOf_iff_prefix]
      by_cases hstarts : needle.isPrefixOf (c :: text) = true
      · simp [hstarts]
      · simp [hstarts]

/-- A needle without line ends lies on one side of a line end. -/
theorem prefix_of_prefix_append_newline {needle front back : Text} (hneedle : '\n' ∉ needle)
    (h : needle <+: front ++ '\n' :: back) : needle <+: front := by
  rcases Nat.le_total needle.length front.length with hle | hle
  · exact List.prefix_of_prefix_length_le h (List.prefix_append front _) hle
  · obtain ⟨more, rfl⟩ := List.prefix_of_prefix_length_le (List.prefix_append front _) h hle
    cases more with
    | nil => exact (List.append_nil front).symm ▸ List.prefix_refl front
    | cons c more =>
        obtain ⟨rest, hrest⟩ := h
        rw [List.append_assoc, List.append_cancel_left_eq] at hrest
        have hc : c = '\n' := (List.cons.inj hrest).1
        exact absurd (by simp [hc]) hneedle

theorem textFind_append_newline {needle front : Text} (hneedle : '\n' ∉ needle)
    (hne : needle ≠ []) (hfront : ¬ needle <:+: front) (back : Text) :
    textFind needle (front ++ '\n' :: back) =
      (textFind needle back).map (· + (front.length + 1)) := by
  induction front with
  | nil =>
      have hno : ¬ needle.isPrefixOf ('\n' :: back) = true := by
        rw [List.isPrefixOf_iff_prefix]
        intro hstarts
        have hnil : needle <+: [] := prefix_of_prefix_append_newline hneedle hstarts
        exact hne (List.prefix_nil.mp hnil)
      rw [List.nil_append, textFind_cons, if_neg hno]
      rfl
  | cons c front ih =>
      obtain ⟨hfirst, hlater⟩ := not_or.mp (fun h => hfront (List.infix_cons_iff.mpr h))
      have hno : ¬ needle.isPrefixOf (c :: (front ++ '\n' :: back)) = true := by
        rw [List.isPrefixOf_iff_prefix, ← List.cons_append]
        exact fun hstarts => hfirst (prefix_of_prefix_append_newline hneedle hstarts)
      rw [List.cons_append, textFind_cons, if_neg hno, ih hlater, Option.map_map]
      rfl

/-! ## What is read -/

theorem rstrip_rstrip (text : Text) : rstrip (rstrip text) = rstrip text :=
  Trim.rdropWhile_eq_self (Trim.getLast?_rdropWhile text)

theorem dropSeparators_startsWith (fuel : Nat) (text : Text) : dropSeparators fuel text <+: text := by
  induction fuel generalizing text with
  | zero => exact List.prefix_refl text
  | succ fuel ih =>
      rw [dropSeparators]
      split_ifs
      · exact (ih _).trans ((List.rdropWhile_prefix _ _).trans (List.take_prefix _ _))
      · exact List.prefix_refl text

theorem rstrip_dropSeparators {text : Text} (h : rstrip text = text) (fuel : Nat) :
    rstrip (dropSeparators fuel text) = dropSeparators fuel text := by
  induction fuel generalizing text with
  | zero => exact h
  | succ fuel ih =>
      rw [dropSeparators]
      split_ifs
      · exact ih (rstrip_rstrip _)
      · exact h

/-- Every pass drops a separator, so that as many passes as there are characters drop them all. -/
theorem not_suffix_dropSeparators {fuel : Nat} {text : Text} (h : text.length ≤ fuel) :
    ¬ "---".toList <:+ dropSeparators fuel text := by
  induction fuel generalizing text with
  | zero =>
      have hnil : text = [] := List.length_eq_zero_iff.mp (Nat.le_zero.mp h)
      rw [dropSeparators, hnil, List.suffix_nil]
      decide
  | succ fuel ih =>
      rw [dropSeparators]
      split_ifs with hsuffix
      · have hlong : 3 ≤ text.length := by
          have hle := (List.isSuffixOf_iff_suffix.mp hsuffix).length_le
          exact hle
        apply ih
        have hshort := (List.rdropWhile_prefix isSpace (text.take (text.length - 3))).length_le
        rw [List.length_take] at hshort
        change (rstrip _).length ≤ _ at hshort
        omega
      · exact fun hin => hsuffix (List.isSuffixOf_iff_suffix.mpr hin)

theorem dropSeparators_of_not_suffix {text : Text} (h : ¬ "---".toList <:+ text) (fuel : Nat) :
    dropSeparators fuel text = text := by
  cases fuel with
  | zero => rfl
  | succ fuel =>
      rw [dropSeparators, if_neg]
      exact fun hsuffix => h (List.isSuffixOf_iff_suffix.mp hsuffix)

theorem strip_suffix_of_rstrip {text : Text} (h : rstrip text = text) : strip text <:+ text := by
  have hdrop : strip text = text.dropWhile isSpace := by
    apply Trim.rdropWhile_eq_self
    intro c hc
    cases hcase : text.dropWhile isSpace with
    | nil =>
        rw [hcase] at hc
        cases hc
    | cons d rest =>
        have hlast := Trim.getLast?_rdropWhile (p := isSpace) text
        change ∀ x ∈ (rstrip text).getLast?, isSpace x = false at hlast
        rw [h] at hlast
        apply hlast
        obtain ⟨front, hfront⟩ := List.dropWhile_suffix (l := text) isSpace
        rw [hcase] at hc hfront
        rw [← hfront, List.getLast?_append]
        rw [Option.mem_def] at hc ⊢
        rw [hc]
        rfl
  rw [hdrop]
  exact List.dropWhile_suffix isSpace

/-- A section as it is read. -/
structure Body (section_ : Text) : Prop where
  notEmpty : section_ ≠ []
  trimmed : strip section_ = section_
  noSeparator : ¬ "---".toList <:+ section_
  noFooter : ¬ footerMarker <:+: section_
  unixLines : '\r' ∉ section_

/-- Where a section ends in the text after its header. -/
def sectionEnd (otherHeader rest : Text) : Nat :=
  ((textFind ('\n' :: (otherHeader ++ ['\n'])) rest).toList ++
    (textFind footerMarker rest).toList).min?.getD rest.length

/-- The section in the text up to its end. -/
def sectionText (text : Text) : Text :=
  strip (dropSeparators (rstrip text).length (rstrip text))

theorem extractSectionBody_eq (content : Text) (headerIdx : Nat) (header otherHeader : Text) :
    extractSectionBody content headerIdx header otherHeader =
      (let rest := content.drop (headerIdx + (header.length + 1))
       let body := sectionText (rest.take (sectionEnd otherHeader rest))
       if body = [] then none else some body) := rfl

theorem sectionText_isInside (text : Text) : sectionText text <:+: text := by
  have hrstrip : rstrip (dropSeparators (rstrip text).length (rstrip text)) =
      dropSeparators (rstrip text).length (rstrip text) :=
    rstrip_dropSeparators (rstrip_rstrip text) _
  exact (strip_suffix_of_rstrip hrstrip).isInfix.trans
    ((dropSeparators_startsWith _ _).trans (List.rdropWhile_prefix isSpace text)).isInfix

theorem not_footer_infix_take (otherHeader rest : Text) :
    ¬ footerMarker <:+: rest.take (sectionEnd otherHeader rest) := by
  unfold sectionEnd
  cases hfooter : textFind footerMarker rest with
  | none =>
      have hnot := (textFind_eq_none_iff footerMarker_ne_nil).mp hfooter
      exact fun h => hnot (h.trans (List.take_prefix _ rest).isInfix)
  | some k =>
      have hnot := not_infix_take_of_textFind footerMarker_ne_nil hfooter
      intro h
      apply hnot
      refine h.trans (List.IsPrefix.isInfix ?_)
      apply List.take_prefix_take_left
      cases textFind ('\n' :: (otherHeader ++ ['\n'])) rest with
      | none => simp
      | some j => exact Nat.min_le_right j k

/-- What is read is trimmed, on both sides of the separators that are dropped. -/
theorem body_of_extract {content header otherHeader s : Text} {headerIdx : Nat}
    (hcontent : '\r' ∉ content)
    (h : extractSectionBody content headerIdx header otherHeader = some s) : Body s := by
  rw [extractSectionBody_eq] at h
  dsimp only at h
  split_ifs at h with hempty
  cases h
  set rest := content.drop (headerIdx + (header.length + 1)) with hrest
  set text := rest.take (sectionEnd otherHeader rest) with htext
  have hwithin : sectionText text <:+: text := sectionText_isInside text
  have hseparators : rstrip (dropSeparators (rstrip text).length (rstrip text)) =
      dropSeparators (rstrip text).length (rstrip text) :=
    rstrip_dropSeparators (rstrip_rstrip text) _
  refine ⟨hempty, strip_strip _, ?_, ?_, ?_⟩
  · intro hsuffix
    exact not_suffix_dropSeparators (Nat.le_refl _)
      (hsuffix.trans (strip_suffix_of_rstrip hseparators))
  · exact fun hin => not_footer_infix_take otherHeader rest (hin.trans hwithin)
  · intro hin
    exact hcontent (List.drop_subset _ _ (List.take_subset _ _ (hwithin.subset hin)))

/-! ## One section among lines -/

theorem not_infix_append_newline {needle front back : Text} (hneedle : '\n' ∉ needle)
    (hne : needle ≠ []) (hfront : ¬ needle <:+: front) (hback : ¬ needle <:+: back) :
    ¬ needle <:+: front ++ '\n' :: back := by
  rw [← textFind_eq_none_iff hne] at hback ⊢
  rw [textFind_append_newline hneedle hne hfront, hback]
  rfl

/-- The blank lines around a section. -/
def padded (section_ : Text) : Text :=
  '\n' :: (section_ ++ ['\n'])

theorem not_footer_infix_padded {s : Text} (h : Body s) : ¬ footerMarker <:+: padded s := by
  have hnil : ¬ footerMarker <:+: [] := fun hin => footerMarker_ne_nil (List.infix_nil.mp hin)
  have hend : ¬ footerMarker <:+: s ++ '\n' :: [] :=
    not_infix_append_newline newline_notMem_footerMarker footerMarker_ne_nil h.noFooter hnil
  have hpadded : ¬ footerMarker <:+: [] ++ '\n' :: (s ++ '\n' :: []) :=
    not_infix_append_newline newline_notMem_footerMarker footerMarker_ne_nil hnil hend
  exact hpadded

theorem Body.last_ink {s : Text} (h : Body s) : ∀ c ∈ s.getLast?, isSpace c = false :=
  (Trim.trim_eq_self_iff.mp h.trimmed).2

theorem Body.rstrip_append {s : Text} (h : Body s) {blank : Text}
    (hblank : ∀ c ∈ blank, isSpace c = true) : rstrip ('\n' :: (s ++ blank)) = '\n' :: s := by
  rw [← List.cons_append, rstrip, Trim.rdropWhile_append_of_all hblank]
  apply Trim.rdropWhile_eq_self
  obtain ⟨c, rest, rfl⟩ := List.exists_cons_of_ne_nil h.notEmpty
  intro d hd
  rw [List.getLast?_cons_cons] at hd
  exact h.last_ink d hd

theorem Body.not_suffix_cons {s : Text} (h : Body s) : ¬ "---".toList <:+ '\n' :: s := by
  rw [List.suffix_cons_iff]
  rintro (heq | hsuffix)
  · exact absurd (List.cons.inj heq).1 (by decide)
  · exact h.noSeparator hsuffix

theorem Body.strip_cons {s : Text} (h : Body s) : strip ('\n' :: s) = s := by
  have hblank : ∀ c ∈ ['\n'], isSpace c = true := List.all_eq_true.mp (by decide)
  exact (Trim.trim_append_left hblank s).trans h.trimmed

theorem sectionText_padded {s : Text} (h : Body s) : sectionText (padded s) = s := by
  have hrstrip : rstrip (padded s) = '\n' :: s := h.rstrip_append (List.all_eq_true.mp (by decide))
  rw [sectionText, hrstrip, dropSeparators_of_not_suffix h.not_suffix_cons, h.strip_cons]

/-- The separator of the footer is dropped with the blank lines before it. -/
theorem sectionText_separator {s : Text} (h : Body s) :
    sectionText (padded s ++ "\n---\n".toList) = s := by
  have hrstrip : rstrip (padded s ++ "\n---\n".toList) = '\n' :: (s ++ "\n\n---".toList) := by
    have hshape : padded s ++ "\n---\n".toList = ('\n' :: s) ++ "\n\n---\n".toList := by
      simp [padded]
    have hany : ∃ c ∈ "\n\n---\n".toList, isSpace c = false := ⟨'-', by decide, by decide⟩
    have hend : "\n\n---\n".toList.rdropWhile isSpace = "\n\n---".toList := by decide
    rw [hshape, rstrip, Trim.rdropWhile_append_of_any hany, hend]
    rfl
  have hsuffix : "---".toList.isSuffixOf ('\n' :: (s ++ "\n\n---".toList)) = true := by
    rw [List.isSuffixOf_iff_suffix]
    exact ⟨'\n' :: (s ++ "\n\n".toList), by simp⟩
  have hshort : ('\n' :: (s ++ "\n\n---".toList)).take
      (('\n' :: (s ++ "\n\n---".toList)).length - 3) = '\n' :: (s ++ "\n\n".toList) := by
    have hshape : '\n' :: (s ++ "\n\n---".toList) = ('\n' :: (s ++ "\n\n".toList)) ++ "---".toList := by
      simp
    rw [hshape]
    apply List.take_left'
    simp
  have hrest : rstrip ('\n' :: (s ++ "\n\n".toList)) = '\n' :: s := h.rstrip_append (List.all_eq_true.mp (by decide))
  rw [sectionText, hrstrip, List.length_cons, dropSeparators, if_pos hsuffix,
    hshort, hrest, dropSeparators_of_not_suffix h.not_suffix_cons, h.strip_cons]

/-- The lines of the footer. -/
def footerLines : List Text :=
  splitLines footer

theorem joinLines_padded (s : Text) {tail : List Text} (htail : tail ≠ []) :
    joinLines ([] :: (splitLines s ++ [] :: tail)) = padded s ++ '\n' :: joinLines tail := by
  obtain ⟨next, rest, rfl⟩ := List.exists_cons_of_ne_nil htail
  obtain ⟨first, others, hcons⟩ := List.exists_cons_of_ne_nil
    (show splitLines s ++ [] :: next :: rest ≠ [] by simp)
  rw [hcons, joinLines_cons_cons, ← hcons, joinLines_append (splitLines_ne_nil s) (by simp),
    joinLines_splitLines, joinLines_cons_cons]
  simp [padded]

theorem length_padded_eq (s : Text) :
    (joinLines ([] :: (splitLines s ++ [[]]))).length = (padded s).length := by
  obtain ⟨first, others, hcons⟩ := List.exists_cons_of_ne_nil
    (show splitLines s ++ [[]] ≠ [] by simp)
  rw [hcons, joinLines_cons_cons, ← hcons, joinLines_append (splitLines_ne_nil s) (by simp),
    joinLines_splitLines, joinLines_singleton]
  simp [padded]

/-- A section up to the other header. -/
theorem section_before_header {s other : Text} {more : List Text} (hs : Body s)
    (hother : '\n' ∉ other) (hink : other ≠ []) (hfree : other ∉ splitLines s) (hmore : more ≠ [])
    (hplain : ∀ line ∈ more, '\n' ∉ line) :
    (let rest := joinLines ([] :: (splitLines s ++ [] :: other :: more))
     sectionText (rest.take (sectionEnd other rest))) = s := by
  have hlines : ∀ line ∈ splitLines s ++ [] :: other :: more, '\n' ∉ line := by
    intro line hline
    rcases List.mem_append.mp hline with hin | hin
    · exact LineText.notMem_of_mem_splitOn hin
    · rcases List.mem_cons.mp hin with rfl | hin
      · exact List.not_mem_nil
      · rcases List.mem_cons.mp hin with rfl | hin
        · exact hother
        · exact hplain line hin
  have hbefore : lineBefore other (splitLines s ++ [] :: other :: more) =
      some (splitLines s ++ [[]]) := by
    have hfront : other ∉ splitLines s ++ [[]] := by
      simp [hfree, hink]
    have happend := lineBefore_append hfront hmore
    rwa [List.append_assoc, List.singleton_append] at happend
  have hheader := textFind_header hother List.not_mem_nil hlines
  rw [hbefore, Option.map_some, length_padded_eq] at hheader
  have hrest := joinLines_padded s (List.cons_ne_nil other more)
  have hfooter := textFind_append_newline newline_notMem_footerMarker footerMarker_ne_nil
    (not_footer_infix_padded hs) (joinLines (other :: more))
  rw [← hrest] at hfooter
  have hend : sectionEnd other (joinLines ([] :: (splitLines s ++ [] :: other :: more))) =
      (padded s).length := by
    rw [sectionEnd, hheader, hfooter]
    cases textFind footerMarker (joinLines (other :: more)) with
    | none => rfl
    | some k =>
        change min (padded s).length (k + ((padded s).length + 1)) = (padded s).length
        omega
  dsimp only
  rw [hend, hrest, List.take_left, sectionText_padded hs]

theorem footer_shape : textFind footerMarker footer = some 4 ∧
    '\n' :: footer = "\n---\n".toList ++ footer.drop 4 := by
  unfold footer
  rw [String.toList_append]
  repeat rw [String.toList_ofList]
  decide +kernel

/-- A section up to the footer. -/
theorem section_before_footer {s other : Text} (hs : Body s) (hother : '\n' ∉ other)
    (hink : other ≠ []) (hfree : other ∉ splitLines s) (hfooter : other ∉ footerLines) :
    (let rest := joinLines ([] :: (splitLines s ++ [] :: footerLines))
     sectionText (rest.take (sectionEnd other rest))) = s := by
  have hlines : ∀ line ∈ splitLines s ++ [] :: footerLines, '\n' ∉ line := by
    intro line hline
    rcases List.mem_append.mp hline with hin | hin
    · exact LineText.notMem_of_mem_splitOn hin
    · rcases List.mem_cons.mp hin with rfl | hin
      · exact List.not_mem_nil
      · exact LineText.notMem_of_mem_splitOn hin
  have hnone : lineBefore other (splitLines s ++ [] :: footerLines) = none := by
    apply lineBefore_of_notMem
    simp [hfree, hink, hfooter]
  have hheader := textFind_header hother List.not_mem_nil hlines
  rw [hnone, Option.map_none] at hheader
  have hrest := joinLines_padded s (splitLines_ne_nil footer)
  rw [joinLines_splitLines] at hrest
  have hfind := textFind_append_newline newline_notMem_footerMarker footerMarker_ne_nil
    (not_footer_infix_padded hs) footer
  obtain ⟨hfour, hfoot⟩ := footer_shape
  rw [hfour, ← hrest] at hfind
  have hend : sectionEnd other (joinLines ([] :: (splitLines s ++ [] :: footerLines))) =
      (padded s ++ "\n---\n".toList).length := by
    rw [sectionEnd, hheader, show footerLines = splitLines footer from rfl, hfind]
    change 4 + ((padded s).length + 1) = _
    rw [List.length_append]
    change 4 + ((padded s).length + 1) = (padded s).length + 5
    omega
  have hsplit : padded s ++ '\n' :: footer =
      (padded s ++ "\n---\n".toList) ++ footer.drop 4 := by
    rw [hfoot, List.append_assoc]
  dsimp only
  rw [hend, show footerLines = splitLines footer from rfl, hrest, hsplit, List.take_left,
    sectionText_separator hs]

/-- A section that has the other header is read cut short. -/
theorem section_cut {s other : Text} {tail : List Text} (hother : '\n' ∉ other)
    (hink : other ≠ []) (hin : other ∈ splitLines s) (hplain : ∀ line ∈ tail, '\n' ∉ line) :
    (let rest := joinLines ([] :: (splitLines s ++ [] :: tail))
     sectionText (rest.take (sectionEnd other rest))) ≠ s := by
  obtain ⟨front, back, hsplit, hfirst⟩ := List.eq_append_cons_of_mem hin
  have hlines : ∀ line ∈ splitLines s ++ [] :: tail, '\n' ∉ line := by
    intro line hline
    rcases List.mem_append.mp hline with hin | hin
    · exact LineText.notMem_of_mem_splitOn hin
    · rcases List.mem_cons.mp hin with rfl | hin
      · exact List.not_mem_nil
      · exact hplain line hin
  have hbefore : lineBefore other (splitLines s ++ [] :: tail) = some front := by
    rw [hsplit, List.append_assoc, List.cons_append]
    exact lineBefore_append hfirst (by simp)
  have hheader := textFind_header hother List.not_mem_nil hlines
  rw [hbefore, Option.map_some] at hheader
  have hend : sectionEnd other (joinLines ([] :: (splitLines s ++ [] :: tail))) ≤
      (joinLines ([] :: front)).length := by
    rw [sectionEnd, hheader]
    cases textFind footerMarker (joinLines ([] :: (splitLines s ++ [] :: tail))) with
    | none => exact Nat.le_refl _
    | some k => exact Nat.min_le_left _ k
  have hlength := length_joinLines_cons [] front
  have hwhole : s.length + 1 = offset (splitLines s) := by
    obtain ⟨line, others, hcons⟩ := List.exists_cons_of_ne_nil (splitLines_ne_nil s)
    rw [hcons, ← length_joinLines_cons, ← hcons, joinLines_splitLines]
  have hlong : 0 < other.length := List.length_pos_iff.mpr hink
  dsimp only
  intro heq
  have hle := (sectionText_isInside ((joinLines ([] :: (splitLines s ++ [] :: tail))).take
    (sectionEnd other (joinLines ([] :: (splitLines s ++ [] :: tail)))))).length_le
  rw [heq, List.length_take] at hle
  rw [hsplit] at hwhole
  simp only [offset, List.map_cons, List.map_append, List.sum_cons, List.sum_append,
    List.length_nil] at hlength hwhole
  omega

/-! ## The sections of a file -/

/-- The header line of a section. -/
def UserSection.header : UserSection → Text
  | .skills => skillsSectionHeader
  | .manual => manualSectionHeader

def UserSection.other : UserSection → UserSection
  | .skills => .manual
  | .manual => .skills

theorem newline_notMem_header (a : UserSection) : '\n' ∉ a.header := by
  cases a <;> decide

theorem header_ne_nil (a : UserSection) : a.header ≠ [] := by
  cases a <;> decide

theorem header_other_ne (a : UserSection) : a.other.header ≠ a.header := by
  cases a <;> decide

theorem header_notMem_footerLines (a : UserSection) : a.header ∉ footerLines := by
  unfold footerLines footer
  rw [String.toList_append]
  repeat rw [String.toList_ofList]
  cases a <;> decide +kernel

/-- One section of a file that is read. -/
def sectionOf (content : Text) (a : UserSection) : Option Text :=
  (findHeader content a.header).bind fun i =>
    extractSectionBody content i a.header a.other.header

theorem parsePreservedSections_some (content : Text) :
    parsePreservedSections (some content) =
      ⟨sectionOf content .skills, sectionOf content .manual,
        sectionOrder ((sectionOf content .skills).bind fun _ => findHeader content skillsSectionHeader)
          ((sectionOf content .manual).bind fun _ => findHeader content manualSectionHeader)⟩ := rfl

/-- The lines of a section in a file. -/
def sectionLines (a : UserSection) (section_ : Text) : List Text :=
  a.header :: [] :: (splitLines section_ ++ [[]])

variable {front : List Text}

/-- The section under the first header line. -/
theorem sectionOf_lines {a : UserSection} {back : List Text} (hfront : a.header ∉ front)
    (hback : back ≠ []) (hplain : ∀ line ∈ front ++ a.header :: back, '\n' ∉ line) :
    findHeader (joinLines (front ++ a.header :: back)) a.header = some (offset front) ∧
      sectionOf (joinLines (front ++ a.header :: back)) a =
        (let rest := joinLines back
         let body := sectionText (rest.take (sectionEnd a.other.header rest))
         if body = [] then none else some body) := by
  have hfind := findHeader_joinLines (newline_notMem_header a) hplain (by simp)
  rw [lineBefore_append hfront hback, Option.map_some] at hfind
  refine ⟨hfind, ?_⟩
  rw [sectionOf, hfind, Option.bind_some, extractSectionBody_eq, drop_joinLines front a.header hback]

theorem sectionOf_none {a : UserSection} {lines : List Text} (hne : lines ≠ [])
    (hplain : ∀ line ∈ lines, '\n' ∉ line) (h : a.header ∉ lines) :
    sectionOf (joinLines lines) a = none := by
  rw [sectionOf, findHeader_joinLines (newline_notMem_header a) hplain hne, lineBefore_of_notMem h]
  rfl

theorem newline_notMem_padding {s line : Text} {more : List Text}
    (hmore : ∀ line ∈ more, '\n' ∉ line) (h : line ∈ [] :: (splitLines s ++ [] :: more)) :
    '\n' ∉ line := by
  rcases List.mem_cons.mp h with rfl | hin
  · exact List.not_mem_nil
  · rcases List.mem_append.mp hin with hs | hrest
    · exact LineText.notMem_of_mem_splitOn hs
    · rcases List.mem_cons.mp hrest with rfl | hin
      · exact List.not_mem_nil
      · exact hmore line hin

theorem newline_notMem_footerLines {line : Text} (h : line ∈ footerLines) : '\n' ∉ line :=
  LineText.notMem_of_mem_splitOn h

theorem newline_notMem_lines {a : UserSection} {s : Text} {more : List Text}
    (hfront : ∀ line ∈ front, '\n' ∉ line) (hmore : ∀ line ∈ more, '\n' ∉ line) :
    ∀ line ∈ front ++ a.header :: ([] :: (splitLines s ++ [] :: more)), '\n' ∉ line := by
  intro line hline
  rcases List.mem_append.mp hline with hin | hin
  · exact hfront line hin
  · rcases List.mem_cons.mp hin with rfl | hin
    · exact newline_notMem_header a
    · exact newline_notMem_padding hmore hin

/-- The file of one section: it is read back when it does not have the other header. -/
theorem sectionOf_one {a : UserSection} {s : Text} (hs : Body s)
    (hfront : ∀ line ∈ front, '\n' ∉ line) (ha : a.header ∉ front) :
    sectionOf (joinLines (front ++ a.header :: ([] :: (splitLines s ++ [] :: footerLines)))) a =
      some s ↔ a.other.header ∉ splitLines s := by
  obtain ⟨-, hsection⟩ := sectionOf_lines ha (List.cons_ne_nil _ _)
    (newline_notMem_lines (s := s) hfront fun _ => newline_notMem_footerLines)
  rw [hsection]
  constructor
  · intro hread hin
    apply section_cut (newline_notMem_header _) (header_ne_nil _) hin
      fun _ => newline_notMem_footerLines
    dsimp only at hread ⊢
    split_ifs at hread
    exact Option.some.inj hread
  · intro hfree
    have hbody := section_before_footer hs (newline_notMem_header _) (header_ne_nil _) hfree
      (header_notMem_footerLines _)
    dsimp only at hbody ⊢
    rw [hbody, if_neg hs.notEmpty]

/-- The first of two sections. -/
theorem sectionOf_first {a : UserSection} {s : Text} {more : List Text} (hs : Body s)
    (hfront : ∀ line ∈ front, '\n' ∉ line) (ha : a.header ∉ front) (hmore : more ≠ [])
    (hplain : ∀ line ∈ more, '\n' ∉ line) :
    sectionOf (joinLines (front ++ a.header ::
        ([] :: (splitLines s ++ [] :: a.other.header :: more)))) a = some s ↔
      a.other.header ∉ splitLines s := by
  have htail : ∀ line ∈ a.other.header :: more, '\n' ∉ line :=
    List.forall_mem_cons.mpr ⟨newline_notMem_header _, hplain⟩
  obtain ⟨-, hsection⟩ := sectionOf_lines ha (List.cons_ne_nil _ _)
    (newline_notMem_lines (s := s) hfront htail)
  rw [hsection]
  constructor
  · intro hread hin
    apply section_cut (newline_notMem_header _) (header_ne_nil _) hin htail
    dsimp only at hread ⊢
    split_ifs at hread
    exact Option.some.inj hread
  · intro hfree
    have hbody := section_before_header hs (newline_notMem_header _) (header_ne_nil _) hfree hmore
      hplain
    dsimp only at hbody ⊢
    rw [hbody, if_neg hs.notEmpty]

/-! ## What reading returns -/

def oneSection : UserSection → Text → PreservedSections
  | .skills, s => ⟨some s, none, [.skills]⟩
  | .manual, s => ⟨none, some s, [.manual]⟩

/-- Both sections, the one named first. -/
def twoSections : UserSection → Text → Text → PreservedSections
  | .skills, s, t => ⟨some s, some t, [.skills, .manual]⟩
  | .manual, s, t => ⟨some t, some s, [.manual, .skills]⟩

/-- The sections that a file can have. -/
inductive Readable : PreservedSections → Prop where
  | none : Readable ⟨none, none, []⟩
  | one {s : Text} (a : UserSection) (hs : Body s) : Readable (oneSection a s)
  | two {s t : Text} (a : UserSection) (hs : Body s) (ht : Body t) : Readable (twoSections a s t)

/-- No section has the header line of the other. -/
def Separable (p : PreservedSections) : Prop :=
  (∀ s ∈ p.skills, manualSectionHeader ∉ splitLines s) ∧
    ∀ m ∈ p.manual, skillsSectionHeader ∉ splitLines m

theorem separable_one {a : UserSection} {s : Text} :
    Separable (oneSection a s) ↔ a.other.header ∉ splitLines s := by
  cases a <;> simp [Separable, oneSection, UserSection.other, UserSection.header]

theorem separable_two {a : UserSection} {s t : Text} :
    Separable (twoSections a s t) ↔
      a.other.header ∉ splitLines s ∧ a.header ∉ splitLines t := by
  cases a <;> simp [Separable, twoSections, UserSection.other, UserSection.header, and_comm]

theorem parse_eq_one {content : Text} {a : UserSection} {s : Text} :
    parsePreservedSections (some content) = oneSection a s ↔
      sectionOf content a = some s ∧ sectionOf content a.other = none := by
  rw [parsePreservedSections_some]
  constructor
  · intro h
    cases a with
    | skills => exact ⟨congrArg PreservedSections.skills h, congrArg PreservedSections.manual h⟩
    | manual => exact ⟨congrArg PreservedSections.manual h, congrArg PreservedSections.skills h⟩
  · rintro ⟨hs, hnone⟩
    obtain ⟨i, hi, -⟩ := Option.bind_eq_some_iff.mp hs
    cases a with
    | skills =>
        simp only [UserSection.other] at hnone
        simp only [UserSection.header] at hi
        rw [hs, hnone, Option.bind_some, Option.bind_none, hi]
        rfl
    | manual =>
        simp only [UserSection.other] at hnone
        simp only [UserSection.header] at hi
        rw [hs, hnone, Option.bind_some, Option.bind_none, hi]
        rfl

theorem parse_eq_two {content : Text} {a : UserSection} {s t : Text} {i j : Nat}
    (hi : findHeader content a.header = some i) (hj : findHeader content a.other.header = some j)
    (hlt : i < j) :
    parsePreservedSections (some content) = twoSections a s t ↔
      sectionOf content a = some s ∧ sectionOf content a.other = some t := by
  rw [parsePreservedSections_some]
  constructor
  · intro h
    cases a with
    | skills => exact ⟨congrArg PreservedSections.skills h, congrArg PreservedSections.manual h⟩
    | manual => exact ⟨congrArg PreservedSections.manual h, congrArg PreservedSections.skills h⟩
  · rintro ⟨hs, ht⟩
    cases a with
    | skills =>
        simp only [UserSection.other] at ht
        simp only [UserSection.other, UserSection.header] at hi hj
        rw [hs, ht, Option.bind_some, Option.bind_some, hi, hj, sectionOrder,
          if_neg (Nat.not_lt.mpr hlt.le)]
        rfl
    | manual =>
        simp only [UserSection.other] at ht
        simp only [UserSection.other, UserSection.header] at hi hj
        rw [hs, ht, Option.bind_some, Option.bind_some, hi, hj, sectionOrder, if_pos hlt]
        rfl

theorem readable_parse {content : Text} (hcontent : '\r' ∉ content) :
    Readable (parsePreservedSections (some content)) := by
  have hbody : ∀ {a : UserSection} {s : Text}, sectionOf content a = some s → Body s := by
    intro a s hs
    obtain ⟨i, -, hextract⟩ := Option.bind_eq_some_iff.mp hs
    exact body_of_extract hcontent hextract
  cases hskills : sectionOf content .skills with
  | none =>
      cases hmanual : sectionOf content .manual with
      | none =>
          rw [parsePreservedSections_some, hskills, hmanual]
          exact .none
      | some m =>
          rw [parse_eq_one.mpr ⟨hmanual, hskills⟩]
          exact .one .manual (hbody hmanual)
  | some s =>
      cases hmanual : sectionOf content .manual with
      | none =>
          rw [parse_eq_one.mpr ⟨hskills, hmanual⟩]
          exact .one .skills (hbody hskills)
      | some m =>
          obtain ⟨i, hi, -⟩ := Option.bind_eq_some_iff.mp hskills
          obtain ⟨j, hj, -⟩ := Option.bind_eq_some_iff.mp hmanual
          simp only [UserSection.header] at hi hj
          rw [parsePreservedSections_some, hskills, hmanual, Option.bind_some, Option.bind_some,
            hi, hj, sectionOrder]
          split_ifs
          · exact .two .manual (hbody hmanual) (hbody hskills)
          · exact .two .skills (hbody hskills) (hbody hmanual)

theorem readable_parsePreservedSections (file : Option Text) :
    Readable (parsePreservedSections (file.map universalNewlines)) := by
  cases file with
  | none => exact .none
  | some content => exact readable_parse (notMem_universalNewlines content)

/-! ## Sections written and read back -/

/-- No line is a header. -/
def HeaderFree (lines : List Text) : Prop :=
  ∀ a : UserSection, a.header ∉ lines

def PreservedSections.get (p : PreservedSections) : UserSection → Option Text
  | .skills => p.skills
  | .manual => p.manual

/-- The lines of the user's part of a generated file. -/
def userLines (p : PreservedSections) : List Text :=
  (if p.order = [] then [manualSectionHeader, []]
    else p.order.flatMap fun a => sectionLines a ((p.get a).getD [])) ++ footerLines

theorem userLines_none :
    userLines ⟨none, none, []⟩ = manualSectionHeader :: [] :: footerLines := by
  simp [userLines]

theorem userLines_one (a : UserSection) (s : Text) :
    userLines (oneSection a s) =
      a.header :: ([] :: (splitLines s ++ [] :: footerLines)) := by
  cases a <;> simp [userLines, oneSection, sectionLines, PreservedSections.get]

theorem userLines_two (a : UserSection) (s t : Text) :
    userLines (twoSections a s t) =
      a.header :: ([] :: (splitLines s ++ [] :: a.other.header ::
        ([] :: (splitLines t ++ [] :: footerLines)))) := by
  cases a <;>
    simp [userLines, twoSections, sectionLines, PreservedSections.get, UserSection.other]

section
variable (hplain : ∀ line ∈ front, '\n' ∉ line) (hfront : HeaderFree front)
include hplain hfront

theorem parse_none_lines :
    parsePreservedSections (some (joinLines (front ++ userLines ⟨none, none, []⟩))) =
      ⟨none, none, []⟩ := by
  have hlines : ∀ line ∈ front ++ manualSectionHeader :: [] :: footerLines, '\n' ∉ line := by
    intro line hline
    rcases List.mem_append.mp hline with hin | hin
    · exact hplain line hin
    · rcases List.mem_cons.mp hin with rfl | hin
      · exact newline_notMem_header .manual
      · rcases List.mem_cons.mp hin with rfl | hin
        · exact List.not_mem_nil
        · exact newline_notMem_footerLines hin
  obtain ⟨-, hmanual⟩ := sectionOf_lines (a := .manual) (hfront .manual)
    (List.cons_ne_nil [] footerLines) hlines
  have hempty : (let rest := joinLines ([] :: footerLines)
      let body := sectionText (rest.take (sectionEnd UserSection.manual.other.header rest))
      if body = [] then none else some body) = none := by
    unfold footerLines footer
    rw [String.toList_append]
    repeat rw [String.toList_ofList]
    decide +kernel
  have hskills : sectionOf (joinLines (front ++ manualSectionHeader :: [] :: footerLines)) .skills =
      none := by
    apply sectionOf_none (by simp) hlines
    have hfoot : skillsSectionHeader ∉ footerLines := header_notMem_footerLines .skills
    have hne : skillsSectionHeader ≠ manualSectionHeader := by decide
    have hink : skillsSectionHeader ≠ [] := by decide
    have hskillsFront : skillsSectionHeader ∉ front := hfront .skills
    simp [UserSection.header, hskillsFront, hfoot, hne, hink]
  have hnone : sectionOf (joinLines (front ++ manualSectionHeader :: [] :: footerLines)) .manual =
      none := hmanual.trans hempty
  rw [userLines_none, parsePreservedSections_some, hskills, hnone]
  rfl

theorem parse_one_lines {a : UserSection} {s : Text} (hs : Body s) :
    parsePreservedSections (some (joinLines (front ++ userLines (oneSection a s)))) =
      oneSection a s ↔ Separable (oneSection a s) := by
  rw [userLines_one, separable_one, parse_eq_one, sectionOf_one hs hplain (hfront a)]
  constructor
  · exact And.left
  · intro hfree
    refine ⟨hfree, sectionOf_none (by simp) (newline_notMem_lines (s := s) hplain
      fun _ => newline_notMem_footerLines) ?_⟩
    simp [hfront a.other, header_other_ne, header_ne_nil, hfree, header_notMem_footerLines]

theorem parse_two_lines {a : UserSection} {s t : Text} (hs : Body s) (ht : Body t) :
    parsePreservedSections (some (joinLines (front ++ userLines (twoSections a s t)))) =
      twoSections a s t ↔ Separable (twoSections a s t) := by
  have hmore : ∀ line ∈ [] :: (splitLines t ++ [] :: footerLines), '\n' ∉ line :=
    fun _ => newline_notMem_padding fun _ => newline_notMem_footerLines
  have htail : ∀ line ∈ a.other.header :: ([] :: (splitLines t ++ [] :: footerLines)),
      '\n' ∉ line := List.forall_mem_cons.mpr ⟨newline_notMem_header _, hmore⟩
  have hfirst := sectionOf_first (a := a) hs hplain (hfront a)
    (List.cons_ne_nil [] (splitLines t ++ [] :: footerLines)) hmore
  obtain ⟨hi, -⟩ := sectionOf_lines (hfront a) (List.cons_ne_nil _ _)
    (newline_notMem_lines (s := s) hplain htail)
  rw [userLines_two, separable_two]
  -- the second section is the only one behind the lines of the first
  have hsecond (hfree : a.other.header ∉ splitLines s) :
      (∃ j, offset front < j ∧ findHeader (joinLines (front ++ a.header :: ([] :: (splitLines s ++
        [] :: a.other.header :: ([] :: (splitLines t ++ [] :: footerLines))))))
          a.other.header = some j) ∧
      (sectionOf (joinLines (front ++ a.header :: ([] :: (splitLines s ++
        [] :: a.other.header :: ([] :: (splitLines t ++ [] :: footerLines)))))) a.other = some t ↔
          a.header ∉ splitLines t) := by
    have hshape : front ++ a.header :: ([] :: (splitLines s ++ [] :: a.other.header ::
        ([] :: (splitLines t ++ [] :: footerLines)))) =
        (front ++ sectionLines a s) ++ a.other.header ::
          ([] :: (splitLines t ++ [] :: footerLines)) := by
      simp [sectionLines]
    have hfree' : a.other.header ∉ front ++ sectionLines a s := by
      simp [sectionLines, hfront a.other, header_other_ne, header_ne_nil, hfree]
    have hplain' : ∀ line ∈ front ++ sectionLines a s, '\n' ∉ line := by
      have hnone : ∀ line ∈ ([] : List Text), '\n' ∉ line :=
        fun _ h => absurd h List.not_mem_nil
      exact newline_notMem_lines hplain hnone
    have hother : a.other.other = a := by cases a <;> rfl
    have hone := sectionOf_one (a := a.other) ht hplain' hfree'
    obtain ⟨hj, -⟩ := sectionOf_lines hfree' (List.cons_ne_nil _ _)
      (newline_notMem_lines (s := t) hplain' fun _ => newline_notMem_footerLines)
    rw [hother] at hone
    rw [hshape]
    refine ⟨⟨_, ?_, hj⟩, hone⟩
    simp only [offset, sectionLines, List.map_append, List.sum_append, List.map_cons, List.sum_cons]
    omega
  constructor
  · intro hread
    have hs' : sectionOf (joinLines (front ++ a.header :: ([] :: (splitLines s ++
        [] :: a.other.header :: ([] :: (splitLines t ++ [] :: footerLines)))))) a = some s := by
      rw [parsePreservedSections_some] at hread
      cases a with
      | skills => exact congrArg PreservedSections.skills hread
      | manual => exact congrArg PreservedSections.manual hread
    have hfree := hfirst.mp hs'
    obtain ⟨⟨j, hlt, hj⟩, hone⟩ := hsecond hfree
    exact ⟨hfree, hone.mp ((parse_eq_two hi hj hlt).mp hread).2⟩
  · rintro ⟨hfree, hlast⟩
    obtain ⟨⟨j, hlt, hj⟩, hone⟩ := hsecond hfree
    exact (parse_eq_two hi hj hlt).mpr ⟨hfirst.mpr hfree, hone.mpr hlast⟩

/-- Behind lines without headers the sections are read back when none has the other's header. -/
theorem parse_userLines {p : PreservedSections} (hp : Readable p) :
    parsePreservedSections (some (joinLines (front ++ userLines p))) = p ↔ Separable p := by
  cases hp with
  | none =>
      have hseparable : Separable ⟨none, none, []⟩ := by simp [Separable]
      exact iff_of_true (parse_none_lines hplain hfront) hseparable
  | one a hs => exact parse_one_lines hplain hfront hs
  | two a hs ht => exact parse_two_lines hplain hfront hs ht

end

end AgentsMd
end Client
end Nauro
