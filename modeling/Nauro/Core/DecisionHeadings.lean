import Nauro.Core.DecisionReformat

/-!
# Headings and the lines they stand on

The white space of the heading patterns runs over line ends, so a heading that is left
unfinished takes what follows it, on whatever line that stands.
-/

namespace Nauro
namespace Core

open Foundation

/-! ## The line grammar -/

/-- A run of white space that is not empty. -/
def Gap (gap : Text) : Prop :=
  gap ≠ [] ∧ ∀ c ∈ gap, isSpace c = true

/-- A run of ASCII digits that is not empty. -/
def Number (digits : Text) : Prop :=
  digits ≠ [] ∧ ∀ c ∈ digits, c.isDigit = true

/-- `# digits — title`, with a title that has ink. -/
def TitleLine (line title : Text) : Prop :=
  ∃ gap₁ digits gap₂ gap₃ rest, ∃ c : Char,
    line = '#' :: (gap₁ ++ (digits ++ (gap₂ ++ '—' :: (gap₃ ++ c :: rest)))) ∧
      Gap gap₁ ∧ Number digits ∧ Gap gap₂ ∧ Gap gap₃ ∧ isSpace c = false ∧
      title = strip (c :: rest)

/-- `#`, `# digits` or `# digits —`, with nothing but white space after it. -/
inductive Unfinished : Text → Prop where
  | bare {gap : Text} (hgap : ∀ c ∈ gap, isSpace c = true) : Unfinished ('#' :: gap)
  | numbered {gap₁ digits gap₂ : Text} (hgap₁ : Gap gap₁) (hdigits : Number digits)
      (hgap₂ : ∀ c ∈ gap₂, isSpace c = true) : Unfinished ('#' :: (gap₁ ++ (digits ++ gap₂)))
  | dashed {gap₁ digits gap₂ gap₃ : Text} (hgap₁ : Gap gap₁) (hdigits : Number digits)
      (hgap₂ : Gap gap₂) (hgap₃ : ∀ c ∈ gap₃, isSpace c = true) :
      Unfinished ('#' :: (gap₁ ++ (digits ++ (gap₂ ++ '—' :: gap₃))))

/-- What follows `###` on its own line, when that is not blank. -/
def headingName? (line : Text) : Option Text :=
  match headingRest? line with
  | some rest => if isBlank rest then none else some (strip rest)
  | none => none

/-- A `###` line without a name. -/
def BareHeading (line : Text) : Prop :=
  ∃ rest, headingRest? line = some rest ∧ isBlank rest = true

/-! ## The title pattern, piece by piece -/

theorem isDigit_not_space {c : Char} (h : c.isDigit = true) : isSpace c = false := by
  have hrange := digit_range h
  have hzero : '0'.toNat = 48 := rfl
  simp only [isSpace, Bool.or_eq_false_iff, Bool.and_eq_false_iff, decide_eq_false_iff_not,
    beq_eq_false_iff_ne]
  omega

theorem space_not_digit {c : Char} (h : isSpace c = true) : c.isDigit = false := by
  cases hdigit : c.isDigit with
  | false => rfl
  | true =>
      rw [isDigit_not_space hdigit] at h
      cases h

/-- A run satisfying `p` is dropped up to where `p` fails. -/
theorem dropWhile_run {p : Char → Bool} {run rest : Text} (hrun : ∀ c ∈ run, p c = true)
    (hrest : ∀ c ∈ rest.head?, p c = false) : (run ++ rest).dropWhile p = rest := by
  rw [Trim.dropWhile_append_of_all hrun, Trim.dropWhile_eq_self hrest]

theorem takeWhile_run {p : Char → Bool} {run rest : Text} (hrun : ∀ c ∈ run, p c = true)
    (hrest : ∀ c ∈ rest.head?, p c = false) : (run ++ rest).takeWhile p = run := by
  have hdrop := dropWhile_run hrun hrest
  have hsplit := List.takeWhile_append_dropWhile (p := p) (l := run ++ rest)
  rw [hdrop] at hsplit
  exact List.append_cancel_right hsplit

theorem takeWhile_ne_nil {p : Char → Bool} {text : Text} (h : text.head?.any p = true) :
    text.takeWhile p ≠ [] := by
  cases text with
  | nil => cases h
  | cons c text =>
      have hc : p c = true := h
      simp [hc]

theorem Gap.head {gap : Text} (h : Gap gap) (rest : Text) :
    ∃ c, (gap ++ rest).head? = some c ∧ isSpace c = true := by
  obtain ⟨hne, hall⟩ := h
  obtain ⟨c, gap, rfl⟩ := List.exists_cons_of_ne_nil hne
  exact ⟨c, rfl, hall c (List.mem_cons_self ..)⟩

theorem Number.head {digits : Text} (h : Number digits) (rest : Text) :
    ∃ c, (digits ++ rest).head? = some c ∧ c.isDigit = true := by
  obtain ⟨hne, hall⟩ := h
  obtain ⟨c, digits, rfl⟩ := List.exists_cons_of_ne_nil hne
  exact ⟨c, rfl, hall c (List.mem_cons_self ..)⟩

theorem Number.dropWhile_space {digits : Text} (h : Number digits) (rest : Text) :
    ∀ c ∈ (digits ++ rest).head?, isSpace c = false := by
  intro c hc
  obtain ⟨d, hd, hdigit⟩ := h.head rest
  rw [Option.mem_def, hd] at hc
  cases hc
  exact isDigit_not_space hdigit

/-- The pattern passes a gap, a number and the white space after it. -/
theorem past_number {gap₁ digits gap₂ rest : Text} (hgap₁ : Gap gap₁) (hdigits : Number digits)
    (hgap₂ : ∀ c ∈ gap₂, isSpace c = true) (hrest : ∀ c ∈ rest.head?, isSpace c = false)
    (hstop : ∀ c ∈ (gap₂ ++ rest).head?, c.isDigit = false) :
    (gap₁ ++ (digits ++ (gap₂ ++ rest))).dropWhile isSpace = digits ++ (gap₂ ++ rest) ∧
      (digits ++ (gap₂ ++ rest)).dropWhile Char.isDigit = gap₂ ++ rest ∧
      (gap₂ ++ rest).dropWhile isSpace = rest :=
  ⟨dropWhile_run hgap₁.2 (hdigits.dropWhile_space _), dropWhile_run hdigits.2 hstop,
    dropWhile_run hgap₂ hrest⟩

theorem Gap.stops {gap : Text} (h : Gap gap) (rest : Text) :
    ∀ c ∈ (gap ++ rest).head?, c.isDigit = false := by
  intro c hc
  obtain ⟨s, hs, hspace⟩ := h.head rest
  rw [Option.mem_def, hs] at hc
  cases hc
  exact space_not_digit hspace

/-- Past the number and the dash, the title is what counts. -/
theorem h1At_dashed {gap₁ digits gap₂ : Text} (hgap₁ : Gap gap₁) (hdigits : Number digits)
    (hgap₂ : Gap gap₂) (after : Text) :
    h1At ('#' :: (gap₁ ++ (digits ++ (gap₂ ++ '—' :: after)))) = titleAfterDash after := by
  have hdash : ∀ c ∈ ('—' :: after).head?, isSpace c = false := by
    intro c hc
    cases hc
    decide
  obtain ⟨hnumber, hafter, hrest⟩ := past_number hgap₁ hdigits hgap₂.2 hdash (hgap₂.stops _)
  obtain ⟨s, hs, hspace⟩ := hgap₁.head (digits ++ (gap₂ ++ '—' :: after))
  obtain ⟨d, hd, hdigit⟩ := hdigits.head (gap₂ ++ '—' :: after)
  obtain ⟨t, ht, hspace'⟩ := hgap₂.head ('—' :: after)
  unfold h1At
  simp only [hnumber, hafter, hrest, hs, hd, ht, hspace, hdigit, hspace', Option.any_some,
    Bool.true_and, if_true]

/-- White space alone after the number is no heading. -/
theorem h1At_numbered {gap₁ digits gap₂ : Text} (hgap₁ : Gap gap₁) (hdigits : Number digits)
    (hgap₂ : ∀ c ∈ gap₂, isSpace c = true) :
    h1At ('#' :: (gap₁ ++ (digits ++ gap₂))) = none := by
  have hstop : ∀ c ∈ (gap₂ ++ []).head?, c.isDigit = false := by
    intro c hc
    rw [List.append_nil] at hc
    exact space_not_digit (hgap₂ c (List.mem_of_mem_head? hc))
  obtain ⟨hnumber, hafter, hrest⟩ := past_number hgap₁ hdigits hgap₂ (by simp) hstop
  rw [List.append_nil] at hnumber hafter hrest
  unfold h1At
  simp only [hnumber, hafter, hrest]

/-- The texts at whose start the title pattern matches. -/
theorem h1At_eq_some_iff {text title : Text} :
    h1At text = some title ↔
      ∃ gap₁ digits gap₂ after,
        text = '#' :: (gap₁ ++ (digits ++ (gap₂ ++ '—' :: after))) ∧
          Gap gap₁ ∧ Number digits ∧ Gap gap₂ ∧ titleAfterDash after = some title := by
  constructor
  · intro h
    unfold h1At at h
    split at h
    · next rest =>
        simp only at h
        split at h
        · next after hdash =>
            split at h
            · next hheads =>
                simp only [Bool.and_eq_true] at hheads
                obtain ⟨⟨hspace, hdigit⟩, hgap⟩ := hheads
                refine ⟨rest.takeWhile isSpace,
                  (rest.dropWhile isSpace).takeWhile Char.isDigit,
                  ((rest.dropWhile isSpace).dropWhile Char.isDigit).takeWhile isSpace, after,
                  ?_, ⟨?_, fun c hc => List.mem_takeWhile_imp hc⟩,
                  ⟨?_, fun c hc => List.mem_takeWhile_imp hc⟩,
                  ⟨?_, fun c hc => List.mem_takeWhile_imp hc⟩, h⟩
                · rw [← hdash, List.takeWhile_append_dropWhile, List.takeWhile_append_dropWhile,
                    List.takeWhile_append_dropWhile]
                · exact takeWhile_ne_nil hspace
                · exact takeWhile_ne_nil hdigit
                · exact takeWhile_ne_nil hgap
            · cases h
        · cases h
    · cases h
  · rintro ⟨gap₁, digits, gap₂, after, rfl, hgap₁, hdigits, hgap₂, htitle⟩
    rw [h1At_dashed hgap₁ hdigits hgap₂, htitle]

/-- What the pattern reads after the dash: a title with ink, or, at the end, nothing. -/
theorem titleAfterDash_eq_some_iff {after title : Text} :
    titleAfterDash after = some title ↔
      (∃ gap c rest, after = gap ++ c :: rest ∧ Gap gap ∧ isSpace c = false ∧
        title = strip ((c :: rest).takeWhile (· != '\n'))) ∨
      ((∀ c ∈ after, isSpace c = true) ∧ (after.drop 1).any (· != '\n') = true ∧ title = []) := by
  constructor
  · intro h
    unfold titleAfterDash at h
    simp only at h
    split at h
    · cases h
    · next hgap =>
        split at h
        · next hrest =>
            left
            obtain ⟨c, rest, hcons⟩ := List.exists_cons_of_ne_nil hrest
            have hc : isSpace c = false := Trim.head?_dropWhile after c (by rw [hcons]; rfl)
            rw [hcons] at h
            refine ⟨after.takeWhile isSpace, c, rest, ?_,
              ⟨hgap, fun c hc => List.mem_takeWhile_imp hc⟩, hc, (Option.some.inj h).symm⟩
            rw [← hcons, List.takeWhile_append_dropWhile]
        · next hrest =>
            split at h
            · next hblank =>
                right
                have hall : ∀ c ∈ after, isSpace c = true :=
                  List.dropWhile_eq_nil_iff.mp (not_not.mp hrest)
                have htake : after.takeWhile isSpace = after := List.takeWhile_eq_self_iff.mpr hall
                rw [htake] at hblank
                exact ⟨hall, hblank, (Option.some.inj h).symm⟩
            · cases h
  · rintro (⟨gap, c, rest, rfl, hgap, hc, rfl⟩ | ⟨hall, hblank, rfl⟩)
    · have hhead : ∀ d ∈ (c :: rest).head?, isSpace d = false := by
        intro d hd
        cases hd
        exact hc
      unfold titleAfterDash
      simp only [takeWhile_run hgap.2 hhead, dropWhile_run hgap.2 hhead]
      rw [if_neg hgap.1, if_pos (List.cons_ne_nil c rest)]
    · have htake : after.takeWhile isSpace = after := List.takeWhile_eq_self_iff.mpr hall
      have hdrop : after.dropWhile isSpace = [] := List.dropWhile_eq_nil_iff.mpr hall
      have hne : after ≠ [] := by
        rintro rfl
        cases hblank
      unfold titleAfterDash
      simp only [htake, hdrop]
      rw [if_neg hne, if_neg (not_not.mpr rfl), if_pos hblank]

/-! ## The line a match starts on -/

/-- The text up to its first line end. -/
def firstLine (text : Text) : Text :=
  text.takeWhile (· != '\n')

theorem firstLine_append_of_notMem {front : Text} (h : '\n' ∉ front) (rest : Text) :
    firstLine (front ++ rest) = front ++ firstLine rest := by
  unfold firstLine
  apply List.takeWhile_append_of_pos
  intro c hc
  have hne : c ≠ '\n' := by
    rintro rfl
    exact h hc
  simpa using hne

theorem firstLine_append_of_mem {front : Text} (h : '\n' ∈ front) (rest : Text) :
    firstLine (front ++ rest) = firstLine front := by
  unfold firstLine
  induction front with
  | nil => cases h
  | cons c front ih =>
      by_cases hc : c = '\n'
      · simp [hc]
      · have hmem : '\n' ∈ front := by
          rcases List.mem_cons.mp h with heq | htail
          · exact absurd heq.symm hc
          · exact htail
        have hpos : (c != '\n') = true := by simpa using hc
        rw [List.cons_append, List.takeWhile_cons, List.takeWhile_cons, if_pos hpos, if_pos hpos,
          ih hmem]

theorem firstLine_blank {text : Text} (h : ∀ c ∈ text, isSpace c = true) :
    ∀ c ∈ firstLine text, isSpace c = true :=
  fun c hc => h c (List.takeWhile_subset _ hc)

theorem Number.notMem {digits : Text} (h : Number digits) : '\n' ∉ digits := by
  intro hmem
  exact absurd (h.2 _ hmem) (by decide)

theorem firstLine_cons {c : Char} (hc : c ≠ '\n') (rest : Text) :
    firstLine (c :: rest) = c :: firstLine rest := by
  have hpos : (c != '\n') = true := by simpa using hc
  rw [firstLine, List.takeWhile_cons, if_pos hpos, firstLine]

/-- A match of the title pattern starts on a title line, whose title it reads, or on a line
that is left unfinished. -/
theorem h1At_firstLine {text title : Text} (h : h1At text = some title) :
    TitleLine (firstLine text) title ∨ Unfinished (firstLine text) := by
  obtain ⟨gap₁, digits, gap₂, after, rfl, hgap₁, hdigits, hgap₂, htitle⟩ := h1At_eq_some_iff.mp h
  rw [firstLine_cons (by decide)]
  by_cases hline₁ : '\n' ∈ gap₁
  · right
    rw [firstLine_append_of_mem hline₁]
    exact .bare (firstLine_blank hgap₁.2)
  rw [firstLine_append_of_notMem hline₁, firstLine_append_of_notMem hdigits.notMem]
  by_cases hline₂ : '\n' ∈ gap₂
  · right
    rw [firstLine_append_of_mem hline₂]
    exact .numbered hgap₁ hdigits (firstLine_blank hgap₂.2)
  rw [firstLine_append_of_notMem hline₂, firstLine_cons (by decide)]
  rcases titleAfterDash_eq_some_iff.mp htitle with
    ⟨gap₃, c, rest, rfl, hgap₃, hc, rfl⟩ | ⟨hall, -, -⟩
  · by_cases hline₃ : '\n' ∈ gap₃
    · right
      rw [firstLine_append_of_mem hline₃]
      exact .dashed hgap₁ hdigits hgap₂ (firstLine_blank hgap₃.2)
    · left
      have hne : c ≠ '\n' := by
        rintro rfl
        exact absurd hc (by decide)
      have hhead : firstLine (c :: rest) = c :: firstLine rest := firstLine_cons hne rest
      rw [firstLine_append_of_notMem hline₃]
      refine ⟨gap₁, digits, gap₂, gap₃, firstLine rest, c, ?_, hgap₁, hdigits, hgap₂, hgap₃, hc,
        congrArg strip hhead⟩
      rw [hhead]
  · right
    exact .dashed hgap₁ hdigits hgap₂ (firstLine_blank hall)

/-- A title line is matched, whatever follows it. -/
theorem h1At_of_titleLine {text title : Text} (h : TitleLine (firstLine text) title) :
    h1At text = some title := by
  obtain ⟨gap₁, digits, gap₂, gap₃, rest, c, hline, hgap₁, hdigits, hgap₂, hgap₃, hc, rfl⟩ := h
  -- past its first line a text starts with a line end
  have htext : text = firstLine text ++ text.dropWhile (· != '\n') :=
    (List.takeWhile_append_dropWhile).symm
  have htitle : (c :: (rest ++ text.dropWhile (· != '\n'))).takeWhile (· != '\n') = c :: rest := by
    have hplain : ∀ d ∈ c :: rest, (d != '\n') = true := by
      intro d hd
      have hmem : d ∈ firstLine text := by
        rw [hline]
        simp only [List.mem_cons, List.mem_append] at hd ⊢
        tauto
      exact List.mem_takeWhile_imp (p := fun x => x != '\n') hmem
    exact takeWhile_run hplain (Trim.head?_dropWhile text)
  rw [h1At_eq_some_iff]
  refine ⟨gap₁, digits, gap₂, gap₃ ++ c :: (rest ++ text.dropWhile (· != '\n')), ?_, hgap₁,
    hdigits, hgap₂, titleAfterDash_eq_some_iff.mpr (.inl ⟨gap₃, c, _, rfl, hgap₃, hc, ?_⟩)⟩
  · conv_lhs => rw [htext, hline]
    simp
  · rw [htitle]

theorem TitleLine.ne_nil {line title : Text} (h : TitleLine line title) : title ≠ [] := by
  obtain ⟨_, _, _, _, rest, c, -, -, -, -, -, hc, rfl⟩ := h
  intro hnil
  have hspace := Trim.trim_eq_nil_iff.mp hnil c (List.mem_cons_self ..)
  rw [hc] at hspace
  cases hspace

/-- On an unfinished line alone there is no title. -/
theorem Unfinished.title_eq_nil {line title : Text} (h : Unfinished line)
    (htitle : h1At line = some title) :
    title = [] := by
  cases h with
  | bare hgap =>
      have hnumber := List.dropWhile_eq_nil_iff.mpr hgap
      unfold h1At at htitle
      simp [hnumber] at htitle
  | numbered hgap₁ hdigits hgap₂ =>
      rw [h1At_numbered hgap₁ hdigits hgap₂] at htitle
      cases htitle
  | dashed hgap₁ hdigits hgap₂ hgap₃ =>
      rw [h1At_dashed hgap₁ hdigits hgap₂] at htitle
      rcases titleAfterDash_eq_some_iff.mp htitle with
        ⟨gap, c, rest, rfl, -, hc, -⟩ | ⟨-, -, hnil⟩
      · have hspace := hgap₃ c (by simp)
        rw [hc] at hspace
        cases hspace
      · exact hnil

theorem firstLine_of_notMem {line : Text} (h : '\n' ∉ line) : firstLine line = line := by
  have happend := firstLine_append_of_notMem h []
  rwa [List.append_nil, show firstLine [] = [] from rfl, List.append_nil] at happend

theorem Unfinished.not_titleLine {line title : Text} (h : Unfinished line) (hplain : '\n' ∉ line) :
    ¬ TitleLine line title := by
  intro htitle
  have hmatch : h1At line = some title := by
    apply h1At_of_titleLine
    rwa [firstLine_of_notMem hplain]
  exact htitle.ne_nil (h.title_eq_nil hmatch)

/-! ## The first match, among the lines -/

/-- Some lines and what follows them, from each line on. -/
def lineStarts : List Text → List Text
  | [] => []
  | line :: rest => joinLines (line :: rest) :: lineStarts rest

theorem lineStarts_splitLines (body : Text) :
    lineStarts (splitLines body) = body :: afterNewlines body := by
  induction body with
  | nil => rfl
  | cons c rest ih =>
      have hjoin := joinLines_splitLines (c :: rest)
      by_cases hc : c = '\n'
      · subst hc
        rw [splitLines_newline_cons] at hjoin ⊢
        rw [lineStarts, hjoin, ih, afterNewlines, if_pos rfl]
      · have hhead : splitLines (c :: rest) = (splitLines rest).modifyHead (List.cons c) :=
          LineText.splitOn_cons_of_ne hc rest
        obtain ⟨line, others, hlines⟩ := List.exists_cons_of_ne_nil (splitLines_ne_nil rest)
        rw [hlines, List.modifyHead_cons] at hhead
        rw [hhead] at hjoin ⊢
        rw [hlines, lineStarts] at ih
        rw [lineStarts, hjoin, (List.cons.inj ih).2, afterNewlines, if_neg hc]

/-- The title pattern matches first at the start of `line`. -/
def FirstMatch (lines front : List Text) (line : Text) (back : List Text) : Prop :=
  lines = front ++ line :: back ∧ (h1At (joinLines (line :: back))).isSome = true ∧
    ∀ k < front.length, h1At (joinLines (lines.drop k)) = none

/-- The title that is read is the one of the first match. -/
theorem findSome?_lineStarts {lines : List Text} {title : Text}
    (h : (lineStarts lines).findSome? h1At = some title) :
    ∃ front line back, FirstMatch lines front line back ∧
      h1At (joinLines (line :: back)) = some title := by
  induction lines with
  | nil => cases h
  | cons line lines ih =>
      rw [lineStarts, List.findSome?_cons] at h
      cases hline : h1At (joinLines (line :: lines)) with
      | some found =>
          rw [hline] at h
          cases h
          refine ⟨[], line, lines, ⟨rfl, by rw [hline]; rfl, ?_⟩, hline⟩
          intro k hk
          cases hk
      | none =>
          rw [hline] at h
          obtain ⟨front, found, back, ⟨rfl, hmatch, hfirst⟩, htitle⟩ := ih h
          refine ⟨line :: front, found, back, ⟨rfl, hmatch, ?_⟩, htitle⟩
          intro k hk
          cases k with
          | zero => exact hline
          | succ k => exact hfirst k (Nat.lt_of_succ_lt_succ hk)

/-! ## Names, line by line -/

theorem ink_of_headingRest? {line rest : Text} (h : headingRest? line = some rest) :
    ink line = 3 + ink rest := by
  unfold headingRest? at h
  split at h
  · next rest' =>
      split at h
      · cases h
        have hhash : isSpace '#' = false := by decide
        simp only [ink, List.countP_cons, hhash]
        simp
        omega
      · cases h
  · cases h

theorem ink_of_headingName? {line name : Text} (h : headingName? line = some name) :
    ink line = 3 + ink name := by
  unfold headingName? at h
  cases hrest : headingRest? line with
  | none =>
      rw [hrest] at h
      cases h
  | some rest =>
      rw [hrest] at h
      simp only at h
      split at h
      · cases h
      · cases h
        rw [ink_strip, ink_of_headingRest? hrest]

theorem headingName?_of_blank {line : Text} (h : isBlank line = true) :
    headingName? line = none := by
  cases hname : headingName? line with
  | none => rfl
  | some name =>
      have hink := ink_of_headingName? hname
      have hzero : ink line = 0 := ink_eq_zero_iff.mpr (List.all_eq_true.mp h)
      omega

/-- The names that are read of some lines. -/
def readNames (pending : Option (List Text)) (lines : List Text) : List Text :=
  (subsections pending lines).2.map fun chunk => strip chunk.1

/-- The names that stand on the heading lines. -/
def lineNames (lines : List Text) : List Text :=
  lines.filterMap headingName?

theorem lineNames_blank {lines : List Text} (h : ∀ line ∈ lines, isBlank line = true) :
    lineNames lines = [] := by
  rw [lineNames, List.filterMap_eq_nil_iff]
  exact fun line hline => headingName?_of_blank (h line hline)

theorem readNames_plain {line : Text} (hline : headingRest? line = none) (lines : List Text) :
    readNames none (line :: lines) = readNames none lines := by
  rw [readNames, subsections, hline, readNames]

theorem readNames_named {line rest : Text} (hline : headingRest? line = some rest)
    (hrest : isBlank rest = false) (lines : List Text) :
    readNames none (line :: lines) = strip rest :: readNames none lines := by
  rw [readNames, subsections_heading hline hrest]
  simp [readNames]

theorem readNames_bare {line rest : Text} (hline : headingRest? line = some rest)
    (hrest : isBlank rest = true) (lines : List Text) :
    readNames none (line :: lines) = readNames (some [line]) lines := by
  rw [readNames, subsections, hline]
  simp only [hrest, if_true]
  rfl

theorem readNames_skip {line : Text} (hline : isBlank line = true) (pending lines : List Text) :
    readNames (some pending) (line :: lines) = readNames (some (pending ++ [line])) lines := by
  rw [readNames, subsections, if_pos hline, readNames]

theorem readNames_borrow {line : Text} (hline : isBlank line = false) (pending lines : List Text) :
    readNames (some pending) (line :: lines) = strip line :: readNames none lines := by
  rw [readNames, subsections, hline]
  simp [readNames]

/-- A bare heading that awaits its name finds none among blank lines. -/
theorem readNames_blank {pending lines : List Text} (h : ∀ line ∈ lines, isBlank line = true) :
    ∀ name ∈ readNames (some pending) lines, name = [] := by
  induction lines generalizing pending with
  | nil =>
      intro name hname
      rw [readNames, subsections] at hname
      split at hname
      · simpa using hname
      · cases hname
  | cons line lines ih =>
      obtain ⟨hline, hrest⟩ := List.forall_mem_cons.mp h
      rw [readNames_skip hline]
      exact ih hrest

/-- The names that are read are more than the names on the heading lines, or as many and with
more ink. -/
def Outweighs (read own : List Text) : Prop :=
  own.length ≤ read.length ∧ (own.length = read.length → inkLines own < inkLines read)

theorem Outweighs.ne {read own : List Text} (h : Outweighs read own) : read ≠ own := by
  rintro rfl
  exact absurd (h.2 rfl) (lt_irrefl _)

theorem Outweighs.cons {read own : List Text} (h : Outweighs read own) (name : Text) :
    Outweighs (name :: read) (name :: own) := by
  refine ⟨Nat.succ_le_succ h.1, fun hlength => ?_⟩
  have hink := h.2 (Nat.succ_inj.mp hlength)
  rw [inkLines_cons, inkLines_cons]
  omega

/-- Taking a line for a name outweighs what stands on it. -/
theorem outweighs_borrow {line : Text} {read own : List Text}
    (h : read = own ∨ Outweighs read own) :
    Outweighs (strip line :: read) ((headingName? line).toList ++ own) := by
  have hlength : own.length ≤ read.length := by
    rcases h with rfl | h
    · exact le_refl _
    · exact h.1
  cases hname : headingName? line with
  | none =>
      refine ⟨?_, fun heq => ?_⟩
      · simp only [Option.toList_none, List.nil_append, List.length_cons]
        omega
      · simp only [Option.toList_none, List.nil_append, List.length_cons] at heq
        omega
  | some name =>
      have hink := ink_of_headingName? hname
      refine ⟨Nat.succ_le_succ hlength, fun heq => ?_⟩
      have hrest : inkLines own ≤ inkLines read := by
        rcases h with rfl | h
        · exact le_refl _
        · exact (h.2 (Nat.succ_inj.mp heq)).le
      change inkLines (name :: own) < _
      rw [inkLines_cons, inkLines_cons, ink_strip]
      omega

/-- A `###` line without a name that has text after it. -/
def BorrowsName (lines : List Text) : Prop :=
  ∃ front line back, lines = front ++ line :: back ∧ BareHeading line ∧
    ∃ l ∈ back, isBlank l = false

theorem lineNames_cons (line : Text) (lines : List Text) :
    lineNames (line :: lines) = (headingName? line).toList ++ lineNames lines := by
  rw [lineNames, List.filterMap_cons]
  cases headingName? line with
  | none => rfl
  | some name => rfl

theorem headingName?_plain {line : Text} (h : headingRest? line = none) :
    headingName? line = none := by
  rw [headingName?, h]

theorem headingName?_some {line rest : Text} (h : headingRest? line = some rest) :
    headingName? line = if isBlank rest then none else some (strip rest) := by
  rw [headingName?, h]

theorem exists_ink_or_blank (lines : List Text) :
    (∃ l ∈ lines, isBlank l = false) ∨ ∀ l ∈ lines, isBlank l = true := by
  by_cases h : ∃ l ∈ lines, isBlank l = false
  · exact .inl h
  · right
    simpa using h

/-- A name that is awaited is borrowed from the next line with ink, and that shows. -/
theorem outweighs_pending {lines : List Text} (pending : List Text)
    (hrest : ∀ rest, rest <:+ lines →
      readNames none rest = lineNames rest ∨ Outweighs (readNames none rest) (lineNames rest))
    (hink : ∃ l ∈ lines, isBlank l = false) :
    Outweighs (readNames (some pending) lines) (lineNames lines) := by
  induction lines generalizing pending with
  | nil =>
      obtain ⟨l, hl, -⟩ := hink
      cases hl
  | cons line lines ih =>
      rw [lineNames_cons]
      cases hline : isBlank line with
      | true =>
          rw [readNames_skip hline, headingName?_of_blank hline]
          apply ih
          · exact fun rest hsuffix => hrest rest (hsuffix.trans (List.suffix_cons line lines))
          · obtain ⟨l, hl, hnot⟩ := hink
            rcases List.mem_cons.mp hl with rfl | hin
            · rw [hline] at hnot
              cases hnot
            · exact ⟨l, hin, hnot⟩
      | false =>
          rw [readNames_borrow hline]
          exact outweighs_borrow (hrest lines (List.suffix_cons line lines))

theorem outweighs_bare {line rest : Text} (hline : headingRest? line = some rest)
    (hrest : isBlank rest = true) {lines : List Text}
    (hsuffix : ∀ others, others <:+ lines →
      readNames none others = lineNames others ∨
        Outweighs (readNames none others) (lineNames others))
    (hink : ∃ l ∈ lines, isBlank l = false) :
    Outweighs (readNames none (line :: lines)) (lineNames (line :: lines)) := by
  have hname : headingName? line = none := by
    rw [headingName?_some hline, if_pos hrest]
  rw [readNames_bare hline hrest, lineNames_cons, hname]
  exact outweighs_pending [line] hsuffix hink

/-- What is read of some lines are the names on their headings, or outweighs these. -/
theorem readNames_or_outweighs (lines : List Text) :
    ∀ others, others <:+ lines →
      readNames none others = lineNames others ∨
        Outweighs (readNames none others) (lineNames others) := by
  induction lines with
  | nil =>
      intro others hothers
      rw [List.suffix_nil.mp hothers]
      exact .inl rfl
  | cons line lines ih =>
      intro others hothers
      rcases List.suffix_cons_iff.mp hothers with rfl | hsuffix
      · cases hline : headingRest? line with
        | none =>
            rw [readNames_plain hline, lineNames_cons, headingName?_plain hline]
            exact ih lines (List.suffix_refl lines)
        | some rest =>
            cases hrest : isBlank rest with
            | false =>
                have hname : headingName? line = some (strip rest) := by
                  rw [headingName?_some hline, hrest]
                  rfl
                rw [readNames_named hline hrest, lineNames_cons, hname]
                rcases ih lines (List.suffix_refl lines) with heq | hmore
                · exact .inl (congrArg (strip rest :: ·) heq)
                · exact .inr (hmore.cons (strip rest))
            | true =>
                rcases exists_ink_or_blank lines with hink | hblank
                · exact .inr (outweighs_bare hline hrest ih hink)
                · have hname : headingName? line = none := by
                    rw [headingName?_some hline, if_pos hrest]
                  rw [readNames_bare hline hrest, lineNames_cons, hname, lineNames_blank hblank]
                  cases readNames (some [line]) lines with
                  | nil => exact .inl rfl
                  | cons name names =>
                      right
                      refine ⟨Nat.zero_le _, fun heq => ?_⟩
                      cases heq
      · exact ih others hsuffix

/-- A borrowed name shows in what is read. -/
theorem BorrowsName.outweighs {lines : List Text} (h : BorrowsName lines) :
    Outweighs (readNames none lines) (lineNames lines) := by
  obtain ⟨front, line, back, rfl, ⟨rest, hline, hrest⟩, l, hl, hink⟩ := h
  induction front with
  | nil => exact outweighs_bare hline hrest (readNames_or_outweighs back) ⟨l, hl, hink⟩
  | cons head front ih =>
      rw [List.cons_append]
      cases hhead : headingRest? head with
      | none =>
          rw [readNames_plain hhead, lineNames_cons, headingName?_plain hhead]
          exact ih
      | some headRest =>
          cases hblank : isBlank headRest with
          | false =>
              have hname : headingName? head = some (strip headRest) := by
                rw [headingName?_some hhead, hblank]
                rfl
              rw [readNames_named hhead hblank, lineNames_cons, hname]
              exact ih.cons (strip headRest)
          | true =>
              apply outweighs_bare hhead hblank (readNames_or_outweighs _)
              exact ⟨l, by simp [hl], hink⟩

/-- Names are read line by line exactly when none is borrowed. -/
theorem names_eq_iff {lines : List Text} (hne : ∀ name ∈ readNames none lines, name ≠ []) :
    readNames none lines = lineNames lines ↔ ¬ BorrowsName lines := by
  constructor
  · intro heq hborrows
    exact hborrows.outweighs.ne heq
  intro hnot
  induction lines with
  | nil => rfl
  | cons line lines ih =>
      have hrestNot : ¬ BorrowsName lines := by
        rintro ⟨front, found, back, rfl, hfound⟩
        exact hnot ⟨line :: front, found, back, rfl, hfound⟩
      cases hline : headingRest? line with
      | none =>
          rw [readNames_plain hline] at hne ⊢
          rw [lineNames_cons, headingName?_plain hline, ih hne hrestNot]
          rfl
      | some rest =>
          cases hrest : isBlank rest with
          | false =>
              have hname : headingName? line = some (strip rest) := by
                rw [headingName?_some hline, hrest]
                rfl
              rw [readNames_named hline hrest] at hne ⊢
              rw [lineNames_cons, hname, ih (List.forall_mem_cons.mp hne).2 hrestNot]
              rfl
          | true =>
              have hblank : ∀ l ∈ lines, isBlank l = true := by
                rcases exists_ink_or_blank lines with hink | hblank
                · exact absurd ⟨[], line, lines, rfl, ⟨rest, hline, hrest⟩, hink⟩ hnot
                · exact hblank
              have hname : headingName? line = none := by
                rw [headingName?_some hline, if_pos hrest]
              rw [readNames_bare hline hrest] at hne ⊢
              rw [lineNames_cons, hname, lineNames_blank hblank]
              -- a name that is awaited to the end would be blank
              cases hread : readNames (some [line]) lines with
              | nil => rfl
              | cons name names =>
                  have hmem : name ∈ readNames (some [line]) lines := by
                    rw [hread]
                    exact List.mem_cons_self ..
                  exact absurd (readNames_blank hblank name hmem) (hne name hmem)

/-! ## Reading a decision -/

/-- `rejected_body or ""`. -/
def rejectedSection (body : Text) : Text :=
  ((splitDecisionBody body).bind Prod.snd).getD []

/-- The headings of a body are read line by line: the title is what stands on the line of the
first title heading, and the names are what stands on the `###` lines. -/
structure ReadByLine (body title : Text) (names : List Text) : Prop where
  title : ∃ front line back, FirstMatch (splitLines body) front line back ∧ TitleLine line title
  names : names = lineNames (splitLines (rejectedSection body))

/-- No heading is left to be completed by what follows it: no unfinished title heading before
the first title line, and no bare `###` line. -/
structure HeadingsComplete (body : Text) : Prop where
  title : ∀ front line back, splitLines body = front ++ line :: back →
    (∀ l ∈ front, ∀ title, ¬ TitleLine l title) → Unfinished line →
      h1At (joinLines (line :: back)) = none
  names : ¬ BorrowsName (splitLines (rejectedSection body))

theorem firstLine_joinLines {line : Text} (h : '\n' ∉ line) (back : List Text) :
    firstLine (joinLines (line :: back)) = line := by
  cases back with
  | nil =>
      have hjoin : joinLines [line] = line := by simp [joinLines]
      rw [hjoin, firstLine_of_notMem h]
  | cons second back =>
      have hjoin : joinLines (line :: second :: back) = line ++ '\n' :: joinLines (second :: back) :=
        LineText.intercalate_cons_cons line second back
      rw [hjoin, firstLine_append_of_notMem h]
      simp [firstLine]

/-- The title is read off its own line exactly when no unfinished heading before it is
completed. -/
theorem title_readByLine_iff {body title : Text} (h : searchH1 body = some title) :
    (∃ front line back, FirstMatch (splitLines body) front line back ∧ TitleLine line title) ↔
      ∀ front line back, splitLines body = front ++ line :: back →
        (∀ l ∈ front, ∀ t, ¬ TitleLine l t) → Unfinished line →
          h1At (joinLines (line :: back)) = none := by
  have hplain : ∀ line ∈ splitLines body, '\n' ∉ line :=
    fun line hline => LineText.notMem_of_mem_splitOn hline
  constructor
  · rintro ⟨front₀, line₀, back₀, ⟨hlines₀, -, hfirst⟩, htitle⟩ front line back hlines hfront hline
    rcases Nat.lt_trichotomy front.length front₀.length with hlt | heq | hgt
    · -- the pattern matches nowhere before the title line
      have hdrop : (splitLines body).drop front.length = line :: back := by
        rw [hlines, List.drop_left]
      rw [← hdrop]
      exact hfirst front.length hlt
    · obtain ⟨-, htail⟩ := List.append_inj (hlines₀.symm.trans hlines) heq.symm
      obtain ⟨rfl, -⟩ := List.cons.inj htail
      have hmem : line₀ ∈ splitLines body := by
        rw [hlines₀]
        simp
      exact absurd htitle (hline.not_titleLine (hplain line₀ hmem))
    · have hmem : line₀ ∈ front := by
        have hget : (splitLines body)[front₀.length]? = some line₀ := by
          rw [hlines₀]
          simp
        rw [hlines, List.getElem?_append_left hgt] at hget
        exact List.mem_of_getElem? hget
      exact absurd htitle (hfront line₀ hmem title)
  · intro hcomplete
    rw [searchH1, ← lineStarts_splitLines] at h
    obtain ⟨front, line, back, hfirst, htitle⟩ := findSome?_lineStarts h
    have hlines := hfirst.1
    have hnone := hfirst.2.2
    have hline : '\n' ∉ line := by
      apply hplain
      rw [hlines]
      simp
    have hown := h1At_firstLine htitle
    rw [firstLine_joinLines hline] at hown
    rcases hown with hown | hunfinished
    · exact ⟨front, line, back, hfirst, hown⟩
    · have hfront : ∀ l ∈ front, ∀ t, ¬ TitleLine l t := by
        intro l hl t ht
        obtain ⟨before, after, rfl⟩ := List.append_of_mem hl
        have hl' : '\n' ∉ l := by
          apply hplain
          rw [hlines]
          simp
        have hmatch : h1At (joinLines (l :: (after ++ line :: back))) = some t := by
          apply h1At_of_titleLine
          rwa [firstLine_joinLines hl']
        have hdrop : (splitLines body).drop before.length = l :: (after ++ line :: back) := by
          rw [hlines, List.append_assoc, List.drop_left]
          rfl
        have hno := hnone before.length (by simp)
        rw [hdrop, hmatch] at hno
        cases hno
      rw [hcomplete front line back hlines hfront hunfinished] at htitle
      cases htitle

theorem blank_of_mem_splitLines {text line : Text} (h : strip text = [])
    (hline : line ∈ splitLines text) : isBlank line = true := by
  rw [isBlank, List.all_eq_true]
  intro c hc
  exact Trim.trim_eq_nil_iff.mp h c (mem_of_mem_splitLines hline hc)

theorem not_bareHeading_of_blank {line : Text} (h : isBlank line = true) : ¬ BareHeading line := by
  rintro ⟨rest, hrest, -⟩
  have hzero : ink line = 0 := ink_eq_zero_iff.mpr (List.all_eq_true.mp h)
  have hink := ink_of_headingRest? hrest
  omega

/-- The names of a section are read off their own lines exactly when none is borrowed. -/
theorem names_readByLine_iff {sectionText : Text} {rejected : List RejectedAlternative}
    (h : parseRejectedSubsections sectionText = some rejected) :
    rejected.map RejectedAlternative.name = lineNames (splitLines sectionText) ↔
      ¬ BorrowsName (splitLines sectionText) := by
  unfold parseRejectedSubsections at h
  split at h
  · next hblank =>
      cases h
      have hlines : ∀ line ∈ splitLines sectionText, isBlank line = true :=
        fun line hline => blank_of_mem_splitLines hblank hline
      rw [lineNames_blank hlines]
      refine ⟨fun _ => ?_, fun _ => rfl⟩
      rintro ⟨front, line, back, hsplit, hbare, -⟩
      refine not_bareHeading_of_blank (hlines line ?_) hbare
      rw [hsplit]
      simp
  · have hread := (mapM_make?_eq_some_iff _ _).mp h
    have hnames : readNames none (splitLines sectionText) =
        rejected.map RejectedAlternative.name := by
      have hfirst := congrArg (List.map Prod.fst) hread
      simpa [readNames, readChunk, Function.comp_def] using hfirst
    rw [← hnames]
    apply names_eq_iff
    intro name hname
    rw [hnames] at hname
    obtain ⟨r, -, rfl⟩ := List.mem_map.mp hname
    exact r.name_ne_nil

section Decisions

variable {E : Type} {tables : UnicodeTables} {yaml : Yaml E}

/-- A decision's headings are read line by line exactly when none of its body is left to be
completed by what follows it. -/
theorem headings_readByLine_iff {text filename : Text} {d : Decision E}
    (h : parseDecision tables yaml text filename = .ok d) :
    ReadByLine d.body d.title (d.rejected.map RejectedAlternative.name) ↔
      HeadingsComplete d.body := by
  obtain ⟨block, body, m, title, rationale, rejected, -, -, hbody, hmake⟩ := parseDecision_ok h
  obtain ⟨-, hfields⟩ := fromMapping_ok hmake
  obtain ⟨htitle, sections, hsections, -, hrejected⟩ := parseBody_ok_iff.mp hbody
  have hdBody : d.body = body := by rw [hfields]
  have hdTitle : d.title = title := by rw [hfields]
  have hdRejected : d.rejected = rejected := by rw [hfields]
  have hsection : rejectedSection body = sections.2.getD [] := by
    rw [rejectedSection, hsections]
    rfl
  have hnames := names_readByLine_iff hrejected
  rw [← hsection] at hnames
  rw [hdBody, hdTitle, hdRejected]
  constructor
  · rintro ⟨hline, hown⟩
    exact ⟨(title_readByLine_iff htitle).mp hline, hnames.mp hown⟩
  · rintro ⟨hcomplete, hnone⟩
    exact ⟨(title_readByLine_iff htitle).mpr hcomplete, hnames.mpr hnone⟩

/-- The headings of the edited file are complete: they are read off their own lines. -/
theorem headingsComplete_edited : HeadingsComplete editedDecision.body := by
  refine (headings_readByLine_iff editedFile_parses).mp ⟨?_, by decide +kernel⟩
  refine ⟨[[]], "# 007 — Use a queue".toList, (splitLines editedDecision.body).drop 2,
    ⟨by decide +kernel, by decide +kernel, ?_⟩, ?_⟩
  · intro k hk
    obtain rfl : k = 0 := by simpa using hk
    decide +kernel
  · have hgap : Gap [' '] := ⟨by decide, List.all_eq_true.mp (by decide)⟩
    have hnumber : Number "007".toList := ⟨by decide, List.all_eq_true.mp (by decide)⟩
    exact ⟨[' '], "007".toList, [' '], [' '], "se a queue".toList, 'U', by decide, hgap, hnumber,
      hgap, hgap, by decide, by decide⟩

end Decisions

/-- A file whose title was left out. -/
def untitledFile : Text :=
  ("---\ndate: 2026-04-16\nconfidence: high\n---\n\n# 007 —\n\n## Decision\n\n" ++
    "Jobs go through the queue.\n").toList

/-- The file is parsed although no line of it is a title line: its title is the next heading. -/
theorem untitled_takes_heading :
    ∃ d, parseDecision .ascii plainYaml untitledFile "007-use-a-queue.md".toList = .ok d ∧
      d.title = "## Decision".toList ∧ ∀ line ∈ splitLines d.body, ∀ title, ¬ TitleLine line title := by
  have hread : (parseDecision .ascii plainYaml untitledFile
      "007-use-a-queue.md".toList).toOption.any (fun d => d.title == "## Decision".toList &&
        (splitLines d.body).all fun line => (h1At line).isNone) = true := by decide +kernel
  cases hparse : parseDecision .ascii plainYaml untitledFile "007-use-a-queue.md".toList with
  | error e =>
      rw [hparse] at hread
      cases hread
  | ok d =>
      rw [hparse] at hread
      simp only [Except.toOption, Option.any_some, Bool.and_eq_true, beq_iff_eq,
        List.all_eq_true] at hread
      refine ⟨d, rfl, hread.1, fun line hline title htitle => ?_⟩
      have hplain : '\n' ∉ line := LineText.notMem_of_mem_splitOn hline
      have hmatch : h1At line = some title := by
        apply h1At_of_titleLine
        rwa [firstLine_of_notMem hplain]
      have hnone := hread.2 line hline
      rw [hmatch] at hnone
      cases hnone

end Core
end Nauro
