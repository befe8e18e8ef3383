import Nauro.Core.Decision

/-!
# Formatting a decision and parsing it back

* `readsBack_iff` — these are exactly the readable ones.
-/

namespace Nauro
namespace Core

open Foundation

variable {E : Type} {tables : UnicodeTables} {yaml : Yaml E}

/-! ## The frontmatter -/

theorem lookup_setEntries {fields : List (Text × Option Text)}
    (hdistinct : (fields.map Prod.fst).Nodup) (key : Text) :
    (setEntries fields : List (Text × YamlValue E)).lookup key =
      ((fields.lookup key).getD none).map .text := by
  induction fields with
  | nil => rfl
  | cons field fields ih =>
      rcases field with ⟨name, value⟩
      rw [List.map_cons, List.nodup_cons] at hdistinct
      obtain ⟨hfresh, hrest⟩ := hdistinct
      have hrest' := ih hrest
      by_cases hkey : key = name
      · subst hkey
        rw [Table.lookup_eq_none hfresh] at hrest'
        cases value with
        | none => simpa [setEntries] using hrest'
        | some value => simp [setEntries]
      · have hbeq : (key == name) = false := by simpa using hkey
        cases value with
        | none => simpa [setEntries, List.lookup_cons, hbeq] using hrest'
        | some value => simpa [setEntries, List.lookup_cons, hbeq] using hrest'

/-- A known key is looked up among the known entries. -/
theorem get?_frontmatter (d : Decision E) {key : Text} (hkey : key ∈ fieldNames) :
    d.frontmatter.get? key = d.knownEntries.lookup key := by
  have hextra : d.extra.entries.lookup key = none :=
    Table.lookup_eq_none fun hin => d.extra.unknown key hin hkey
  rw [Table.get?, Decision.frontmatter, List.lookup_append, hextra, Option.or_none]

theorem provenanceFields_distinct (d : Decision E) :
    (d.provenanceFields.map Prod.fst).Nodup := by
  change (["proposed_by".toList, "approved_by".toList, "approved_at".toList,
    "proposal_id".toList, "proposed_base_commit".toList] : List Text).Nodup
  decide

/-- A provenance key is there when it is set. -/
theorem get?_frontmatter_provenance (d : Decision E) {key : Text} (hkey : key ∈ fieldNames)
    (hprovenance : d.knownEntries.lookup key = (setEntries d.provenanceFields).lookup key)
    {value : Option Text} (hvalue : d.provenanceFields.lookup key = some value) :
    d.frontmatter.get? key = value.map .text := by
  rw [get?_frontmatter d hkey, hprovenance, lookup_setEntries (provenanceFields_distinct d), hvalue]
  rfl

theorem readOptional_optionalText (hlawful : yaml.Lawful) {m : Frontmatter E} {key : Text}
    {value : Option Text} (h : m.get? key = some (optionalText value)) :
    readOptional m key yaml.asText = some value := by
  cases value with
  | none => simp [readOptional, h, optionalText]
  | some value => simp [readOptional, h, optionalText, hlawful.asText_text]

theorem readOptional_map_text (hlawful : yaml.Lawful) {m : Frontmatter E} {key : Text}
    {value : Option Text} (h : m.get? key = value.map .text) :
    readOptional m key yaml.asText = some value := by
  cases value with
  | none => simp [readOptional, h]
  | some value => simp [readOptional, h, hlawful.asText_text]

theorem readOptional_optionalToken {α : Type} [Token α] {m : Frontmatter E} {key : Text}
    {value : Option α} (h : m.get? key = some (optionalToken value)) :
    readOptional m key asToken = some value := by
  cases value with
  | none => simp [readOptional, h, optionalToken, optionalText]
  | some value =>
      simp [readOptional, h, optionalToken, optionalText, asToken, Token.ofText?_value]

theorem extraFields_frontmatter (d : Decision E) : d.frontmatter.extraFields = d.extra := by
  have hknown : d.knownEntries.filter (fun entry => entry.1 ∉ fieldNames) = [] := by
    rw [List.filter_eq_nil_iff]
    intro entry hentry
    have hin := mem_fieldNames_of_frontmatterOrder
      (d.knownEntries_sublist.subset (List.mem_map_of_mem hentry))
    simpa using hin
  have hextra : d.extra.entries.filter (fun entry => entry.1 ∉ fieldNames) = d.extra.entries := by
    rw [List.filter_eq_self]
    intro entry hentry
    simpa using d.extra.unknown entry.1 (List.mem_map_of_mem hentry)
  apply ExtraFields.ext
  change (d.knownEntries ++ d.extra.entries).filter (fun entry => entry.1 ∉ fieldNames) = _
  rw [List.filter_append, hknown, hextra, List.nil_append]

/-- The frontmatter reads back as the fields it was dumped from. -/
theorem fromMapping_frontmatter (hlawful : yaml.Lawful) (d : Decision E)
    (rejected : List RejectedAlternative) (num : Nat) (title rationale body content : Text) :
    Decision.fromMapping yaml d.frontmatter rejected num title rationale body content =
      Decision.validate { d with rejected, num, title, rationale, body, content } := by
  have hget := fun key (hkey : key ∈ fieldNames) => get?_frontmatter d hkey
  have hdate : (d.frontmatter.get? "date".toList).bind yaml.asDate = some d.date := by
    rw [hget _ (by decide)]
    exact hlawful.asDate_date d.date
  have hconfidence : (d.frontmatter.get? "confidence".toList).bind asToken = some d.confidence := by
    rw [hget _ (by decide)]
    exact Token.ofText?_value d.confidence
  have hstatus : readDefault d.frontmatter "status".toList .active asToken = some d.status := by
    rw [readDefault, hget _ (by decide)]
    exact Token.ofText?_value d.status
  have hversion : readDefault d.frontmatter "version".toList 1 (asVersion yaml) =
      if d.version = 0 then none else some d.version := by
    rw [readDefault, hget _ (by decide)]
    change asVersion yaml (.int d.version) = _
    rw [asVersion, hlawful.asInt_int, Option.bind_some, Int.toNat_natCast]
    by_cases hzero : d.version = 0
    · rw [if_neg (by omega), if_pos hzero]
    · rw [if_pos (by omega), if_neg hzero]
  have hfiles : readDefault d.frontmatter "files_affected".toList [] yaml.asTexts =
      some d.filesAffected := by
    rw [readDefault, hget _ (by decide)]
    exact hlawful.asTexts_texts d.filesAffected
  have htype : readOptional d.frontmatter "decision_type".toList asToken = some d.decisionType :=
    readOptional_optionalToken (hget _ (by decide))
  have hreversibility : readOptional d.frontmatter "reversibility".toList asToken =
      some d.reversibility := readOptional_optionalToken (hget _ (by decide))
  have hsource : readOptional d.frontmatter "source".toList asToken = some d.source :=
    readOptional_optionalToken (hget _ (by decide))
  have hsupersedes : readOptional d.frontmatter "supersedes".toList yaml.asText =
      some d.supersedes := readOptional_optionalText hlawful (hget _ (by decide))
  have hsupersededBy : readOptional d.frontmatter "superseded_by".toList yaml.asText =
      some d.supersededBy := readOptional_optionalText hlawful (hget _ (by decide))
  have hproposedBy : readOptional d.frontmatter "proposed_by".toList yaml.asText =
      some d.proposedBy :=
    readOptional_map_text hlawful (get?_frontmatter_provenance d (by decide) rfl rfl)
  have happrovedBy : readOptional d.frontmatter "approved_by".toList yaml.asText =
      some d.approvedBy :=
    readOptional_map_text hlawful (get?_frontmatter_provenance d (by decide) rfl rfl)
  have happrovedAt : readOptional d.frontmatter "approved_at".toList yaml.asText =
      some d.approvedAt :=
    readOptional_map_text hlawful (get?_frontmatter_provenance d (by decide) rfl rfl)
  have hproposalId : readOptional d.frontmatter "proposal_id".toList yaml.asText =
      some d.proposalId :=
    readOptional_map_text hlawful (get?_frontmatter_provenance d (by decide) rfl rfl)
  have hbaseCommit : readOptional d.frontmatter "proposed_base_commit".toList yaml.asText =
      some d.proposedBaseCommit :=
    readOptional_map_text hlawful (get?_frontmatter_provenance d (by decide) rfl rfl)
  unfold Decision.fromMapping
  rw [hdate, hconfidence, hstatus, hversion, hfiles, htype, hreversibility, hsource, hsupersedes,
    hsupersededBy, hproposedBy, happrovedBy, happrovedAt, hproposalId, hbaseCommit,
    extraFields_frontmatter]
  by_cases hzero : d.version = 0
  · simp [requireField, hzero, Decision.validate, Decision.invalidField?, bind, Except.bind]
  · simp [requireField, hzero, bind, Except.bind]

/-! ## The title -/

/-- The title heading that is written. -/
def titleLine (num : Nat) (title : Text) : Text :=
  "# ".toList ++ padNumber 3 num ++ " — ".toList ++ title

/-- The title that is read where `title` was written: the first line with ink. -/
def titleRead (title : Text) : Text :=
  strip (((title ++ "\n\n## Decision".toList).dropWhile isSpace).takeWhile (· != '\n'))

theorem titleAfterDash_written (title rest : Text) :
    titleAfterDash (' ' :: (title ++ "\n\n## Decision".toList ++ '\n' :: rest)) =
      some (titleRead title) := by
  have hspace : isSpace ' ' = true := by decide
  have hany : ∃ c ∈ title ++ "\n\n## Decision".toList, isSpace c = false :=
    ⟨'#', by simp, by decide⟩
  have hdrop := Trim.dropWhile_append_of_any hany ('\n' :: rest)
  have hline : (((title ++ "\n\n## Decision".toList).dropWhile isSpace) ++
      '\n' :: rest).takeWhile (· != '\n') =
        ((title ++ "\n\n## Decision".toList).dropWhile isSpace).takeWhile (· != '\n') := by
    generalize (title ++ "\n\n## Decision".toList).dropWhile isSpace = kept
    induction kept with
    | nil => rfl
    | cons c kept ih =>
        rw [List.cons_append, List.takeWhile_cons, List.takeWhile_cons, ih]
  rw [titleAfterDash]
  simp only [List.takeWhile_cons, List.dropWhile_cons, hspace, if_true, hdrop, hline]
  rw [if_neg (by simp), if_pos (by simp)]
  rfl

theorem h1At_newline (rest : Text) : h1At ('\n' :: rest) = none := rfl

/-- The written heading is the first match of the heading pattern. -/
theorem searchH1_written (num : Nat) (title rest : Text) :
    searchH1 ('\n' :: (titleLine num title ++ "\n\n## Decision".toList ++ '\n' :: rest)) =
      some (titleRead title) := by
  have hshape : titleLine num title ++ "\n\n## Decision".toList ++ '\n' :: rest =
      '#' :: ' ' :: (padNumber 3 num ++ ' ' ::
        '—' :: ' ' :: (title ++ "\n\n## Decision".toList ++ '\n' :: rest)) := by
    simp [titleLine]
  have hspace : isSpace ' ' = true := by decide
  have hdash : isSpace '—' = false := by decide
  obtain ⟨c, digits, hdigits⟩ := List.exists_cons_of_ne_nil (padNumber_ne_nil 3 num)
  have hc : c.isDigit = true := isDigit_of_mem_padNumber (hdigits ▸ List.mem_cons_self ..)
  have hcInk : isSpace c = false := by
    have hnat := toNat_of_isDigit hc
    simp only [isSpace, Bool.or_eq_false_iff, Bool.and_eq_false_iff, decide_eq_false_iff_not,
      beq_eq_false_iff_ne]
    omega
  have hafter : h1At (titleLine num title ++ "\n\n## Decision".toList ++ '\n' :: rest) =
      some (titleRead title) := by
    have hnumber := dropWhile_isDigit_padNumber num (c := ' ') (by decide)
      ('—' :: ' ' :: (title ++ "\n\n## Decision".toList ++ '\n' :: rest))
    rw [hshape, h1At]
    simp only [List.dropWhile_cons, hspace, if_true]
    have hfront : (padNumber 3 num ++ ' ' ::
        '—' :: ' ' :: (title ++ "\n\n## Decision".toList ++ '\n' :: rest)).dropWhile isSpace =
          padNumber 3 num ++ ' ' ::
            '—' :: ' ' :: (title ++ "\n\n## Decision".toList ++ '\n' :: rest) := by
      rw [hdigits, List.cons_append, List.dropWhile_cons, if_neg (by simp [hcInk])]
    rw [hfront, hnumber]
    simp only [List.dropWhile_cons, hspace, hdash, if_true, Bool.false_eq_true, if_false]
    rw [if_pos (by simp [hspace, hdigits, hc]), titleAfterDash_written]
  rw [searchH1, afterNewlines, if_pos rfl, List.findSome?_cons, h1At_newline, List.findSome?_cons,
    hafter]

/-- Exactly the trimmed one-line titles are read back. -/
theorem titleRead_eq_iff (title : Text) :
    titleRead title = title ↔ title ≠ [] ∧ strip title = title ∧ '\n' ∉ title := by
  constructor
  · intro h
    refine ⟨?_, ?_, ?_⟩
    · rintro rfl
      exact absurd h (by decide)
    · rw [← h]
      exact strip_strip _
    · rw [← h]
      intro hnewline
      have := List.mem_takeWhile_imp (Trim.mem_of_mem_trim hnewline)
      simp at this
  · rintro ⟨hne, htrim, hnewline⟩
    obtain ⟨c, rest, hcons⟩ := List.exists_cons_of_ne_nil hne
    have hink : isSpace c = false := by
      apply (Trim.trim_eq_self_iff.mp htrim).1 c
      rw [hcons]
      rfl
    have hdrop : (title ++ "\n\n## Decision".toList).dropWhile isSpace =
        title ++ "\n\n## Decision".toList := by
      rw [hcons, List.cons_append, List.dropWhile_cons, if_neg (by simp [hink])]
    have hline : (title ++ "\n\n## Decision".toList).takeWhile (· != '\n') = title := by
      rw [List.takeWhile_append_of_pos]
      · simp
      · intro x hx
        simp only [bne_iff_ne]
        rintro rfl
        exact hnewline hx
    rw [titleRead, hdrop, hline, htrim]

/-! ## The body -/

/-- The rationale and the rejected section, as they are written after `## Decision`. -/
def writtenSections (d : Decision E) : Text :=
  strip d.rationale ++ (formatRejected d.rejected).flatMap ("\n\n".toList ++ ·)

/-- The body of a formatted decision. -/
def writtenBody (d : Decision E) : Text :=
  '\n' :: (titleLine d.num d.title ++ "\n\n## Decision".toList ++
    '\n' :: '\n' :: (writtenSections d ++ ['\n']))

/-- The lines after the title heading and `## Decision`. -/
def writtenTail (d : Decision E) : List Text :=
  if d.rejected = [] then plainTail (strip d.rationale)
  else rejectedTail (strip d.rationale) ([] :: (alternativesLines d.rejected ++ [[]]))

/-- Whether every passed-through frontmatter value can be dumped. -/
def Decision.serialises (yaml : Yaml E) (d : Decision E) : Bool :=
  d.extra.entries.all fun entry =>
    match entry.2 with
    | .other e => yaml.serialises e
    | _ => true

theorem formatDecision_eq (yaml : Yaml E) (d : Decision E) :
    formatDecision yaml d =
      if d.serialises yaml then
        some (openFence ++ yaml.dump d.frontmatter ++ openFence ++ writtenBody d)
      else none := by
  have hfence : openFence = fence ++ ['\n'] := rfl
  have hheading : "\n\n## Decision".toList = '\n' :: '\n' :: decisionAnchor := rfl
  have hblank : "\n\n".toList = ['\n', '\n'] := rfl
  have hjoin : "\n\n".toList.intercalate
      ([openFence ++ yaml.dump d.frontmatter ++ fence, titleLine d.num d.title,
        decisionAnchor ++ "\n\n".toList ++ strip d.rationale] ++ formatRejected d.rejected) ++
          ['\n'] =
      openFence ++ yaml.dump d.frontmatter ++ openFence ++ writtenBody d := by
    rw [List.cons_append, LineText.intercalate_cons, writtenBody, writtenSections, hheading,
      hblank, hfence]
    simp only [List.cons_append, List.nil_append, List.flatMap_cons, List.append_assoc]
  unfold formatDecision
  change (if d.serialises yaml = true then _ else none) = _
  split
  · exact congrArg some hjoin
  · rfl

theorem splitLines_writtenSections (d : Decision E) :
    [] :: splitLines (writtenSections d ++ ['\n']) = writtenTail d := by
  unfold writtenSections writtenTail formatRejected
  by_cases hrejected : d.rejected = []
  · rw [if_pos hrejected, List.flatMap_nil, List.append_nil, splitLines_append_newline,
      if_pos hrejected]
    rfl
  · have hparts : d.rejected.flatMap alternativeParts ≠ [] := by
      obtain ⟨r, rest, hr⟩ := List.exists_cons_of_ne_nil hrejected
      simp [hr, alternativeParts]
    have hsection : splitLines ("\n\n".toList.intercalate
        (rejectedAnchor :: d.rejected.flatMap alternativeParts)) =
          rejectedAnchor :: [] :: alternativesLines d.rejected := by
      rw [splitLines_intercalate_paragraphs (by simp), paragraphLines_cons hparts,
        splitLines_of_notMem (by decide)]
      rfl
    have htext : strip d.rationale ++ ([] ++ (if d.rejected = [] then [] else
        ["\n\n".toList.intercalate (rejectedAnchor :: d.rejected.flatMap alternativeParts)]).flatMap
          ("\n\n".toList ++ ·)) ++ ['\n'] =
        strip d.rationale ++ '\n' :: '\n' :: ("\n\n".toList.intercalate
          (rejectedAnchor :: d.rejected.flatMap alternativeParts) ++ ['\n']) := by
      simp [hrejected]
    rw [List.nil_append] at htext
    rw [htext, splitLines_append_newline, splitLines_newline_cons, splitLines_append_newline,
      hsection, if_neg hrejected]
    simp [rejectedTail, splitLines]

theorem splitLines_writtenBody (d : Decision E) :
    splitLines (writtenBody d) =
      ([] :: splitLines (titleLine d.num d.title) ++ [[], decisionAnchor]) ++ writtenTail d := by
  have hshape : writtenBody d = '\n' :: (titleLine d.num d.title ++ '\n' :: '\n' ::
      (decisionAnchor ++ '\n' :: '\n' :: (writtenSections d ++ ['\n']))) := by
    rw [writtenBody, show "\n\n## Decision".toList = '\n' :: '\n' :: decisionAnchor from rfl]
    simp only [List.cons_append, List.append_assoc]
  have hanchor : splitLines decisionAnchor = [decisionAnchor] := splitLines_of_notMem (by decide)
  rw [hshape, splitLines_newline_cons, splitLines_append_newline, splitLines_newline_cons,
    splitLines_append_newline, splitLines_newline_cons, hanchor, ← splitLines_writtenSections]
  simp

theorem titleLine_cons (num : Nat) (title : Text) :
    titleLine num title = '#' :: ' ' :: (padNumber 3 num ++ " — ".toList ++ title) := by
  simp [titleLine]

theorem leadingFenceMarker_of_hash {line : Text} (h : ∃ rest, line = '#' :: rest) :
    leadingFenceMarker line = none := by
  obtain ⟨rest, rfl⟩ := h
  have hhash : isSpace '#' = false := by decide
  have hstrip : ∃ more, strip ('#' :: rest) = '#' :: more := by
    have hleading := List.rdropWhile_prefix isSpace ('#' :: rest)
    have hdrop : strip ('#' :: rest) = ('#' :: rest).rdropWhile isSpace := by
      rw [strip, Trim.trim, List.dropWhile_cons, if_neg (by simp [hhash])]
    rw [hdrop]
    have hne : ('#' :: rest).rdropWhile isSpace ≠ [] := by
      intro hnil
      have := List.rdropWhile_eq_nil_iff.mp hnil '#' (List.mem_cons_self ..)
      rw [hhash] at this
      cases this
    obtain ⟨c, more, hcons⟩ := List.exists_cons_of_ne_nil hne
    rw [hcons] at hleading ⊢
    obtain ⟨tail, htail⟩ := hleading
    exact ⟨more, by rw [(List.cons.inj htail).1]⟩
  obtain ⟨more, hmore⟩ := hstrip
  rw [leadingFenceMarker, hmore, if_neg (by simp [List.isPrefixOf]),
    if_neg (by simp [List.isPrefixOf])]

/-- With a one-line title, the scan finds the written `## Decision`. -/
theorem splitDecisionBody_written {d : Decision E} (htitle : '\n' ∉ d.title) :
    splitDecisionBody (writtenBody d) = some (splitTail (writtenTail d)) := by
  have hlines : splitLines (titleLine d.num d.title) = [titleLine d.num d.title] := by
    apply splitLines_of_notMem
    intro hin
    rw [titleLine] at hin
    have hdigit : ∀ c ∈ padNumber 3 d.num, c ≠ '\n' := by
      intro c hc
      rintro rfl
      exact absurd (isDigit_of_mem_padNumber hc) (by decide)
    simp only [List.mem_append] at hin
    rcases hin with ((hin | hin) | hin) | hin
    · exact absurd hin (by decide)
    · exact hdigit _ hin rfl
    · exact absurd hin (by decide)
    · exact htitle hin
  have hmarker := leadingFenceMarker_of_hash ⟨_, titleLine_cons d.num d.title⟩
  have hnotAnchor : rstrip (titleLine d.num d.title) ≠ decisionAnchor := by
    intro h
    have hleading := List.rdropWhile_prefix isSpace (titleLine d.num d.title)
    rw [show (titleLine d.num d.title).rdropWhile isSpace = _ from h, titleLine_cons] at hleading
    obtain ⟨tail, htail⟩ := hleading
    have := (List.cons.inj (List.cons.inj htail).2).1
    exact absurd this (by decide)
  have hdecision : leadingFenceMarker decisionAnchor = none := by decide
  have hrstrip : rstrip decisionAnchor = decisionAnchor := by decide
  have hblank : rstrip [] ≠ decisionAnchor := by decide
  apply splitDecisionBody_of_head (splitLines_writtenBody d) (by simp)
  rw [hlines]
  simp [scanLine, hmarker, hnotAnchor, hdecision, hrstrip, hblank]

/-! ## The parser on a formatted decision -/

theorem derivedFields_frontmatter (d : Decision E) :
    derivedFields.find? (fun key => (d.frontmatter.get? key).isSome) = none := by
  rw [List.find?_eq_none]
  intro key hkey
  have hfield : key ∈ fieldNames := by
    revert key
    decide
  have horder : key ∉ frontmatterOrder := by
    revert key
    decide
  rw [get?_frontmatter d hfield, Table.lookup_eq_none]
  · simp
  · exact fun hin => horder (d.knownEntries_sublist.subset hin)

/-- The text of a formatted decision. -/
def writtenText (yaml : Yaml E) (d : Decision E) : Text :=
  openFence ++ yaml.dump d.frontmatter ++ openFence ++ writtenBody d

/-- Whether the frontmatter of a decision is within the parser's bound. -/
def Decision.FrontmatterFits (yaml : Yaml E) (d : Decision E) : Prop :=
  (yaml.dump d.frontmatter).length ≤ maxFrontmatterChars + 1

/-- The parser on a dumped frontmatter with a body: the frontmatter comes back, the body decides. -/
theorem parseDecision_fenced (hlawful : yaml.Lawful) (d : Decision E) (body filename : Text) :
    parseDecision tables yaml (openFence ++ yaml.dump d.frontmatter ++ openFence ++ body) filename =
      if maxFrontmatterChars + 1 < (yaml.dump d.frontmatter).length then
        .error (.frontmatter .tooLong)
      else
        (parseBody body).bind fun (title, rationale, rejected) =>
          (Decision.validate
            { d with
              rejected, num := (extractDecisionNumber tables filename).getD 0, title, rationale,
              body, content := openFence ++ yaml.dump d.frontmatter ++ openFence ++ body }).mapError
            .validation := by
  obtain ⟨block, hdump⟩ := hlawful.dump_newline d.frontmatter
  have hlength : (yaml.dump d.frontmatter).length = block.length + 1 := by simp [hdump]
  have hsplit := splitFrontmatter_fenced hlawful hdump body
  have hload : loadMetadata yaml block = .ok (some d.frontmatter) := by
    rw [loadMetadata, loadFrontmatterMapping_dump hlawful hdump]
  unfold parseDecision
  rw [hsplit, hlength]
  by_cases hlong : maxFrontmatterChars < block.length
  · simp [hlong, Except.mapError, bind, Except.bind]
  · have hshort : ¬ maxFrontmatterChars + 1 < block.length + 1 := by omega
    rw [if_neg hlong, if_neg hshort]
    simp only [Except.mapError, bind, Except.bind, hload]
    cases parseBody body with
    | error e => rfl
    | ok read =>
        obtain ⟨title, rationale, rejected⟩ := read
        simp only [derivedFields_frontmatter, fromMapping_frontmatter hlawful]

/-- The parser on a formatted decision. -/
theorem parseDecision_written (hlawful : yaml.Lawful) (d : Decision E) (filename : Text) :
    parseDecision tables yaml (writtenText yaml d) filename =
      if maxFrontmatterChars + 1 < (yaml.dump d.frontmatter).length then
        .error (.frontmatter .tooLong)
      else
        (parseBody (writtenBody d)).bind fun (title, rationale, rejected) =>
          (Decision.validate
            { d with
              rejected, num := (extractDecisionNumber tables filename).getD 0, title, rationale,
              body := writtenBody d, content := writtenText yaml d }).mapError .validation :=
  parseDecision_fenced hlawful d (writtenBody d) filename

theorem readSections_ok {title title' rationale : Text} {sections : Text × Option Text}
    {rejected : List RejectedAlternative}
    (h : readSections title sections = .ok (title', rationale, rejected)) :
    title' = title ∧ rationale = sections.1 ∧
      parseRejectedSubsections (sections.2.getD []) = some rejected := by
  unfold readSections at h
  split at h
  · cases h
  · next found hfound =>
      cases h
      exact ⟨rfl, rfl, hfound⟩

/-- The stages of reading a body. -/
theorem parseBody_ok_iff {body title rationale : Text} {rejected : List RejectedAlternative} :
    parseBody body = .ok (title, rationale, rejected) ↔
      searchH1 body = some title ∧ ∃ sections, splitDecisionBody body = some sections ∧
        rationale = sections.1 ∧ parseRejectedSubsections (sections.2.getD []) = some rejected := by
  unfold parseBody
  constructor
  · intro h
    split at h
    · cases h
    · next found hfound =>
        split at h
        · cases h
        · next sections hsections =>
            obtain ⟨rfl, hrationale, hrejected⟩ := readSections_ok h
            exact ⟨hfound, sections, hsections, hrationale, hrejected⟩
  · rintro ⟨htitle, sections, hsections, rfl, hrejected⟩
    simp only [htitle, hsections, readSections, hrejected]

theorem searchH1_writtenBody (d : Decision E) :
    searchH1 (writtenBody d) = some (titleRead d.title) :=
  searchH1_written d.num d.title _

/-- The title that is read, whatever else the body holds. -/
theorem title_of_parseBody_written {d : Decision E} {title rationale : Text}
    {rejected : List RejectedAlternative}
    (h : parseBody (writtenBody d) = .ok (title, rationale, rejected)) :
    title = titleRead d.title := by
  have htitle := (parseBody_ok_iff.mp h).1
  rw [searchH1_writtenBody] at htitle
  exact (Option.some.inj htitle).symm

/-- The body that is read of a decision with a trimmed one-line title. -/
theorem parseBody_written_ok_iff {d : Decision E} (htitle : titleRead d.title = d.title)
    {title rationale : Text} {rejected : List RejectedAlternative} :
    parseBody (writtenBody d) = .ok (title, rationale, rejected) ↔
      title = d.title ∧ rationale = (splitTail (writtenTail d)).1 ∧
        parseRejectedSubsections ((splitTail (writtenTail d)).2.getD []) = some rejected := by
  have hnewline := ((titleRead_eq_iff d.title).mp htitle).2.2
  rw [parseBody_ok_iff, searchH1_writtenBody, splitDecisionBody_written hnewline, htitle]
  simp [eq_comm]

/-! ## Reading back -/

/-- Where the body keeps the rationale apart from what follows it. -/
def BodyReadable (rationale : Text) (rejected : List RejectedAlternative) : Prop :=
  if rejected = [] then lastAnchor none (splitLines rationale) = none
  else fenceAfter none (splitLines rationale) = none ∧
    lastAnchor none (alternativesLines rejected) = none

instance (rationale : Text) (rejected : List RejectedAlternative) :
    Decidable (BodyReadable rationale rejected) :=
  inferInstanceAs (Decidable (if rejected = [] then lastAnchor none (splitLines rationale) = none
    else fenceAfter none (splitLines rationale) = none ∧
      lastAnchor none (alternativesLines rejected) = none))

/-- The decisions whose text reads back as themselves. -/
structure Decision.Readable (yaml : Yaml E) (d : Decision E) : Prop where
  title_ne_nil : d.title ≠ []
  title_trimmed : strip d.title = d.title
  title_one_line : '\n' ∉ d.title
  body : BodyReadable (strip d.rationale) d.rejected
  rejected : AlternativesReadable d.rejected
  frontmatter : d.FrontmatterFits yaml

/-- A text parses to the decision it was formatted from, up to white space around the
rationale; the raw body and content are the text's own. -/
def ReadsBack (tables : UnicodeTables) (yaml : Yaml E) (d : Decision E) (text filename : Text) :
    Prop :=
  ∃ d', parseDecision tables yaml text filename = .ok d' ∧
    d' = { d with rationale := strip d.rationale, body := d'.body, content := d'.content }

/-- What the readers of a decision may rely on: it passed its validators, its alternatives
have trimmed names and its number is its file's. -/
structure Decision.Stored (tables : UnicodeTables) (d : Decision E) (filename : Text) : Prop where
  valid : d.Valid
  names : ∀ r ∈ d.rejected, strip r.name = r.name
  number : (extractDecisionNumber tables filename).getD 0 = d.num

theorem rationale_read_written_iff (d : Decision E) :
    (splitTail (writtenTail d)).1 = strip d.rationale ↔
      BodyReadable (strip d.rationale) d.rejected := by
  unfold writtenTail BodyReadable
  by_cases hrejected : d.rejected = []
  · rw [if_pos hrejected, if_pos hrejected]
    exact rationale_read_iff (strip_strip _)
  · rw [if_neg hrejected, if_neg hrejected, rationale_read_rejected_iff (strip_strip _),
      lastAnchor_cons_nil, lastAnchor_append_blank, Option.map_eq_none_iff]

/-- The alternatives that are read once the rationale is. -/
theorem rejected_read_written_iff {d : Decision E}
    (hbody : BodyReadable (strip d.rationale) d.rejected)
    (hnames : ∀ r ∈ d.rejected, strip r.name = r.name) :
    parseRejectedSubsections ((splitTail (writtenTail d)).2.getD []) = some d.rejected ↔
      AlternativesReadable d.rejected := by
  unfold writtenTail
  unfold BodyReadable at hbody
  by_cases hrejected : d.rejected = []
  · rw [if_pos hrejected] at hbody
    rw [if_pos hrejected, splitTail_plainTail (strip_strip _) hbody, hrejected]
    simp [parseRejectedSubsections, AlternativesReadable]
  · rw [if_neg hrejected] at hbody
    have hlast : lastAnchor none ([] :: (alternativesLines d.rejected ++ [[]])) = none := by
      rw [lastAnchor_cons_nil, lastAnchor_append_blank, hbody.2]
      rfl
    rw [if_neg hrejected, splitTail_rejectedTail (strip_strip _) hbody.1 hlast]
    exact parseRejectedSubsections_written_iff hrejected hnames

/-- Exactly the readable decisions read back from their text. -/
theorem readsBack_iff (hlawful : yaml.Lawful) {d : Decision E} {filename : Text}
    (hstored : d.Stored tables filename) :
    ReadsBack tables yaml d (writtenText yaml d) filename ↔ d.Readable yaml := by
  constructor
  · rintro ⟨d', hparse, hfields⟩
    rw [parseDecision_written hlawful] at hparse
    split at hparse
    · cases hparse
    · next hshort =>
        cases hbody : parseBody (writtenBody d) with
        | error e =>
            rw [hbody] at hparse
            cases hparse
        | ok read =>
            obtain ⟨title, rationale, rejected⟩ := read
            rw [hbody] at hparse
            simp only [Except.bind] at hparse
            cases hvalid : Decision.validate
                { d with
                  rejected, num := (extractDecisionNumber tables filename).getD 0, title,
                  rationale, body := writtenBody d, content := writtenText yaml d } with
            | error e =>
                rw [hvalid] at hparse
                cases hparse
            | ok d'' =>
                rw [hvalid] at hparse
                cases hparse
                obtain ⟨rfl, -⟩ := Decision.validate_eq_ok_iff.mp hvalid
                have htitle : title = d.title := congrArg Decision.title hfields
                have hrationale : rationale = strip d.rationale :=
                  congrArg Decision.rationale hfields
                have hrejected : rejected = d.rejected := congrArg Decision.rejected hfields
                have hread : titleRead d.title = d.title := by
                  rw [← title_of_parseBody_written hbody, htitle]
                obtain ⟨hne, htrim, hline⟩ := (titleRead_eq_iff d.title).mp hread
                obtain ⟨-, hsplit, hfound⟩ := (parseBody_written_ok_iff hread).mp hbody
                have hbodyReadable := (rationale_read_written_iff d).mp (hsplit ▸ hrationale)
                refine ⟨hne, htrim, hline, hbodyReadable, ?_, not_lt.mp hshort⟩
                exact (rejected_read_written_iff hbodyReadable hstored.names).mp
                  (hrejected ▸ hfound)
  · intro h
    have hread : titleRead d.title = d.title :=
      (titleRead_eq_iff d.title).mpr ⟨h.title_ne_nil, h.title_trimmed, h.title_one_line⟩
    have hbody : parseBody (writtenBody d) = .ok (d.title, strip d.rationale, d.rejected) := by
      refine (parseBody_written_ok_iff hread).mpr ⟨rfl, ?_, ?_⟩
      · exact ((rationale_read_written_iff d).mpr h.body).symm
      · exact (rejected_read_written_iff h.body hstored.names).mpr h.rejected
    have hvalid : Decision.validate
        { d with
          rationale := strip d.rationale, body := writtenBody d, content := writtenText yaml d } =
        .ok { d with
          rationale := strip d.rationale, body := writtenBody d,
          content := writtenText yaml d } :=
      Decision.validate_eq_ok_iff.mpr ⟨rfl, hstored.valid⟩
    refine ⟨{ d with
      rationale := strip d.rationale, body := writtenBody d, content := writtenText yaml d },
      ?_, rfl⟩
    rw [parseDecision_written hlawful, if_neg (not_lt.mpr h.frontmatter), hbody, hstored.number]
    simp only [Except.bind]
    rw [hvalid]
    rfl

end Core
end Nauro
