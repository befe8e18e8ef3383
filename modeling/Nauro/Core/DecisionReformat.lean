import Nauro.Core.DecisionRoundTrip
import Nauro.Core.PlainYaml

/-!
# Reformatting a decision file

A read-modify-write cycle parses a file and formats what it read.

* `format_parse_format_moves_text` — a file whose rationale is cut by the second pass.
-/

namespace Nauro
namespace Core

open Foundation

variable {E : Type} {tables : UnicodeTables} {yaml : Yaml E}

/-! ## What a parsed decision satisfies -/

theorem requireField_bind_ok {α β : Type} {name : String} {value : Option α}
    {next : α → Except ValidationError β} {b : β}
    (h : (requireField name value >>= next) = .ok b) : ∃ a, value = some a ∧ next a = .ok b := by
  cases value with
  | none => cases h
  | some a => exact ⟨a, rfl, h⟩

/-- A constructed decision passed its validators and holds the derived fields as given. -/
theorem fromMapping_ok {m : Frontmatter E} {rejected : List RejectedAlternative} {num : Nat}
    {title rationale body content : Text} {d : Decision E}
    (h : Decision.fromMapping yaml m rejected num title rationale body content = .ok d) :
    d.Valid ∧ d = { d with rejected, num, title, rationale, body, content } := by
  unfold Decision.fromMapping at h
  obtain ⟨date, -, h⟩ := requireField_bind_ok h
  obtain ⟨confidence, -, h⟩ := requireField_bind_ok h
  obtain ⟨version, -, h⟩ := requireField_bind_ok h
  obtain ⟨status, -, h⟩ := requireField_bind_ok h
  obtain ⟨decisionType, -, h⟩ := requireField_bind_ok h
  obtain ⟨reversibility, -, h⟩ := requireField_bind_ok h
  obtain ⟨source, -, h⟩ := requireField_bind_ok h
  obtain ⟨filesAffected, -, h⟩ := requireField_bind_ok h
  obtain ⟨supersedes, -, h⟩ := requireField_bind_ok h
  obtain ⟨supersededBy, -, h⟩ := requireField_bind_ok h
  obtain ⟨proposedBy, -, h⟩ := requireField_bind_ok h
  obtain ⟨approvedBy, -, h⟩ := requireField_bind_ok h
  obtain ⟨approvedAt, -, h⟩ := requireField_bind_ok h
  obtain ⟨proposalId, -, h⟩ := requireField_bind_ok h
  obtain ⟨proposedBaseCommit, -, h⟩ := requireField_bind_ok h
  obtain ⟨rfl, hvalid⟩ := Decision.validate_eq_ok_iff.mp h
  exact ⟨hvalid, rfl⟩

/-- The stages a successful parse went through. -/
theorem parseDecision_ok {text filename : Text} {d : Decision E}
    (h : parseDecision tables yaml text filename = .ok d) :
    ∃ block body m title rationale rejected,
      splitFrontmatter text = .ok (block, body) ∧
      loadMetadata yaml block = .ok (some m) ∧
      parseBody body = .ok (title, rationale, rejected) ∧
      Decision.fromMapping yaml m rejected ((extractDecisionNumber tables filename).getD 0)
        title rationale body text = .ok d := by
  unfold parseDecision at h
  cases hsplit : splitFrontmatter text with
  | error e => rw [hsplit] at h; cases h
  | ok parts =>
      obtain ⟨block, body⟩ := parts
      rw [hsplit] at h
      simp only [Except.mapError, bind, Except.bind] at h
      cases hload : loadMetadata yaml block with
      | error e => rw [hload] at h; cases h
      | ok metadata =>
          rw [hload] at h
          simp only at h
          cases hbody : parseBody body with
          | error e => rw [hbody] at h; cases h
          | ok read =>
              obtain ⟨title, rationale, rejected⟩ := read
              rw [hbody] at h
              simp only at h
              cases metadata with
              | none => cases h
              | some m =>
                  simp only at h
                  split at h
                  · cases h
                  · cases hmake : Decision.fromMapping yaml m rejected
                        ((extractDecisionNumber tables filename).getD 0) title rationale body
                        text with
                    | error e => rw [hmake] at h; cases h
                    | ok d' =>
                        rw [hmake] at h
                        cases h
                        exact ⟨block, body, m, title, rationale, rejected, rfl, hload, hbody, hmake⟩

theorem titleAfterDash_line {after title : Text} (h : titleAfterDash after = some title) :
    strip title = title ∧ '\n' ∉ title := by
  unfold titleAfterDash at h
  simp only at h
  split at h
  · cases h
  · split at h
    · cases h
      refine ⟨strip_strip _, fun hin => ?_⟩
      have := List.mem_takeWhile_imp (Trim.mem_of_mem_trim hin)
      simp at this
    · split at h
      · cases h
        exact ⟨rfl, List.not_mem_nil⟩
      · cases h

theorem h1At_line {text title : Text} (h : h1At text = some title) :
    strip title = title ∧ '\n' ∉ title := by
  unfold h1At at h
  split at h
  · simp only at h
    split at h
    · split at h
      · exact titleAfterDash_line h
      · cases h
    · cases h
  · cases h

theorem splitDecisionBody_trimmed {body : Text} {sections : Text × Option Text}
    (h : splitDecisionBody body = some sections) : strip sections.1 = sections.1 := by
  unfold splitDecisionBody at h
  simp only at h
  split at h
  · cases h
  · cases h
    exact strip_strip _
  · cases h
    exact strip_strip _

theorem parseRejectedSubsections_trimmed {sectionText : Text}
    {rejected : List RejectedAlternative}
    (h : parseRejectedSubsections sectionText = some rejected) :
    ∀ r ∈ rejected, strip r.name = r.name := by
  unfold parseRejectedSubsections at h
  split at h
  · cases h
    simp
  · have hnames := (mapM_make?_eq_some_iff _ _).mp h
    intro r hr
    have hin : (r.name, r.reason) ∈ rejected.map fun r => (r.name, r.reason) :=
      List.mem_map_of_mem hr
    rw [← hnames] at hin
    obtain ⟨chunk, -, hchunk⟩ := List.mem_map.mp hin
    have hname : strip chunk.1 = r.name := congrArg Prod.fst hchunk
    rw [← hname, strip_strip]

/-- Whatever is read of a body is trimmed, and the title stands on one line. -/
theorem parseBody_ok {body title rationale : Text} {rejected : List RejectedAlternative}
    (h : parseBody body = .ok (title, rationale, rejected)) :
    strip title = title ∧ '\n' ∉ title ∧ strip rationale = rationale ∧
      ∀ r ∈ rejected, strip r.name = r.name := by
  obtain ⟨htitle, sections, hsections, rfl, hrejected⟩ := parseBody_ok_iff.mp h
  obtain ⟨line, -, hline⟩ := List.exists_of_findSome?_eq_some htitle
  obtain ⟨htrim, hnewline⟩ := h1At_line hline
  exact ⟨htrim, hnewline, splitDecisionBody_trimmed hsections,
    parseRejectedSubsections_trimmed hrejected⟩

/-- What a parsed decision satisfies. -/
theorem parsed_stored {text filename : Text} {d : Decision E}
    (h : parseDecision tables yaml text filename = .ok d) :
    d.Stored tables filename ∧ strip d.title = d.title ∧ '\n' ∉ d.title ∧
      strip d.rationale = d.rationale := by
  obtain ⟨block, body, m, title, rationale, rejected, -, -, hbody, hmake⟩ := parseDecision_ok h
  obtain ⟨hvalid, hfields⟩ := fromMapping_ok hmake
  obtain ⟨htitle, hnewline, hrationale, hnames⟩ := parseBody_ok hbody
  rw [hfields]
  refine ⟨⟨?_, hnames, rfl⟩, htitle, hnewline, hrationale⟩
  rw [← hfields]
  exact hvalid

/-! ## Reformatting -/

/-- Formatting gives a text that parses to the same fields, the raw body and content apart,
and that formats to itself again. -/
def FormatStable (tables : UnicodeTables) (yaml : Yaml E) (d : Decision E) (filename : Text) :
    Prop :=
  ∃ t, formatDecision yaml d = some t ∧
    ∃ d', parseDecision tables yaml t filename = .ok d' ∧
      d' = { d with body := d'.body, content := d'.content } ∧
      formatDecision yaml d' = some t

/-- What a file must hold to survive being reformatted: a title with ink; a rationale whose
lines, once it is trimmed, keep its end apart from the rejected section; reasons without
headings of their own; a frontmatter that can be dumped within the parser's bound. -/
structure Reformats (yaml : Yaml E) (d : Decision E) : Prop where
  title : d.title ≠ []
  body : BodyReadable d.rationale d.rejected
  rejected : AlternativesReadable d.rejected
  serialises : d.serialises yaml = true
  frontmatter : d.FrontmatterFits yaml

/-- The written text depends on neither the raw body nor the raw content. -/
theorem formatDecision_congr (d : Decision E) (body content : Text) :
    formatDecision yaml { d with body, content } = formatDecision yaml d := by
  rw [formatDecision_eq, formatDecision_eq]
  rfl

/-- A file that survives being reformatted holds what it must. -/
theorem reformats_of_formatStable (hlawful : yaml.Lawful) {text filename : Text} {d : Decision E}
    (hparse : parseDecision tables yaml text filename = .ok d)
    (hstable : FormatStable tables yaml d filename) : Reformats yaml d := by
  obtain ⟨hstored, -, -, hrationale⟩ := parsed_stored hparse
  obtain ⟨t, hformat, d', hread, hfields, -⟩ := hstable
  rw [formatDecision_eq] at hformat
  split at hformat
  · next hserialises =>
      cases hformat
      have hback : ReadsBack tables yaml d (writtenText yaml d) filename :=
        ⟨d', hread, by rw [hrationale]; exact hfields⟩
      have hreadable := (readsBack_iff hlawful hstored).mp hback
      have hbody := hreadable.body
      rw [hrationale] at hbody
      exact ⟨hreadable.title_ne_nil, hbody, hreadable.rejected, hserialises,
        hreadable.frontmatter⟩
  · cases hformat

/-- A parsed file survives being formatted, parsed and formatted again just when it
reformats. -/
theorem format_parse_format (hlawful : yaml.Lawful) {text filename : Text} {d : Decision E}
    (hparse : parseDecision tables yaml text filename = .ok d) :
    FormatStable tables yaml d filename ↔ Reformats yaml d := by
  constructor
  · exact reformats_of_formatStable hlawful hparse
  · intro h
    obtain ⟨hstored, htrim, hline, hrationale⟩ := parsed_stored hparse
    have hreadable : d.Readable yaml :=
      ⟨h.title, htrim, hline, by rw [hrationale]; exact h.body, h.rejected, h.frontmatter⟩
    obtain ⟨d', hread, hfields⟩ := (readsBack_iff hlawful hstored).mpr hreadable
    rw [hrationale] at hfields
    have hformat : formatDecision yaml d = some (writtenText yaml d) := by
      rw [formatDecision_eq, if_pos h.serialises]
      rfl
    refine ⟨writtenText yaml d, hformat, d', hread, hfields, ?_⟩
    rw [hfields, formatDecision_congr, hformat]

/-- A hand-edited file with one rejected alternative. -/
def editedFile : Text :=
  ("---\ndate: 2026-04-16\nconfidence: high\n---\n\n# 007 — Use a queue\n\n## Decision\n\n" ++
    "Jobs go through the queue.\n\n## Rejected Alternatives\n\n### Cron\n\nToo coarse.\n").toList

/-- The decision `editedFile` holds. -/
def editedDecision : Decision Empty where
  date := ⟨2026, 4, 16, rfl⟩
  confidence := .high
  version := 1
  status := .active
  decisionType := none
  reversibility := none
  source := none
  filesAffected := []
  supersedes := none
  supersededBy := none
  proposedBy := none
  approvedBy := none
  approvedAt := none
  proposalId := none
  proposedBaseCommit := none
  rejected := [⟨"Cron".toList, some "Too coarse.".toList, by decide⟩]
  num := 7
  title := "Use a queue".toList
  rationale := "Jobs go through the queue.".toList
  body := editedFile.drop 42
  content := editedFile
  extra := ⟨[], List.nodup_nil, by simp⟩

theorem editedFile_parses :
    parseDecision .ascii plainYaml editedFile "007-use-a-queue.md".toList = .ok editedDecision := by
  decide +kernel

theorem editedDecision_reformats : Reformats plainYaml editedDecision where
  title := by decide
  body := by decide +kernel
  rejected := by
    refine ⟨by decide, ?_⟩
    intro r hr
    cases hr
    decide +kernel
  serialises := rfl
  frontmatter := by
    unfold Decision.FrontmatterFits
    decide +kernel

/-- The edited file survives being reformatted. -/
theorem format_parse_format_edited :
    FormatStable .ascii plainYaml editedDecision "007-use-a-queue.md".toList :=
  (format_parse_format plainYaml_lawful editedFile_parses).mpr editedDecision_reformats

/-- A hand-edited file whose last `## Rejected Alternatives` section has no `###` heading:
reformatting drops the section, and the earlier heading cuts the rationale. -/
def twoSectionsFile : Text :=
  ("---\ndate: 2026-04-16\nconfidence: high\n---\n\n# 007 — Use a queue\n\n## Decision\n\n" ++
    "Jobs go through the queue.\n\n## Rejected Alternatives\n\nNothing serious.\n\n" ++
    "## Rejected Alternatives\n\nSee the review notes.\n").toList

/-- Formatting is not always undone by parsing. -/
theorem format_parse_format_moves_text :
    ∃ d, parseDecision .ascii plainYaml twoSectionsFile "007-use-a-queue.md".toList = .ok d ∧
      ¬ FormatStable .ascii plainYaml d "007-use-a-queue.md".toList := by
  have hcut : (parseDecision .ascii plainYaml twoSectionsFile
      "007-use-a-queue.md".toList).toOption.any
        (fun d => !decide (BodyReadable d.rationale d.rejected)) = true := by decide +kernel
  cases hparse : parseDecision .ascii plainYaml twoSectionsFile "007-use-a-queue.md".toList with
  | error e =>
      rw [hparse] at hcut
      cases hcut
  | ok d =>
      rw [hparse] at hcut
      refine ⟨d, rfl, fun hstable => ?_⟩
      have hbody := (reformats_of_formatStable plainYaml_lawful hparse hstable).body
      simp [Except.toOption, hbody] at hcut

end Core
end Nauro
