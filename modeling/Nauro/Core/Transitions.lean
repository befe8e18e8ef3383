import Nauro.Core.Decision
import Nauro.Core.Questions

/-!
# Decision and question transitions

The pure transitions that local and hosted planning share.
-/

namespace Nauro
namespace Core

open Foundation

variable {E : Type}

/-! ## File names -/

def slugMaxLength : Nat := 60

/-- Every run of characters that are no letter and no digit becomes one dash. -/
def slugChars (tables : UnicodeTables) : Bool → Text → Text
  | _, [] => []
  | prevDash, c :: rest =>
      if tables.isAlnum c then c :: slugChars tables false rest
      else if prevDash then slugChars tables true rest
      else '-' :: slugChars tables true rest

/-- `text.rsplit("-", 1)[0]`. -/
def beforeLastDash (text : Text) : Text :=
  if '-' ∈ text then (text.rdropWhile (· != '-')).dropLast else text

/-- `slugify_decision_title`. -/
def slugifyDecisionTitle (tables : UnicodeTables) (title : Text) : Text :=
  let slug := Trim.trim (· == '-') (slugChars tables false (lower tables title))
  if slugMaxLength < slug.length then
    let truncated := slug.take slugMaxLength
    let trimmed := beforeLastDash truncated
    if slugMaxLength / 2 ≤ trimmed.length then trimmed else truncated
  else slug

/-! ## Decisions -/

/-- The frontmatter keys of no declared field that a new decision starts with. -/
def ExtraFields.none : ExtraFields E :=
  ⟨[], List.nodup_nil, by simp⟩

/-- A decision with the approval group of its current version, or with the group cleared:
`apply_current_version_provenance`. -/
def applyCurrentVersionProvenance (d : Decision E) (provenance : Option ApprovalProvenance) :
    Decision E :=
  { d with
    proposedBy := provenance.map ApprovalProvenance.proposedBy
    approvedBy := provenance.map ApprovalProvenance.approvedBy
    approvedAt := provenance.map ApprovalProvenance.approvedAt
    proposalId := provenance.map ApprovalProvenance.proposalId
    proposedBaseCommit := provenance.bind ApprovalProvenance.proposedBaseCommit }

/-- The fields of a new decision that its proposer chooses. -/
structure NewDecision where
  number : Nat
  decisionDate : Date
  title : Text
  rationale : Text
  confidence : DecisionConfidence
  decisionType : Option DecisionType
  reversibility : Option Reversibility
  source : Option DecisionSource
  filesAffected : List Text
  rejected : List RejectedAlternative

/-- The decision that `build_new_decision` hands to the validators. -/
def NewDecision.decision (fields : NewDecision) (provenance : Option ApprovalProvenance)
    (extra : ExtraFields E) : Decision E :=
  applyCurrentVersionProvenance
    { date := fields.decisionDate
      confidence := fields.confidence
      version := 1
      status := .active
      decisionType := fields.decisionType
      reversibility := fields.reversibility
      source := fields.source
      filesAffected := fields.filesAffected
      supersedes := none
      supersededBy := none
      proposedBy := none
      approvedBy := none
      approvedAt := none
      proposalId := none
      proposedBaseCommit := none
      rejected := fields.rejected
      num := fields.number
      title := fields.title
      rationale := fields.rationale
      body := []
      content := []
      extra }
    provenance

/-- `build_new_decision`. -/
def buildNewDecision (fields : NewDecision) (provenance : Option ApprovalProvenance)
    (extra : ExtraFields E) : Except ValidationError (Decision E) :=
  (fields.decision provenance extra).validate

/-- The paragraph that an update appends to a rationale. -/
def updatedRationale (rationale : Text) (version : Nat) (updateDate : Date)
    (additionalRationale : Text) : Text :=
  strip rationale ++ "\n\n*Update (v".toList ++ Nat.toDigits 10 version ++ ") — ".toList ++
    updateDate.isoformat ++ ":* ".toList ++ strip additionalRationale

/-- `append_decision_update`. -/
def appendDecisionUpdate (d : Decision E) (additionalRationale : Text) (updateDate : Date)
    (provenance : Option ApprovalProvenance) : Decision E :=
  applyCurrentVersionProvenance
    { d with
      version := d.version + 1
      rationale := updatedRationale d.rationale (d.version + 1) updateDate additionalRationale }
    provenance

/-- `attach_supersedes`. -/
def attachSupersedes (d : Decision E) (targetNumber : Nat) : Decision E :=
  { d with supersedes := some (Nat.toDigits 10 targetNumber) }

/-- `mark_superseded`. -/
def markSuperseded (d : Decision E) (replacementNumber : Nat) : Decision E :=
  { d with status := .superseded, supersededBy := some (Nat.toDigits 10 replacementNumber) }

/-! ## What the transitions keep -/

/-- A printed number is a supersession reference. -/
theorem isSupersessionRef_toDigits (n : Nat) : isSupersessionRef (Nat.toDigits 10 n) = true := by
  have hread : number? (Nat.toDigits 10 n) = some n := number?_toDigits n
  have hdigits : (Nat.toDigits 10 n).all Char.isDigit = true :=
    List.all_eq_true.mpr fun _ hc => Nat.isDigit_of_mem_toDigits (by decide) (by decide) hc
  have hne : (Nat.toDigits 10 n).isEmpty = false := by
    rw [List.isEmpty_eq_false_iff]
    exact Nat.toDigits_ne_nil
  simp [isSupersessionRef, isAsciiDecimal, hread, hdigits, hne]

/-- The stages of the field validators, as one statement. -/
theorem Decision.invalidField?_eq_none_iff {d : Decision E} :
    d.invalidField? = none ↔
      d.version ≠ 0 ∧ d.supersedes.all isSupersessionRef = true ∧
        d.supersededBy.all isSupersessionRef = true ∧ d.proposedBy.all isUlid = true ∧
        d.approvedBy.all isUlid = true ∧ d.approvedAt.all isUtcTimestamp = true ∧
        d.proposalId.all isUlid = true ∧ d.proposedBaseCommit.all isCommitSha = true := by
  unfold Decision.invalidField?
  constructor
  · intro h
    split_ifs at h
    simp_all
  · rintro ⟨hversion, hsupersedes, hsupersededBy, hproposed, happroved, hat, hid, hbase⟩
    simp [hversion, hsupersedes, hsupersededBy, hproposed, happroved, hat, hid, hbase]

theorem attachSupersedes_valid {d : Decision E} (h : d.Valid) (targetNumber : Nat) :
    (attachSupersedes d targetNumber).Valid := by
  obtain ⟨hfields, hprovenance, hreasons, href⟩ := h
  refine ⟨?_, hprovenance, hreasons, href⟩
  rw [Decision.invalidField?_eq_none_iff] at hfields ⊢
  obtain ⟨hversion, -, hrest⟩ := hfields
  exact ⟨hversion, isSupersessionRef_toDigits targetNumber, hrest⟩

theorem markSuperseded_valid {d : Decision E} (h : d.Valid) (replacementNumber : Nat) :
    (markSuperseded d replacementNumber).Valid := by
  obtain ⟨hfields, hprovenance, -, -⟩ := h
  refine ⟨?_, hprovenance, rfl, ?_⟩
  · rw [Decision.invalidField?_eq_none_iff] at hfields ⊢
    obtain ⟨hversion, hsupersedes, -, hrest⟩ := hfields
    exact ⟨hversion, hsupersedes, isSupersessionRef_toDigits replacementNumber, hrest⟩
  · have hne : (Nat.toDigits 10 replacementNumber).isEmpty = false := by
      rw [List.isEmpty_eq_false_iff]
      exact Nat.toDigits_ne_nil
    simp [Decision.lacksRef, markSuperseded, hne]

/-- An update without an approval clears the approval group. -/
theorem appendDecisionUpdate_valid {d : Decision E} (h : d.Valid) (additionalRationale : Text)
    (updateDate : Date) :
    (appendDecisionUpdate d additionalRationale updateDate none).Valid := by
  obtain ⟨hfields, -, hreasons, href⟩ := h
  refine ⟨?_, rfl, hreasons, href⟩
  rw [Decision.invalidField?_eq_none_iff] at hfields ⊢
  obtain ⟨-, hsupersedes, hsupersededBy, -⟩ := hfields
  exact ⟨Nat.succ_ne_zero _, hsupersedes, hsupersededBy, rfl, rfl, rfl, rfl, rfl⟩

/-! ## Questions -/

structure QuestionResolveTransition where
  content : Text
  resolvedIds : List Text
  relocatedIds : List Text
  skippedProseIds : List Text

/-- `resolve_questions_content`; `none` when the reference to the decision is refused. -/
def resolveQuestionsContent (tables : UnicodeTables) (content : Text) (questionIds : List Text)
    (decisionNumber : Nat) (resolvedDate : Date) : Option QuestionResolveTransition :=
  if questionIds = [] then some ⟨content, [], [], []⟩
  else do
    let questions := Questions.OpenQuestionsFile.parse tables content
    let resolved ← questions.resolve questionIds decisionNumber resolvedDate
    let normalized := resolved.file.normalize
    return ⟨normalized.file.format, resolved.movedIds, normalized.relocatedIds,
      normalized.skippedProseIds⟩

theorem resolveQuestionsContent_eq {tables : UnicodeTables} {content : Text}
    {questionIds : List Text} (hne : questionIds ≠ []) (decisionNumber : Nat)
    (resolvedDate : Date) :
    resolveQuestionsContent tables content questionIds decisionNumber resolvedDate =
      ((Questions.OpenQuestionsFile.parse tables content).resolve questionIds decisionNumber
        resolvedDate).map fun resolved =>
          ⟨resolved.file.normalize.file.format, resolved.movedIds,
            resolved.file.normalize.relocatedIds, resolved.file.normalize.skippedProseIds⟩ := by
  simp only [resolveQuestionsContent, if_neg hne]
  cases (Questions.OpenQuestionsFile.parse tables content).resolve questionIds decisionNumber
    resolvedDate <;> rfl

end Core
end Nauro
