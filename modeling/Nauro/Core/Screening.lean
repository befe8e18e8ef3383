import Nauro.Core.Questions
import Nauro.Core.Store

/-!
# Screening a proposal
-/

namespace Nauro
namespace Core

open Foundation

variable {E : Type}

/-! ## Proposals -/

inductive Operation where
  | add
  | update
  | supersede
deriving DecidableEq

/-- A value under a key of a rejected item. -/
inductive ItemValue where
  | text (t : Text)
  /-- Any other value, by its `str` and its truth. -/
  | other (rendered : Text) (truthy : Bool)
deriving DecidableEq

/-- `str(value)`. -/
def ItemValue.rendered : ItemValue → Text
  | .text t => t
  | .other rendered _ => rendered

/-- A rejected alternative of a proposal; a null value counts as absent. -/
structure RejectedItem where
  alternative : Option ItemValue
  name : Option ItemValue
  reason : Option ItemValue
deriving DecidableEq

structure Proposal where
  title : Text
  rationale : Text
  operation : Operation
  affectedDecisionId : Option Text
  rejected : List RejectedItem
  confidence : Option Text
  decisionType : Option Text
  reversibility : Option Text
  filesAffected : List Text
  resolvesQuestions : List Text
  source : Option Text
  baseCommit : Option Text
deriving DecidableEq

/-- `if affected_decision_id`: an empty identifier counts as none. -/
def Proposal.affected? (p : Proposal) : Option Text :=
  p.affectedDecisionId.filter fun id => !id.isEmpty

/-! ## Refusals -/

/-- Why a proposal is refused before anything is written. -/
inductive Refusal where
  | updateMetadata (fields : List Text)
  | unknownQuestions (ids : List Text)
  | ambiguousQuestions (ids : List Text)
  | emptyTitle
  | emptyRationale
  | invalidConfidence (value : Option Text)
  | invalidField (name value : Text) (allowed : List Text)
  | shortRationale (length : Nat)
  | unlabelledItem (index : Nat)
  | duplicateContent
  | duplicateTitle (num : Nat)
deriving DecidableEq

def minRationaleLength : Nat := 20

def commaJoined (texts : List Text) : Text :=
  ", ".toList.intercalate texts

/-- The texts of an enumeration's members. -/
def tokenValues (α : Type) [Token α] : List Text :=
  (Token.members : List α).map Token.value

/-- The `assessment` of a refusal; a refusal that echoes values through `repr` has none here. -/
def Refusal.assessment : Refusal → Option Text
  | .updateMetadata fields => some ("operation=\"update\" appends rationale only; cannot change ".toList
      ++ commaJoined fields ++
      ". Use operation=\"supersede\" to replace the decision with new metadata.".toList)
  | .emptyTitle => some "Title is empty.".toList
  | .emptyRationale => some "Rationale is empty.".toList
  | .invalidConfidence value => some ("Invalid confidence: ".toList ++ value.getD "None".toList ++
      ". Must be one of: ".toList ++ commaJoined (tokenValues DecisionConfidence))
  | .invalidField name value allowed => some ("Invalid ".toList ++ name ++ ": ".toList ++ value ++
      ". Must be one of: ".toList ++ commaJoined allowed)
  | .shortRationale length => some ("Rationale too short (".toList ++ Nat.toDigits 10 length ++
      " chars). Minimum ".toList ++ Nat.toDigits 10 minRationaleLength ++ ".".toList)
  | .duplicateContent => some "Exact duplicate of existing decision (hash match).".toList
  | .duplicateTitle num => some ("An active decision already has this title: D".toList ++
      Nat.toDigits 10 num ++ ". Use operation=\"supersede\" to replace it, or ".toList ++
      "operation=\"update\" to append rationale — not a second add.".toList)
  | .unknownQuestions _ | .ambiguousQuestions _ | .unlabelledItem _ => none

/-! ## Requests -/

/-- A value is set and not blank. -/
def isFilled (value : Option Text) : Bool :=
  value.any fun text => !(strip text).isEmpty

/-- The fields that an update cannot take, in their order. -/
def Proposal.updateFields (p : Proposal) : List (Text × Bool) :=
  [("title".toList, isFilled (some p.title)), ("rejected".toList, !p.rejected.isEmpty),
    ("files_affected".toList, !p.filesAffected.isEmpty),
    ("decision_type".toList, isFilled p.decisionType),
    ("reversibility".toList, isFilled p.reversibility),
    ("confidence".toList, isFilled p.confidence)]

/-- `validate_update_metadata`. -/
def validateUpdateMetadata (p : Proposal) : Option Refusal :=
  if p.operation = .update then
    let disallowed := (p.updateFields.filter Prod.snd).map Prod.fst
    if disallowed = [] then none else some (.updateMetadata disallowed)
  else none

/-- `validate_question_resolves`. -/
def validateQuestionResolves (p : Proposal) (questions : Option Questions.OpenQuestionsFile) :
    Option Refusal :=
  if p.resolvesQuestions = [] then none
  else
    match questions with
    | none => some (.unknownQuestions p.resolvesQuestions)
    | some file =>
        let unknown := p.resolvesQuestions.filter fun id => !file.knownQuestionIds.contains id
        let ambiguous := p.resolvesQuestions.filter file.isAmbiguous
        if unknown ≠ [] then some (.unknownQuestions unknown)
        else if ambiguous ≠ [] then some (.ambiguousQuestions ambiguous)
        else none

/-- `validate_update_rationale`. -/
def validateUpdateRationale (p : Proposal) : Option Refusal :=
  let rationale := strip p.rationale
  if p.operation ≠ .update then none
  else if rationale = [] then some .emptyRationale
  else if rationale.length < minRationaleLength then some (.shortRationale rationale.length)
  else none

/-- `validate_proposal_request`: the checks that need no decision, in their order. -/
def validateProposalRequest (p : Proposal) (questions : Option Questions.OpenQuestionsFile) :
    Option Refusal :=
  (validateUpdateMetadata p).or
    ((validateQuestionResolves p questions).or (validateUpdateRationale p))

/-! ## The structural screen -/

/-- `compute_hash`. -/
def computeHash (rt : Runtime E) (title rationale : Text) : Text :=
  rt.digest (lower rt.tables (strip title) ++ ['|'] ++ lower rt.tables (strip rationale))

/-- `normalize_title`: collapse white space and lower-case. -/
def normalizeTitle (tables : UnicodeTables) (title : Text) : Text :=
  [' '].intercalate (splitWords (lower tables title))

/-- `rejected_item_label`: the first label that is not blank. -/
def rejectedItemLabel (item : RejectedItem) : Option Text :=
  [item.alternative, item.name].findSome? fun value =>
    value.bind fun v => if strip v.rendered = [] then none else some (strip v.rendered)

/-- The refusal of an enumeration value that is set and no member. -/
def screenEnum (name : String) (raw : Option Text) (allowed : List Text) : Option Refusal :=
  raw.bind fun text =>
    let value := strip text
    if value ≠ [] ∧ value ∉ allowed then some (.invalidField name.toList value allowed) else none

/-- The first rejected item without a label. -/
def screenLabels (items : List RejectedItem) : Option Refusal :=
  (items.findIdx? fun item => (rejectedItemLabel item).isNone).map .unlabelledItem

/-- The first active decision with the title. -/
def screenTitle (rt : Runtime E) (title : Text) (activeDecisions : List (Decision E)) :
    Option Refusal :=
  (activeDecisions.find? fun d =>
    normalizeTitle rt.tables d.title == normalizeTitle rt.tables title).map fun d =>
      .duplicateTitle d.num

/-- `screen_structural`: the first check that fails. -/
def screenStructural (rt : Runtime E) (p : Proposal) (existingHashes : List Text)
    (activeDecisions : List (Decision E)) : Option Refusal :=
  let title := strip p.title
  let rationale := strip p.rationale
  if title = [] then some .emptyTitle
  else if rationale = [] then some .emptyRationale
  else if !p.confidence.any (tokenValues DecisionConfidence).contains then
    some (.invalidConfidence p.confidence)
  else
    (screenEnum "decision_type" p.decisionType (tokenValues DecisionType)).or <|
    (screenEnum "reversibility" p.reversibility (tokenValues Reversibility)).or <|
    (screenEnum "source" p.source (tokenValues DecisionSource)).or <|
    if rationale.length < minRationaleLength then some (.shortRationale rationale.length)
    else
      (screenLabels p.rejected).or <|
      if computeHash rt title rationale ∈ existingHashes then some .duplicateContent
      else screenTitle rt title activeDecisions

/-- The decisions a proposal's title must differ from. -/
def activeBut (affectedNumber : Option Nat) (decisions : List (Decision E)) :
    List (Decision E) :=
  decisions.filter fun d => d.status == .active && some d.num != affectedNumber

/-- `evaluate_parsed_proposal`; an update is not screened. -/
def evaluateParsedProposal (rt : Runtime E) (p : Proposal) (decisions : List (Decision E))
    (existingHashes : List Text) (affectedNumber : Option Nat) (enforceClaimConflicts : Bool) :
    Option Refusal :=
  if p.operation = .update then none
  else if enforceClaimConflicts then
    screenStructural rt p existingHashes (activeBut affectedNumber decisions)
  else screenStructural rt p [] []

/-! ## What a screened proposal satisfies -/

/-- A proposal with a structure that passes, whatever the store holds. -/
structure Proposal.WellFormed (p : Proposal) : Prop where
  title : strip p.title ≠ []
  rationale : minRationaleLength ≤ (strip p.rationale).length
  confidence : ∃ value ∈ p.confidence, value ∈ tokenValues DecisionConfidence
  labels : ∀ item ∈ p.rejected, rejectedItemLabel item ≠ none

theorem screenLabels_eq_none_iff {items : List RejectedItem} :
    screenLabels items = none ↔ ∀ item ∈ items, rejectedItemLabel item ≠ none := by
  simp [screenLabels, List.findIdx?_eq_none_iff, Option.isSome_iff_ne_none]

end Core
end Nauro
