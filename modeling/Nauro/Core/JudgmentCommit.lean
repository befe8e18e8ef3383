import Nauro.Core.ProposeDecision

/-!
# Preparing a hosted judgment commit

An approved payload and a committed generation are turned into planned artifacts, without a
write. The payload is taken as parsed; its digests, its snapshot and the checks that compare the
finished plan with itself are left out, since they only refuse a plan.
-/

namespace Nauro
namespace Core

open Foundation

variable {E : Type}

/-! ## Approved payloads -/

def maxTitleLength : Nat := 300
def maxRationaleLength : Nat := 10000

/-- A rejected alternative of an approved payload. -/
structure RejectedSelection where
  alternative : Text
  reason : Text
  filled : strip alternative ≠ [] ∧ strip reason ≠ []

structure JudgmentFields where
  operation : Operation
  affectedDecisionId : Option Text
  title : Option Text
  rationale : Text
  rejected : List RejectedSelection
  confidence : Option DecisionConfidence
  decisionType : Option DecisionType
  reversibility : Option Reversibility
  filesAffected : List Text
  resolvesQuestions : List Text

/-- `_validate_operation_fields`. -/
structure JudgmentFields.Valid (c : JudgmentFields) : Prop where
  rationale : c.rationale.length ≤ maxRationaleLength
  questions : c.resolvesQuestions.Nodup
  files : ∀ file ∈ c.filesAffected, file ≠ []
  untargeted : c.operation = .add → c.affectedDecisionId = none
  targeted : c.operation ≠ .add → ∃ id ∈ c.affectedDecisionId, id ≠ []
  title : c.operation ≠ .update → ∀ title ∈ c.title, title.length ≤ maxTitleLength
  confidence : c.operation ≠ .update → c.confidence ≠ none

structure JudgmentContent extends JudgmentFields where
  valid : toJudgmentFields.Valid

/-- The generation and the counter that an approval was given for. -/
structure ApprovedBase where
  generationId : Text
  decisionCounter : Nat
  ulid : isUlid generationId = true

/-- The fields that a team proposal adds. -/
structure TeamProposal where
  proposalId : Text
  proposedBy : Text
  contributorOperationId : Text
  proposedBaseCommit : Option Text
  ulids : isUlid proposalId = true ∧ isUlid proposedBy = true
  operationId : isOperationId contributorOperationId = true
  baseCommit : proposedBaseCommit.all isCommitSha = true

inductive ApprovedPayload where
  /-- `HostedPreTeamApprovalPayloadV1`. -/
  | preTeam (base : ApprovedBase) (content : JudgmentContent)
  /-- `TeamProposalPayloadV1`. -/
  | team (proposal : TeamProposal) (base : ApprovedBase) (content : JudgmentContent)

def ApprovedPayload.base : ApprovedPayload → ApprovedBase
  | .preTeam base _ => base
  | .team _ base _ => base

def ApprovedPayload.content : ApprovedPayload → JudgmentContent
  | .preTeam _ content => content
  | .team _ _ content => content

structure PreTeamApprovalAttestation where
  actorId : Text
  operationId : Text
  requestReceivedAt : Text
  actor : isUlid actorId = true
  operation : isOperationId operationId = true
  timestamp : isUtcTimestamp requestReceivedAt = true

structure TeamRatificationAttestation where
  approvedBy : Text
  approvedAt : Text
  ratificationActionId : Text
  ulids : isUlid approvedBy = true ∧ isUlid ratificationActionId = true
  timestamp : isUtcTimestamp approvedAt = true

inductive ApprovalAttestation where
  | preTeam (attestation : PreTeamApprovalAttestation)
  | team (attestation : TeamRatificationAttestation)

/-! ## Committed generations -/

/-- An artifact by its path; `none` for bytes that are not UTF-8. -/
structure CommittedArtifact where
  path : Text
  text : Option Text

structure CommittedGeneration where
  generationId : Text
  decisionCounter : Nat
  artifacts : List CommittedArtifact
  ulid : isUlid generationId = true
  uniquePaths : (artifacts.map CommittedArtifact.path).Nodup

/-- The text of the artifact at a path. -/
def CommittedGeneration.text? (generation : CommittedGeneration) (path : Text) : Option Text :=
  (generation.artifacts.find? fun artifact => artifact.path == path).bind CommittedArtifact.text

/-- Why a committed generation is corrupt. -/
inductive Corruption where
  | notUtf8 (path : Text)
  | unparsable (path : Text)
  | notPositive (path : Text)
  | duplicateNumber (num : Nat)
  | counterExceeded (maximum counter : Nat)
deriving DecidableEq

/-- How a preparation ends without a plan. -/
inductive CommitError where
  | baseStale
  | corrupt (corruption : Corruption)
  | targetMissing (stem : Text)
  | rejected (refusal : Refusal)
  | attestationRejected
  /-- A value that a validator or the formatter refuses. -/
  | raised
deriving DecidableEq

def decisionsPrefix : Text :=
  decisionsDir ++ ['/']

def openQuestionsPath : Text := "open-questions.md".toList

/-- The texts by path, and the decisions with their stems in the order of the paths. -/
structure ParsedGeneration (E : Type) where
  current : Table Text Text
  decisions : List (ScannedDecision E)

/-- `filename.removesuffix(".md")`. -/
def removeMdSuffix (filename : Text) : Text :=
  if ".md".toList.isSuffixOf filename then filename.take (filename.length - 3) else filename

/-- The loop of `_parse_committed_generation`. -/
def parseArtifacts (rt : Runtime E) :
    ParsedGeneration E → List CommittedArtifact → Except CommitError (ParsedGeneration E)
  | parsed, [] => .ok parsed
  | parsed, artifact :: rest =>
      match artifact.text with
      | none => .error (.corrupt (.notUtf8 artifact.path))
      | some text =>
          let current := parsed.current.put artifact.path text
          if !decisionsPrefix.isPrefixOf artifact.path then
            parseArtifacts rt { parsed with current } rest
          else
            let filename := artifact.path.drop decisionsPrefix.length
            match parseDecision rt.tables rt.yaml text filename with
            | .error _ => .error (.corrupt (.unparsable artifact.path))
            | .ok d =>
                if d.num = 0 then .error (.corrupt (.notPositive artifact.path))
                else if parsed.decisions.any fun other => other.decision.num == d.num then
                  .error (.corrupt (.duplicateNumber d.num))
                else
                  parseArtifacts rt
                    ⟨current, parsed.decisions ++ [⟨removeMdSuffix filename, d⟩]⟩ rest

/-- `_parse_committed_generation`. -/
def parseCommittedGeneration (rt : Runtime E) (generation : CommittedGeneration) :
    Except CommitError (ParsedGeneration E) :=
  let artifacts := generation.artifacts.insertionSort fun a b => textLe a.path b.path = true
  match parseArtifacts rt ⟨Table.empty, []⟩ artifacts with
  | .error error => .error error
  | .ok parsed =>
      let maximum := (parsed.decisions.map fun scanned => scanned.decision.num).foldr max 0
      if generation.decisionCounter < maximum then
        .error (.corrupt (.counterExceeded maximum generation.decisionCounter))
      else .ok parsed

/-- `_target`. -/
def commitTarget (c : JudgmentContent) (decisions : List (ScannedDecision E)) :
    Except CommitError (Option (ScannedDecision E)) :=
  if c.operation = .add then .ok none
  else
    let stem := c.affectedDecisionId.getD []
    match decisions.find? fun scanned => scanned.stem == stem with
    | none => .error (.targetMissing stem)
    | some target => .ok (some target)

/-! ## The proposal of a payload -/

def JudgmentContent.proposal (c : JudgmentContent) : Proposal where
  title := c.title.getD []
  rationale := c.rationale
  operation := c.operation
  affectedDecisionId := c.affectedDecisionId
  rejected := c.rejected.map fun item =>
    ⟨some (.text item.alternative), none, some (.text item.reason)⟩
  confidence := c.confidence.map Token.value
  decisionType := c.decisionType.map Token.value
  reversibility := c.reversibility.map Token.value
  filesAffected := c.filesAffected
  resolvesQuestions := c.resolvesQuestions
  source := some (Token.value DecisionSource.mcp)
  baseCommit := none

/-- The questions file that a proposal is checked against. -/
def questionsFile (rt : Runtime E) (current : Table Text Text) (c : JudgmentContent) :
    Option Questions.OpenQuestionsFile :=
  if c.resolvesQuestions = [] then none
  else (current.get? openQuestionsPath).map (Questions.OpenQuestionsFile.parse rt.tables)

/-- `derive_provenance`: when the commit takes effect, and the approval of its version. -/
def deriveProvenance (payload : ApprovedPayload) (attestation : ApprovalAttestation) :
    Except CommitError (Text × Option ApprovalProvenance) :=
  match payload, attestation with
  | .preTeam _ _, .preTeam a => .ok (a.requestReceivedAt, none)
  | .team proposal _ _, .team a =>
      if proposal.contributorOperationId = a.ratificationActionId then .error .attestationRejected
      else
        .ok (a.approvedAt, some {
          proposedBy := proposal.proposedBy
          approvedBy := a.approvedBy
          approvedAt := a.approvedAt
          proposalId := proposal.proposalId
          proposedBaseCommit := proposal.proposedBaseCommit })
  | _, _ => .error .attestationRejected

/-! ## Planned artifacts -/

/-- What a preparation plans. -/
structure PlannedCommit (E : Type) where
  artifacts : Table Text Text
  primary : Decision E
  primaryStem : Text
  assignedNumber : Option Nat
  newDecisionCounter : Nat
  touched : List Text
  questions : QuestionResolveOutcome

/-- The decision texts that an operation plans, with its primary decision. -/
structure PlannedDecisions (E : Type) where
  planned : Table Text Text
  primary : Decision E
  primaryStem : Text
  touched : List Text

/-- `planned[path] = format_decision(d).encode("utf-8")`. -/
def planDecision (rt : Runtime E) (planned : Table Text Text) (stem : Text) (d : Decision E) :
    Option (Table Text Text) :=
  (formatDecision rt.yaml d).map fun text => planned.put (decisionPath stem) text

/-- The update branch of `_build_artifacts`. -/
def planUpdate (rt : Runtime E) (c : JudgmentContent) (provenance : Option ApprovalProvenance)
    (decisionDate : Date) (current : Table Text Text) (target : ScannedDecision E) :
    Option (PlannedDecisions E) :=
  let primary := appendDecisionUpdate target.decision c.rationale decisionDate provenance
  (planDecision rt current target.stem primary).map fun planned =>
    ⟨planned, primary, target.stem, [target.stem]⟩

/-- The decision that an add or a supersede builds; `none` when a value is refused. -/
def JudgmentContent.newDecision (c : JudgmentContent) (provenance : Option ApprovalProvenance)
    (decisionDate : Date) (number : Nat) : Option (Decision E) := do
  let title ← c.title
  let confidence ← c.confidence
  let rejected ← c.rejected.mapM fun item =>
    RejectedAlternative.make? item.alternative (some item.reason)
  (buildNewDecision
    { number, decisionDate, title, rationale := c.rationale, confidence
      decisionType := c.decisionType
      reversibility := c.reversibility
      source := some .mcp
      filesAffected := c.filesAffected
      rejected }
    provenance .none).toOption

/-- The add and supersede branch of `_build_artifacts`. -/
def planNew (rt : Runtime E) (c : JudgmentContent) (provenance : Option ApprovalProvenance)
    (decisionDate : Date) (number : Nat) (current : Table Text Text)
    (target : Option (ScannedDecision E)) : Option (PlannedDecisions E) := do
  let built ← c.newDecision provenance decisionDate number
  let stem := decisionNumberPrefix number ++ slugifyDecisionTitle rt.tables (c.title.getD [])
  match target with
  | none =>
      let planned ← planDecision rt current stem built
      return ⟨planned, built, stem, [stem]⟩
  | some old =>
      let primary := attachSupersedes built old.decision.num
      let withNew ← planDecision rt current stem primary
      let planned ← planDecision rt withNew old.stem (markSuperseded old.decision number)
      return ⟨planned, primary, stem, [stem, old.stem]⟩

/-- The decision artifacts of `_build_artifacts`. -/
def planDecisions (rt : Runtime E) (c : JudgmentContent) (provenance : Option ApprovalProvenance)
    (decisionDate : Date) (counter : Nat) (current : Table Text Text)
    (target : Option (ScannedDecision E)) : Option (PlannedDecisions E) :=
  match c.operation with
  | .update => target.bind (planUpdate rt c provenance decisionDate current)
  | .add => planNew rt c provenance decisionDate (counter + 1) current none
  | .supersede => target.bind fun old =>
      planNew rt c provenance decisionDate (counter + 1) current (some old)

/-- `_build_artifacts`; `none` when a value is refused. -/
def buildArtifacts (rt : Runtime E) (c : JudgmentContent)
    (provenance : Option ApprovalProvenance) (effectiveAt : Text) (counter : Nat)
    (current : Table Text Text) (target : Option (ScannedDecision E)) :
    Option (PlannedCommit E) := do
  let decisionDate ← Questions.parseIsoDate (effectiveAt.take 10)
  let plan ← planDecisions rt c provenance decisionDate counter current target
  let resolution ← resolveQuestionsContent rt.tables
    ((plan.planned.get? openQuestionsPath).getD []) c.resolvesQuestions plan.primary.num decisionDate
  let assignedNumber := if c.operation = .update then none else some (counter + 1)
  return {
    artifacts :=
      if c.resolvesQuestions = [] then plan.planned
      else plan.planned.put openQuestionsPath resolution.content
    primary := plan.primary
    primaryStem := plan.primaryStem
    assignedNumber
    newDecisionCounter := assignedNumber.getD counter
    touched := plan.touched
    questions := ⟨resolution.resolvedIds, resolution.relocatedIds, resolution.skippedProseIds⟩ }

/-! ## The preparation -/

/-- The refusal of a payload's proposal over the committed decisions. -/
def commitRefusal? (rt : Runtime E) (c : JudgmentContent) (parsed : ParsedGeneration E)
    (target : Option (ScannedDecision E)) : Option Refusal :=
  (validateProposalRequest c.proposal (questionsFile rt parsed.current c)).or <|
    evaluateParsedProposal rt c.proposal (parsed.decisions.map ScannedDecision.decision) []
      (target.map fun scanned => scanned.decision.num) false

/-- `prepare_judgment_commit`. -/
def prepareJudgmentCommit (rt : Runtime E) (payload : ApprovedPayload)
    (attestation : ApprovalAttestation) (generation : CommittedGeneration) :
    Except CommitError (PlannedCommit E) :=
  if payload.base.generationId ≠ generation.generationId ∨
      payload.base.decisionCounter ≠ generation.decisionCounter then .error .baseStale
  else do
    let parsed ← parseCommittedGeneration rt generation
    let target ← commitTarget payload.content parsed.decisions
    match commitRefusal? rt payload.content parsed target with
    | some refusal => .error (.rejected refusal)
    | none =>
        let (effectiveAt, provenance) ← deriveProvenance payload attestation
        (buildArtifacts rt payload.content provenance effectiveAt generation.decisionCounter
          parsed.current target).elim (.error .raised) .ok

/-! ## What a parsed generation holds -/

theorem CommittedGeneration.text?_eq_some_iff {generation : CommittedGeneration}
    {path text : Text} :
    generation.text? path = some text ↔ ⟨path, some text⟩ ∈ generation.artifacts := by
  rw [text?, Option.bind_eq_some_iff]
  constructor
  · rintro ⟨⟨found, content⟩, hfound, hcontent⟩
    have hpath : found = path := by simpa using List.find?_some hfound
    subst hpath
    cases hcontent
    exact List.mem_of_find?_eq_some hfound
  · intro hin
    cases hfind : generation.artifacts.find? fun artifact => artifact.path == path with
    | none =>
        rw [List.find?_eq_none] at hfind
        exact absurd (beq_self_eq_true path) (hfind _ hin)
    | some found =>
        have hpath : found.path = path := by simpa using List.find?_some hfind
        have hsame : found = ⟨path, some text⟩ :=
          List.inj_on_of_nodup_map generation.uniquePaths (List.mem_of_find?_eq_some hfind) hin hpath
        exact ⟨found, rfl, by rw [hsame]⟩

/-- The texts of the artifacts that were walked are put over those already there. -/
theorem parseArtifacts_get? {rt : Runtime E} {artifacts : List CommittedArtifact}
    {parsed parsed' : ParsedGeneration E} (hunique : (artifacts.map CommittedArtifact.path).Nodup)
    (h : parseArtifacts rt parsed artifacts = .ok parsed') {path text : Text} :
    parsed'.current.get? path = some text ↔
      ⟨path, some text⟩ ∈ artifacts ∨
        path ∉ artifacts.map CommittedArtifact.path ∧ parsed.current.get? path = some text := by
  induction artifacts generalizing parsed with
  | nil =>
      cases h
      simp
  | cons artifact rest ih =>
      rw [List.map_cons, List.nodup_cons] at hunique
      obtain ⟨hnot, hrest⟩ := hunique
      -- whatever the artifact is, its text is put and the walk goes on
      obtain ⟨stored, decisions, hstored, hnext⟩ : ∃ stored decisions, artifact.text = some stored ∧
          parseArtifacts rt ⟨parsed.current.put artifact.path stored, decisions⟩ rest =
            .ok parsed' := by
        rw [parseArtifacts] at h
        cases htext : artifact.text with
        | none =>
            rw [htext] at h
            cases h
        | some stored =>
            rw [htext] at h
            simp only at h
            split_ifs at h
            · exact ⟨stored, _, rfl, h⟩
            · split at h
              · cases h
              · split_ifs at h
                exact ⟨stored, _, rfl, h⟩
      rw [ih hrest hnext]
      obtain ⟨artifactPath, content⟩ := artifact
      cases hstored
      by_cases hpath : path = artifactPath
      · subst hpath
        have hother : ∀ content, (⟨path, content⟩ : CommittedArtifact) ∉ rest := fun content hin =>
          hnot (List.mem_map.mpr ⟨_, hin, rfl⟩)
        simp [hother, hnot, Table.get?_put_self, eq_comm]
      · simp [hpath, Table.get?_put_of_ne hpath]

theorem parseCommittedGeneration_get? {rt : Runtime E} {generation : CommittedGeneration}
    {parsed : ParsedGeneration E} (h : parseCommittedGeneration rt generation = .ok parsed)
    (path : Text) : parsed.current.get? path = generation.text? path := by
  unfold parseCommittedGeneration at h
  simp only at h
  split at h
  · cases h
  · next walked hwalk =>
      split_ifs at h
      cases h
      have hperm := List.perm_insertionSort (fun a b : CommittedArtifact =>
        textLe a.path b.path = true) generation.artifacts
      have hunique := (hperm.map CommittedArtifact.path).nodup_iff.mpr generation.uniquePaths
      ext text
      rw [parseArtifacts_get? hunique hwalk, generation.text?_eq_some_iff, hperm.mem_iff]
      simp [Table.get?, Table.empty]

/-! ## What a plan keeps -/

theorem decisionPath_ne_openQuestionsPath (stem : Text) : decisionPath stem ≠ openQuestionsPath := by
  intro h
  cases h

theorem planDecision_questions {rt : Runtime E} {current planned : Table Text Text} {stem : Text}
    {d : Decision E} (h : planDecision rt current stem d = some planned) :
    planned.get? openQuestionsPath = current.get? openQuestionsPath := by
  obtain ⟨text, -, rfl⟩ := Option.map_eq_some_iff.mp h
  exact Table.get?_put_of_ne (decisionPath_ne_openQuestionsPath stem).symm _

/-- The decisions of an operation are planned beside the questions. -/
theorem planDecisions_questions {rt : Runtime E} {c : JudgmentContent}
    {provenance : Option ApprovalProvenance} {decisionDate : Date} {counter : Nat}
    {current : Table Text Text} {target : Option (ScannedDecision E)} {plan : PlannedDecisions E}
    (h : planDecisions rt c provenance decisionDate counter current target = some plan) :
    plan.planned.get? openQuestionsPath = current.get? openQuestionsPath := by
  have hnew : ∀ target, planNew rt c provenance decisionDate (counter + 1) current target =
      some plan → plan.planned.get? openQuestionsPath = current.get? openQuestionsPath := by
    intro target hplan
    simp only [planNew, Option.bind_eq_bind, Option.bind_eq_some_iff] at hplan
    obtain ⟨built, -, hplan⟩ := hplan
    cases target with
    | none =>
        obtain ⟨planned, hplanned, hreturn⟩ := Option.bind_eq_some_iff.mp hplan
        cases hreturn
        exact planDecision_questions hplanned
    | some old =>
        obtain ⟨withNew, hnew, hplan⟩ := Option.bind_eq_some_iff.mp hplan
        obtain ⟨planned, hplanned, hreturn⟩ := Option.bind_eq_some_iff.mp hplan
        cases hreturn
        rw [planDecision_questions hplanned, planDecision_questions hnew]
  unfold planDecisions at h
  split at h
  · obtain ⟨old, -, hupdate⟩ := Option.bind_eq_some_iff.mp h
    obtain ⟨planned, hplanned, rfl⟩ := Option.map_eq_some_iff.mp hupdate
    exact planDecision_questions hplanned
  · exact hnew none h
  · obtain ⟨old, -, hsupersede⟩ := Option.bind_eq_some_iff.mp h
    exact hnew (some old) hsupersede

theorem except_bind_ok_iff {ε α β : Type} {x : Except ε α} {f : α → Except ε β} {b : β} :
    x >>= f = .ok b ↔ ∃ a, x = .ok a ∧ f a = .ok b := by
  cases x with
  | error e => exact ⟨fun h => (by cases h), fun ⟨_, h, _⟩ => (by cases h)⟩
  | ok a => exact ⟨fun h => ⟨a, rfl, h⟩, fun ⟨_, h, hf⟩ => (by cases h; exact hf)⟩

/-- The stages of a preparation that succeeds. -/
theorem prepareJudgmentCommit_ok {rt : Runtime E} {payload : ApprovedPayload}
    {attestation : ApprovalAttestation} {generation : CommittedGeneration}
    {planned : PlannedCommit E}
    (h : prepareJudgmentCommit rt payload attestation generation = .ok planned) :
    ∃ parsed target effectiveAt provenance,
      parseCommittedGeneration rt generation = .ok parsed ∧
        commitTarget payload.content parsed.decisions = .ok target ∧
        commitRefusal? rt payload.content parsed target = none ∧
        deriveProvenance payload attestation = .ok (effectiveAt, provenance) ∧
        buildArtifacts rt payload.content provenance effectiveAt generation.decisionCounter
          parsed.current target = some planned := by
  unfold prepareJudgmentCommit at h
  split_ifs at h
  obtain ⟨parsed, hparsed, h⟩ := except_bind_ok_iff.mp h
  obtain ⟨target, htarget, h⟩ := except_bind_ok_iff.mp h
  split at h
  · cases h
  · next hrefusal =>
      obtain ⟨⟨effectiveAt, provenance⟩, hprovenance, h⟩ := except_bind_ok_iff.mp h
      refine ⟨parsed, target, effectiveAt, provenance, hparsed, htarget, hrefusal, hprovenance, ?_⟩
      simp only at h
      cases hbuild : buildArtifacts rt payload.content provenance effectiveAt
          generation.decisionCounter parsed.current target with
      | none =>
          rw [hbuild] at h
          cases h
      | some built =>
          rw [hbuild] at h
          cases h
          rfl

/-- What a plan makes of the questions. -/
theorem buildArtifacts_questions {rt : Runtime E} {c : JudgmentContent}
    {provenance : Option ApprovalProvenance} {effectiveAt : Text} {counter : Nat}
    {current : Table Text Text} {target : Option (ScannedDecision E)} {planned : PlannedCommit E}
    (h : buildArtifacts rt c provenance effectiveAt counter current target = some planned) :
    ∃ decisionDate transition,
      resolveQuestionsContent rt.tables ((current.get? openQuestionsPath).getD [])
        c.resolvesQuestions planned.primary.num decisionDate = some transition ∧
      planned.questions.resolvedIds = transition.resolvedIds ∧
      planned.artifacts.get? openQuestionsPath =
        if c.resolvesQuestions = [] then current.get? openQuestionsPath
        else some transition.content := by
  simp only [buildArtifacts, Option.bind_eq_bind, Option.bind_eq_some_iff] at h
  obtain ⟨decisionDate, -, plan, hplan, transition, htransition, hreturn⟩ := h
  cases hreturn
  rw [planDecisions_questions hplan] at htransition
  refine ⟨decisionDate, transition, htransition, rfl, ?_⟩
  by_cases hids : c.resolvesQuestions = []
  · simp only [if_pos hids]
    exact planDecisions_questions hplan
  · simp only [if_neg hids]
    exact Table.get?_put_self ..

end Core
end Nauro
