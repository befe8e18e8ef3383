import Nauro.Core.ClaimContract
import Nauro.Core.Doctor
import Nauro.Foundation.EscapedUtf8
import Nauro.Foundation.JsonRoundTrip

/-!
# Finalizing a judgment commit

A finalization takes a prepared commit and the observations of its claims, in any order. It pairs
every probe with the observation of its key, checks the pairs in the order of the probes, and writes
the record of the plan.

* `finalize_exact` — the acceptance, the record and the order.
-/

namespace Nauro
namespace Core

open Foundation
open Foundation.EscapedUtf8 (utf8)
open Foundation.Json (Value Str ofText toText? print sortKeys)

variable {E : Type}

/-! ## Prepared commits -/

structure PlannedArtifact where
  path : Text
  content : List UInt8

structure PreparedBase where
  generationId : Text
  decisionCounter : Nat
  observedManifestDigest : Text

structure PrimaryDecision where
  decisionId : Text
  path : Text
  sha256 : Text

/-- A prepared commit, with the decisions that its planned artifacts hold. -/
structure PreparedJudgmentCommit (rt : Runtime E) where
  payload : ApprovedPayload
  payloadDigest : Text
  approvalAttestation : ApprovalAttestation
  base : PreparedBase
  decisionProvenance : Option ApprovalProvenance
  newDecisionCounter : Nat
  plannedArtifacts : List PlannedArtifact
  snapshot : List UInt8
  primaryDecision : PrimaryDecision
  claimProbes : List (ClaimProbe rt.tables)
  claimIntents : ClaimIntents
  /-- The dump of the committed result. -/
  committedResult : { v : Value // v.IsPlain }
  target : Option (Decision E)
  primary : Decision E
  contract : buildClaimContract rt payload.content.operation target primary =
    some (claimProbes, claimIntents)

/-! ## The record of a plan -/

def textValue (text : Text) : Value :=
  .string (ofText text)

def natValue (n : Nat) : Value :=
  .int n

/-- A model's dump: an object with these members. -/
def dump (members : List (String × Value)) : Value :=
  .object (members.map fun m => (ofText m.1.toList, m.2))

def optionValue {α : Type} (value : α → Value) : Option α → Value
  | none => .null
  | some a => value a

def ClaimProbe.dump {tables : UnicodeTables} : ClaimProbe tables → Value
  | .absentTitle title => Core.dump
      [("kind", textValue "absent_title".toList), ("normalized_title", textValue title)]
  | .ownedTitle title owner => Core.dump
      [("kind", textValue "owned_title".toList), ("normalized_title", textValue title),
        ("expected_owner_decision_number", natValue owner)]
  | .absentContent contentHash => Core.dump
      [("kind", textValue "absent_content".toList), ("content_hash", textValue contentHash)]

def ClaimObservation.dump {tables : UnicodeTables} : ClaimObservation tables → Value
  | .absentTitle title => Core.dump
      [("kind", textValue "absent_title".toList), ("normalized_title", textValue title)]
  | .committedTitle title owner => Core.dump
      [("kind", textValue "committed_title".toList), ("normalized_title", textValue title),
        ("owner_decision_number", natValue owner)]
  | .unavailableTitle title reason => Core.dump
      [("kind", textValue "unavailable_title".toList), ("normalized_title", textValue title),
        ("reason", textValue reason.value)]
  | .absentContent contentHash => Core.dump
      [("kind", textValue "absent_content".toList), ("content_hash", textValue contentHash)]
  | .committedContent contentHash => Core.dump
      [("kind", textValue "committed_content".toList), ("content_hash", textValue contentHash)]
  | .unavailableContent contentHash reason => Core.dump
      [("kind", textValue "unavailable_content".toList), ("content_hash", textValue contentHash),
        ("reason", textValue reason.value)]

def ClaimIntent.dump (intent : ClaimIntent) : Value :=
  Core.dump
    [("kind", textValue intent.kind.value),
      ("normalized_title", optionValue textValue intent.normalizedTitle),
      ("content_hash", optionValue textValue intent.contentHash),
      ("owner_decision_number", optionValue (fun n => natValue n.1) intent.ownerDecisionNumber),
      ("from_owner_decision_number",
        optionValue (fun n => natValue n.1) intent.fromOwnerDecisionNumber),
      ("to_owner_decision_number",
        optionValue (fun n => natValue n.1) intent.toOwnerDecisionNumber)]

def ApprovalAttestation.dump : ApprovalAttestation → Value
  | .preTeam a => Core.dump
      [("actor_id", textValue a.actorId), ("operation_id", textValue a.operationId),
        ("request_received_at", textValue a.requestReceivedAt)]
  | .team a => Core.dump
      [("approved_by", textValue a.approvedBy), ("approved_at", textValue a.approvedAt),
        ("ratification_action_id", textValue a.ratificationActionId)]

def PreparedBase.dump (base : PreparedBase) : Value :=
  Core.dump
    [("generation_id", textValue base.generationId),
      ("decision_counter", natValue base.decisionCounter),
      ("observed_manifest_digest", textValue base.observedManifestDigest)]

def PrimaryDecision.dump (primary : PrimaryDecision) : Value :=
  Core.dump
    [("decision_id", textValue primary.decisionId), ("path", textValue primary.path),
      ("sha256", textValue primary.sha256)]

def provenanceValue (p : ApprovalProvenance) : Value :=
  dump
    [("approved_at", textValue p.approvedAt), ("approved_by", textValue p.approvedBy),
      ("proposal_id", textValue p.proposalId),
      ("proposed_base_commit", optionValue textValue p.proposedBaseCommit),
      ("proposed_by", textValue p.proposedBy)]

def ApprovedPayload.approvalMode : ApprovedPayload → Text
  | .preTeam .. => "pre_team_session".toList
  | .team .. => "team_ratification".toList

def ApprovedPayload.payloadSchema : ApprovedPayload → Text
  | .preTeam .. => "nauro.judgment_commit.pre_team.v1".toList
  | .team .. => "nauro.judgment_commit.team_proposal.v1".toList

def operationValue : Operation → Text
  | .add => "add".toList
  | .update => "update".toList
  | .supersede => "supersede".toList

/-- `canonical_judgment_payload_bytes`; `none` when a string has no UTF-8. -/
def canonicalJudgmentPayloadBytes (payload : Value) : Option (List UInt8) :=
  (toText? (print (sortKeys payload))).map utf8

section

variable {rt : Runtime E} (sha256Hex : List UInt8 → Text)

def artifactDescriptor (artifact : PlannedArtifact) : Value :=
  dump
    [("length", natValue artifact.content.length), ("path", textValue artifact.path),
      ("sha256", textValue (sha256Hex artifact.content))]

/-- `_artifact_inventory`. -/
def artifactInventory (artifacts : List PlannedArtifact) : Option Value := do
  let descriptors := artifacts.map (artifactDescriptor sha256Hex)
  let inventory := dump
    [("artifacts", .array descriptors),
      ("schema", textValue "nauro.artifact_inventory.v1".toList)]
  let bytes ← canonicalJudgmentPayloadBytes inventory
  return dump
    [("artifact_count", natValue descriptors.length), ("digest", textValue (sha256Hex bytes)),
      ("schema", textValue "nauro.artifact_inventory.v1".toList),
      ("total_byte_count", natValue (artifacts.map fun a => a.content.length).sum)]

/-- The record of a plan, from the inventory of its artifacts. -/
def planRecord (prepared : PreparedJudgmentCommit rt)
    (observations : List (ClaimObservation rt.tables)) (inventory : Value) : Value :=
  let content := prepared.payload.content
  dump
    [("affected_decision_id", optionValue textValue content.affectedDecisionId),
      ("approval_mode", textValue prepared.payload.approvalMode),
      ("approval", prepared.approvalAttestation.dump),
      ("artifact_inventory", inventory),
      ("base", prepared.base.dump),
      ("claim_plan", dump
        [("entry", .array (prepared.claimIntents.entry.map ClaimIntent.dump)),
          ("observations", .array (observations.map ClaimObservation.dump)),
          ("probes", .array (prepared.claimProbes.map ClaimProbe.dump)),
          ("publication", .array (prepared.claimIntents.publication.map ClaimIntent.dump))]),
      ("committed_result", prepared.committedResult),
      ("decision_provenance", optionValue provenanceValue prepared.decisionProvenance),
      ("new_decision_counter", natValue prepared.newDecisionCounter),
      ("operation", textValue (operationValue content.operation)),
      ("payload_digest", textValue prepared.payloadDigest),
      ("payload_schema", textValue prepared.payload.payloadSchema),
      ("primary_decision", prepared.primaryDecision.dump),
      ("record_schema", textValue "nauro.judgment_commit.plan_record.v1".toList),
      ("snapshot", dump
        [("length", natValue prepared.snapshot.length),
          ("sha256", textValue (sha256Hex prepared.snapshot))]),
      ("transform_version", natValue 1)]

/-- `build_plan_record`. -/
def buildPlanRecord (prepared : PreparedJudgmentCommit rt)
    (observations : List (ClaimObservation rt.tables)) : Option (List UInt8) := do
  let inventory ← artifactInventory sha256Hex prepared.plannedArtifacts
  canonicalJudgmentPayloadBytes (planRecord sha256Hex prepared observations inventory)

/-! ## The finalization -/

structure FinalizedClaimPlan where
  entry : List ClaimIntent
  publication : List ClaimIntent
deriving DecidableEq

structure JudgmentCommitPlan (rt : Runtime E) where
  prepared : PreparedJudgmentCommit rt
  validatedClaimObservations : List (ClaimObservation rt.tables)
  claimPlan : FinalizedClaimPlan
  planRecordBytes : List UInt8

/-- `_verify_record`. -/
def JudgmentCommitPlan.verified (plan : JudgmentCommitPlan rt) : Bool :=
  decide (plan.validatedClaimObservations.map observationKey =
      plan.prepared.claimProbes.map probeKey) &&
    ((plan.prepared.claimProbes.zip plan.validatedClaimObservations).all fun pair =>
      (validateObservation pair.1 pair.2).toOption.isSome) &&
    decide (plan.claimPlan.entry = plan.prepared.claimIntents.entry) &&
    decide (plan.claimPlan.publication = plan.prepared.claimIntents.publication) &&
    decide (buildPlanRecord sha256Hex plan.prepared plan.validatedClaimObservations =
      some plan.planRecordBytes)

abbrev Observed (tables : UnicodeTables) := Table ClaimKey (ClaimObservation tables)

/-- `observed_by_key`, filled in the order of the observations. -/
def collectObservations {tables : UnicodeTables} :
    Observed tables → List (ClaimObservation tables) → Except FinalizeError (Observed tables)
  | observed, [] => .ok observed
  | observed, observation :: rest =>
      if observationKey observation ∈ observed.keys then
        .error (.duplicate (observationKey observation))
      else collectObservations (observed.put (observationKey observation) observation) rest

/-- The observations by their keys. -/
def observe {tables : UnicodeTables} (claimObservations : List (RawObservation tables)) :
    Except FinalizeError (Observed tables) :=
  match claimObservations.mapM RawObservation.parse with
  | none => .error .malformed
  | some parsed => collectObservations Table.empty parsed

/-- `sorted` of claim keys. -/
def sortClaimKeys (keys : List ClaimKey) : List ClaimKey :=
  sortByKey ClaimKey.rank keys

/-- The check of every pair, in order. -/
def validatePairs {tables : UnicodeTables} :
    List (ClaimProbe tables × ClaimObservation tables) → Except FinalizeError Unit
  | [] => .ok ()
  | (probe, observation) :: rest =>
      match validateObservation probe observation with
      | .error error => .error error
      | .ok () => validatePairs rest

/-- The plan of a prepared commit, once its observations are in the order of the probes. -/
def finalPlan (prepared : PreparedJudgmentCommit rt)
    (ordered : List (ClaimObservation rt.tables)) : Except FinalizeError (JudgmentCommitPlan rt) :=
  match buildPlanRecord sha256Hex prepared ordered with
  | none => .error .raised
  | some recordBytes =>
      let plan : JudgmentCommitPlan rt :=
        { prepared
          validatedClaimObservations := ordered
          claimPlan := ⟨prepared.claimIntents.entry, prepared.claimIntents.publication⟩
          planRecordBytes := recordBytes }
      if plan.verified sha256Hex then .ok plan else .error .raised

/-- The pairing of the observations with the probes. -/
def settleObservations (prepared : PreparedJudgmentCommit rt) (observed : Observed rt.tables) :
    Except FinalizeError (JudgmentCommitPlan rt) :=
  let probeKeys := (prepared.claimProbes.map probeKey).dedup
  let extra := observed.keys.filter fun key => key ∉ probeKeys
  let missing := probeKeys.filter fun key => key ∉ observed.keys
  if extra ≠ [] then .error (.unexpected (sortClaimKeys extra))
  else if missing ≠ [] then .error (.missing (sortClaimKeys missing))
  else
    -- every probe has an observation by now
    let ordered := prepared.claimProbes.filterMap fun probe => observed.get? (probeKey probe)
    match validatePairs (prepared.claimProbes.zip ordered) with
    | .error error => .error error
    | .ok () => finalPlan sha256Hex prepared ordered

/-- `finalize_judgment_commit`. -/
def finalizeJudgmentCommit (prepared : PreparedJudgmentCommit rt)
    (claimObservations : List (RawObservation rt.tables)) :
    Except FinalizeError (JudgmentCommitPlan rt) :=
  match observe claimObservations with
  | .error error => .error error
  | .ok observed => settleObservations sha256Hex prepared observed

end

/-! ## Every record can be written -/

theorem isPlain_dump {members : List (String × Value)} (h : ∀ m ∈ members, m.2.IsPlain) :
    (dump members).IsPlain := by
  refine Json.membersPlain_iff.mpr fun m hm => ?_
  obtain ⟨member, hmember, rfl⟩ := List.mem_map.mp hm
  exact ⟨⟨_, rfl⟩, h member hmember⟩

theorem isPlain_array {α : Type} {value : α → Value} (h : ∀ a, (value a).IsPlain) (items : List α) :
    (Value.array (items.map value)).IsPlain := by
  refine Json.itemsPlain_iff.mpr fun v hv => ?_
  obtain ⟨a, -, rfl⟩ := List.mem_map.mp hv
  exact h a

theorem isPlain_textValue (text : Text) : (textValue text).IsPlain := ⟨text, rfl⟩

theorem isPlain_natValue (n : Nat) : (natValue n).IsPlain := trivial

theorem isPlain_optionValue {α : Type} {value : α → Value} (h : ∀ a, (value a).IsPlain)
    (o : Option α) : (optionValue value o).IsPlain := by
  cases o with
  | none => trivial
  | some a => exact h a

theorem ClaimProbe.isPlain {tables : UnicodeTables} (probe : ClaimProbe tables) :
    probe.dump.IsPlain := by
  cases probe <;> refine isPlain_dump ?_ <;>
    simp [isPlain_textValue, isPlain_natValue]

theorem ClaimObservation.isPlain {tables : UnicodeTables} (observation : ClaimObservation tables) :
    observation.dump.IsPlain := by
  cases observation <;> refine isPlain_dump ?_ <;>
    simp [isPlain_textValue, isPlain_natValue]

theorem ClaimIntent.isPlain (intent : ClaimIntent) : intent.dump.IsPlain := by
  refine isPlain_dump ?_
  simp [isPlain_textValue, isPlain_natValue, isPlain_optionValue]

theorem ApprovalAttestation.isPlain (attestation : ApprovalAttestation) :
    attestation.dump.IsPlain := by
  cases attestation <;> refine isPlain_dump ?_ <;> simp [isPlain_textValue]

theorem isPlain_provenanceValue (p : ApprovalProvenance) : (provenanceValue p).IsPlain := by
  refine isPlain_dump ?_
  simp [isPlain_textValue, isPlain_optionValue]

theorem canonicalJudgmentPayloadBytes_isSome {payload : Value} (h : payload.IsPlain) :
    ∃ bytes, canonicalJudgmentPayloadBytes payload = some bytes := by
  obtain ⟨text, htext⟩ := Json.print_isText _ (Json.sortKeys_isPlain _ h)
  exact ⟨utf8 text, by rw [canonicalJudgmentPayloadBytes, htext, Json.toText?_ofText]; rfl⟩

section

variable {rt : Runtime E} {sha256Hex : List UInt8 → Text}

theorem isPlain_artifactDescriptor (artifact : PlannedArtifact) :
    (artifactDescriptor sha256Hex artifact).IsPlain := by
  refine isPlain_dump ?_
  simp [isPlain_textValue, isPlain_natValue]

variable (sha256Hex) in
theorem artifactInventory_isSome (artifacts : List PlannedArtifact) :
    ∃ inventory, artifactInventory sha256Hex artifacts = some inventory ∧ inventory.IsPlain := by
  have hinventory : (dump
      [("artifacts", .array (artifacts.map (artifactDescriptor sha256Hex))),
        ("schema", textValue "nauro.artifact_inventory.v1".toList)]).IsPlain := by
    refine isPlain_dump ?_
    simp [isPlain_textValue, isPlain_array isPlain_artifactDescriptor]
  obtain ⟨bytes, hbytes⟩ := canonicalJudgmentPayloadBytes_isSome hinventory
  refine ⟨_, by rw [artifactInventory, hbytes]; rfl, isPlain_dump ?_⟩
  simp [isPlain_textValue, isPlain_natValue]

variable (sha256Hex) in
/-- The record of a plan can always be written. -/
theorem buildPlanRecord_isSome (prepared : PreparedJudgmentCommit rt)
    (observations : List (ClaimObservation rt.tables)) :
    ∃ bytes, buildPlanRecord sha256Hex prepared observations = some bytes := by
  obtain ⟨inventory, hinventory, hplain⟩ :=
    artifactInventory_isSome sha256Hex prepared.plannedArtifacts
  have hrecord : (planRecord sha256Hex prepared observations inventory).IsPlain := by
    have hclaims : (dump
        [("entry", .array (prepared.claimIntents.entry.map ClaimIntent.dump)),
          ("observations", .array (observations.map ClaimObservation.dump)),
          ("probes", .array (prepared.claimProbes.map ClaimProbe.dump)),
          ("publication",
            .array (prepared.claimIntents.publication.map ClaimIntent.dump))]).IsPlain := by
      refine isPlain_dump ?_
      simp [isPlain_array ClaimIntent.isPlain, isPlain_array ClaimObservation.isPlain,
        isPlain_array ClaimProbe.isPlain]
    have hbase : prepared.base.dump.IsPlain := by
      refine isPlain_dump ?_
      simp [isPlain_textValue, isPlain_natValue]
    have hprimary : prepared.primaryDecision.dump.IsPlain := by
      refine isPlain_dump ?_
      simp [isPlain_textValue]
    have hsnapshot : (dump
        [("length", natValue prepared.snapshot.length),
          ("sha256", textValue (sha256Hex prepared.snapshot))]).IsPlain := by
      refine isPlain_dump ?_
      simp [isPlain_textValue, isPlain_natValue]
    refine isPlain_dump ?_
    simp [isPlain_textValue, isPlain_natValue, isPlain_optionValue, isPlain_provenanceValue,
      hclaims, hbase, hprimary, hsnapshot, hplain, prepared.approvalAttestation.isPlain,
      prepared.committedResult.2]
  obtain ⟨bytes, hbytes⟩ := canonicalJudgmentPayloadBytes_isSome hrecord
  refine ⟨bytes, ?_⟩
  rw [buildPlanRecord, hinventory, Option.bind_eq_bind, Option.bind_some]
  exact hbytes

/-! ## The pairs -/

theorem validatePairs_ok_iff {tables : UnicodeTables}
    {pairs : List (ClaimProbe tables × ClaimObservation tables)} :
    validatePairs pairs = .ok () ↔
      ∀ pair ∈ pairs, validateObservation pair.1 pair.2 = .ok () := by
  induction pairs with
  | nil => exact ⟨fun _ => List.forall_mem_nil _, fun _ => rfl⟩
  | cons pair pairs ih =>
      obtain ⟨probe, observation⟩ := pair
      rw [validatePairs, List.forall_mem_cons]
      cases hvalid : validateObservation probe observation with
      | error error => simp
      | ok value => simpa using ih

/-- Pairs with the same keys that pass the check are answers. -/
theorem forall₂_compatible_iff {tables : UnicodeTables} {probes : List (ClaimProbe tables)}
    {answers : List (ClaimObservation tables)} :
    List.Forall₂ Compatible probes answers ↔
      answers.map observationKey = probes.map probeKey ∧
        validatePairs (probes.zip answers) = .ok () := by
  rw [validatePairs_ok_iff]
  constructor
  · intro h
    induction h with
    | nil => exact ⟨rfl, List.forall_mem_nil _⟩
    | cons hpair _ ih =>
        obtain ⟨hkey, hvalid⟩ := compatible_iff.mp hpair
        refine ⟨by rw [List.map_cons, List.map_cons, hkey, ih.1], ?_⟩
        rw [List.zip_cons_cons, List.forall_mem_cons]
        exact ⟨hvalid, ih.2⟩
  · rintro ⟨hkeys, hvalid⟩
    induction probes generalizing answers with
    | nil =>
        rw [List.map_nil, List.map_eq_nil_iff] at hkeys
        rw [hkeys]
        exact .nil
    | cons probe probes ih =>
        cases answers with
        | nil => cases hkeys
        | cons answer answers =>
            rw [List.map_cons, List.map_cons, List.cons.injEq] at hkeys
            rw [List.zip_cons_cons, List.forall_mem_cons] at hvalid
            exact .cons (compatible_iff.mpr ⟨hkeys.1, hvalid.1⟩) (ih hkeys.2 hvalid.2)

theorem compatible_unique {tables : UnicodeTables} {probe : ClaimProbe tables}
    {observation other : ClaimObservation tables} (h : Compatible probe observation)
    (h' : Compatible probe other) : other = observation := by
  cases h <;> cases h' <;> rfl

/-- The answers to a contract are determined by it. -/
theorem answers_unique {tables : UnicodeTables} {probes : List (ClaimProbe tables)}
    {answers others : List (ClaimObservation tables)}
    (h : List.Forall₂ Compatible probes answers) (h' : List.Forall₂ Compatible probes others) :
    others = answers := by
  induction h generalizing others with
  | nil =>
      cases h'
      rfl
  | cons hpair _ ih =>
      cases h' with
      | cons hother hrest => rw [compatible_unique hpair hother, ih hrest]

variable (sha256Hex) in
/-- A plan over answers verifies. -/
theorem finalPlan_ok {prepared : PreparedJudgmentCommit rt}
    {answers : List (ClaimObservation rt.tables)}
    (h : List.Forall₂ Compatible prepared.claimProbes answers) :
    ∃ plan, finalPlan sha256Hex prepared answers = .ok plan ∧
      plan.validatedClaimObservations = answers ∧
      buildPlanRecord sha256Hex prepared answers = some plan.planRecordBytes := by
  obtain ⟨hkeys, hvalid⟩ := forall₂_compatible_iff.mp h
  obtain ⟨bytes, hbytes⟩ := buildPlanRecord_isSome sha256Hex prepared answers
  have hall : ((prepared.claimProbes.zip answers).all fun pair =>
      (validateObservation pair.1 pair.2).toOption.isSome) = true := by
    refine List.all_eq_true.mpr fun pair hpair => ?_
    rw [validatePairs_ok_iff.mp hvalid pair hpair]
    rfl
  rw [finalPlan, hbytes]
  refine ⟨_, if_pos ?_, rfl, rfl⟩
  simp only [JudgmentCommitPlan.verified, hkeys, hall, hbytes, decide_true, Bool.and_true]

/-! ## Collecting the observations -/

/-- Observations with distinct keys are collected in their order. -/
theorem collectObservations_of_nodup {tables : UnicodeTables} {observed : Observed tables}
    {parsed : List (ClaimObservation tables)}
    (h : (observed.keys ++ parsed.map observationKey).Nodup) :
    ∃ collected, collectObservations observed parsed = .ok collected ∧
      collected.entries =
        observed.entries ++ parsed.map fun observation => (observationKey observation, observation) := by
  induction parsed generalizing observed with
  | nil => exact ⟨observed, rfl, (List.append_nil _).symm⟩
  | cons observation parsed ih =>
      have hnot : observationKey observation ∉ observed.keys := fun hin =>
        (List.nodup_append.mp h).2.2 _ hin _ (List.mem_cons_self ..) rfl
      have hkeys := Table.keys_put_of_notMem hnot observation
      have hnext : ((observed.put (observationKey observation) observation).keys ++
          parsed.map observationKey).Nodup := by
        rw [hkeys, List.append_assoc]
        exact h
      obtain ⟨collected, hcollected, hentries⟩ := ih hnext
      refine ⟨collected, ?_, ?_⟩
      · rw [collectObservations, if_neg hnot]
        exact hcollected
      · rw [hentries, Table.put_of_notMem hnot, List.append_assoc]
        rfl

/-- Otherwise some key that is found twice is named. -/
theorem collectObservations_of_not_nodup {tables : UnicodeTables} {observed : Observed tables}
    {parsed : List (ClaimObservation tables)}
    (h : ¬ (observed.keys ++ parsed.map observationKey).Nodup) :
    ∃ key, collectObservations observed parsed = .error (.duplicate key) ∧
      2 ≤ (observed.keys ++ parsed.map observationKey).count key := by
  induction parsed generalizing observed with
  | nil =>
      rw [List.map_nil, List.append_nil] at h
      exact absurd observed.distinct h
  | cons observation parsed ih =>
      rw [collectObservations]
      split_ifs with hin
      · refine ⟨_, rfl, ?_⟩
        have hfirst := List.count_pos_iff.mpr hin
        rw [List.count_append, List.map_cons, List.count_cons_self]
        omega
      · have hkeys := Table.keys_put_of_notMem hin observation
        have hsame : (observed.put (observationKey observation) observation).keys ++
            parsed.map observationKey =
              observed.keys ++ (observation :: parsed).map observationKey := by
          rw [hkeys, List.append_assoc]
          rfl
        obtain ⟨key, herror, hcount⟩ := ih (hsame ▸ h)
        exact ⟨key, herror, hsame ▸ hcount⟩

/-! ## Settling -/

/-- Every observation stands under its own key. -/
def KeyedObservations {tables : UnicodeTables} (observed : Observed tables) : Prop :=
  ∀ row ∈ observed.entries, row.1 = observationKey row.2

theorem rank_injective : Function.Injective ClaimKey.rank := by
  have hchars : Function.Injective (List.map Char.toNat) :=
    List.map_injective_iff.mpr fun a b h => Char.toNat_inj.mp h
  intro a b h
  cases a with
  | content contentHash =>
      cases b with
      | content other => rw [hchars (List.cons.inj h).2]
      | title other => exact absurd (List.cons.inj h).1 (by decide)
  | title title =>
      cases b with
      | content other => exact absurd (List.cons.inj h).1 (by decide)
      | title other => rw [hchars (List.cons.inj h).2]

/-- The order of the keys before they are sorted does not matter. -/
theorem sortClaimKeys_perm {keys keys' : List ClaimKey} (h : keys.Perm keys') :
    sortClaimKeys keys = sortClaimKeys keys' := by
  have hanti : ∀ a b, a ∈ sortClaimKeys keys → b ∈ sortClaimKeys keys' →
      a.rank ≤ b.rank → b.rank ≤ a.rank → a = b :=
    fun a b _ _ hab hba => rank_injective (le_antisymm hab hba)
  have hsorted : ∀ keys : List ClaimKey, (sortClaimKeys keys).Pairwise fun a b =>
      a.rank ≤ b.rank :=
    fun keys => List.pairwise_insertionSort (fun a b : ClaimKey => a.rank ≤ b.rank) keys
  exact (((List.perm_insertionSort _ _).trans h).trans
    (List.perm_insertionSort _ _).symm).eq_of_pairwise hanti (hsorted keys) (hsorted keys')

/-- A settlement does not depend on the order of the rows. -/
theorem settleObservations_perm (prepared : PreparedJudgmentCommit rt)
    {observed observed' : Observed rt.tables} (h : observed.entries.Perm observed'.entries) :
    settleObservations sha256Hex prepared observed =
      settleObservations sha256Hex prepared observed' := by
  have hget : ∀ key, observed.get? key = observed'.get? key := Table.get?_eq_of_perm h
  have hkeys : observed.keys.Perm observed'.keys := h.map Prod.fst
  have hextra := hkeys.filter fun key => key ∉ (prepared.claimProbes.map probeKey).dedup
  have hnil : ∀ {keys keys' : List ClaimKey}, keys.Perm keys' → (keys ≠ [] ↔ keys' ≠ []) :=
    fun hperm => not_congr ⟨fun hn => (hn ▸ hperm.symm).eq_nil, fun hn => (hn ▸ hperm).eq_nil⟩
  have hmissing : ((prepared.claimProbes.map probeKey).dedup.filter fun key =>
      key ∉ observed.keys) = (prepared.claimProbes.map probeKey).dedup.filter fun key =>
        key ∉ observed'.keys :=
    List.filter_congr fun key _ => by rw [decide_eq_decide, hkeys.mem_iff]
  unfold settleObservations
  simp only [hget, hmissing, hnil hextra, sortClaimKeys_perm hextra]

theorem observationKey_of_get? {tables : UnicodeTables} {observed : Observed tables}
    (hkeyed : KeyedObservations observed) {key : ClaimKey} {observation : ClaimObservation tables}
    (h : observed.get? key = some observation) : observationKey observation = key :=
  (hkeyed (key, observation) (Table.mem_entries_iff.mpr h)).symm

/-- What is found for the probes has their keys. -/
theorem filterMap_get?_keys {tables : UnicodeTables} {observed : Observed tables}
    (hkeyed : KeyedObservations observed) {probes : List (ClaimProbe tables)}
    (hall : ∀ probe ∈ probes, ∃ observation, observed.get? (probeKey probe) = some observation) :
    (probes.filterMap fun probe => observed.get? (probeKey probe)).map observationKey =
      probes.map probeKey := by
  induction probes with
  | nil => rfl
  | cons probe probes ih =>
      rw [List.forall_mem_cons] at hall
      obtain ⟨observation, hget⟩ := hall.1
      rw [List.filterMap_cons, hget, List.map_cons, List.map_cons, ih hall.2,
        observationKey_of_get? hkeyed hget]

/-- Every probe that is answered is found under its key. -/
theorem filterMap_get?_of_answers {tables : UnicodeTables} {observed : Observed tables}
    (hkeyed : KeyedObservations observed) {probes : List (ClaimProbe tables)}
    {answers : List (ClaimObservation tables)} (h : List.Forall₂ Compatible probes answers)
    (hin : ∀ answer ∈ answers, answer ∈ observed.entries.map Prod.snd) :
    probes.filterMap (fun probe => observed.get? (probeKey probe)) = answers := by
  induction h with
  | nil => rfl
  | @cons probe answer probes answers hpair _ ih =>
      rw [List.forall_mem_cons] at hin
      obtain ⟨row, hrow, hanswer⟩ := List.mem_map.mp hin.1
      have hget : observed.get? (probeKey probe) = some answer := by
        rw [← (compatible_iff.mp hpair).1]
        refine Table.mem_entries_iff.mp ?_
        have hkey := hkeyed row hrow
        rw [hanswer] at hkey
        rw [← hkey, ← hanswer]
        exact hrow
      rw [List.filterMap_cons, hget, ih hin.2]

/-- A settlement reaches a plan exactly when the observations answer the probes one by one. -/
theorem settleObservations_ok_iff {prepared : PreparedJudgmentCommit rt}
    {observed : Observed rt.tables} (hkeyed : KeyedObservations observed)
    {plan : JudgmentCommitPlan rt} :
    settleObservations sha256Hex prepared observed = .ok plan ↔
      ∃ answers, List.Forall₂ Compatible prepared.claimProbes answers ∧
        answers.Perm (observed.entries.map Prod.snd) ∧
        finalPlan sha256Hex prepared answers = .ok plan := by
  have hprobes : (prepared.claimProbes.map probeKey).Nodup := buildClaimContract_keys prepared.contract
  have hvalues : (observed.entries.map Prod.snd).map observationKey = observed.keys := by
    rw [List.map_map, Table.keys]
    exact List.map_congr_left fun row hrow => (hkeyed row hrow).symm
  constructor
  · intro h
    unfold settleObservations at h
    simp only at h
    split_ifs at h with hextra hmissing
    rw [not_not] at hextra hmissing
    have hall : ∀ probe ∈ prepared.claimProbes, ∃ observation,
        observed.get? (probeKey probe) = some observation := by
      intro probe hprobe
      have hin : probeKey probe ∈ observed.keys := by
        by_contra hnot
        have hmem : probeKey probe ∈ (prepared.claimProbes.map probeKey).dedup.filter
            fun key => key ∉ observed.keys :=
          List.mem_filter.mpr ⟨List.mem_dedup.mpr (List.mem_map_of_mem hprobe), by simpa using hnot⟩
        rw [hmissing] at hmem
        cases hmem
      exact Option.isSome_iff_exists.mp (Table.mem_keys_iff.mp hin)
    set ordered := prepared.claimProbes.filterMap fun probe => observed.get? (probeKey probe)
      with hordered
    have hkeys : ordered.map observationKey = prepared.claimProbes.map probeKey :=
      filterMap_get?_keys hkeyed hall
    cases hvalid : validatePairs (prepared.claimProbes.zip ordered) with
    | error error =>
        rw [hvalid] at h
        cases h
    | ok value =>
        rw [hvalid] at h
        refine ⟨ordered, forall₂_compatible_iff.mpr ⟨hkeys, hvalid⟩, ?_, h⟩
        have hnodup : ordered.Nodup := (hkeys ▸ hprobes).of_map
        have hnodup' : (observed.entries.map Prod.snd).Nodup :=
          (hvalues ▸ observed.distinct : ((observed.entries.map Prod.snd).map observationKey).Nodup)
            |>.of_map
        refine (List.perm_ext_iff_of_nodup hnodup hnodup').mpr fun observation => ?_
        rw [hordered, List.mem_filterMap, List.mem_map]
        constructor
        · rintro ⟨probe, -, hget⟩
          exact ⟨(probeKey probe, observation), Table.mem_entries_iff.mpr hget, rfl⟩
        · rintro ⟨row, hrow, rfl⟩
          have hin : row.1 ∈ prepared.claimProbes.map probeKey := by
            by_contra hnot
            have hmem : row.1 ∈ observed.keys.filter
                fun key => key ∉ (prepared.claimProbes.map probeKey).dedup :=
              List.mem_filter.mpr ⟨List.mem_map_of_mem hrow, by simpa using hnot⟩
            rw [hextra] at hmem
            cases hmem
          obtain ⟨probe, hprobe, hkey⟩ := List.mem_map.mp hin
          exact ⟨probe, hprobe, hkey ▸ Table.mem_entries_iff.mp hrow⟩
  · rintro ⟨answers, hanswers, hperm, hplan⟩
    obtain ⟨hkeys, hvalid⟩ := forall₂_compatible_iff.mp hanswers
    have hsame : observed.keys.Perm (prepared.claimProbes.map probeKey) := by
      rw [← hvalues, ← hkeys]
      exact (hperm.map observationKey).symm
    have hordered := filterMap_get?_of_answers hkeyed hanswers fun answer hin => hperm.subset hin
    have hextra : (observed.keys.filter fun key =>
        key ∉ (prepared.claimProbes.map probeKey).dedup) = [] := by
      refine List.filter_eq_nil_iff.mpr fun key hin => ?_
      simpa using hsame.subset hin
    have hmissing : ((prepared.claimProbes.map probeKey).dedup.filter fun key =>
        key ∉ observed.keys) = [] := by
      refine List.filter_eq_nil_iff.mpr fun key hin => ?_
      simpa using hsame.symm.subset (List.mem_dedup.mp hin)
    unfold settleObservations
    simp only [hextra, hmissing, hordered, hvalid, ne_eq, not_true_eq_false, if_false]
    exact hplan

/-! ## The order of the observations -/

/-- The observations are well formed, and they are one compatible observation for each probe. -/
def AnsweredExactly {tables : UnicodeTables} (probes : List (ClaimProbe tables))
    (claimObservations : List (RawObservation tables)) : Prop :=
  ∃ parsed answers, claimObservations.mapM RawObservation.parse = some parsed ∧
    answers.Perm parsed ∧ List.Forall₂ Compatible probes answers

/-- Two observations are of one claim. -/
def ObservedTwice {tables : UnicodeTables} (claimObservations : List (RawObservation tables))
    (key : ClaimKey) : Prop :=
  2 ≤ ((claimObservations.filterMap RawObservation.parse).map observationKey).count key

theorem mapM_eq_ite {α β : Type} (f : α → Option β) (xs : List α) :
    xs.mapM f = if xs.all (fun x => (f x).isSome) = true then some (xs.filterMap f) else none := by
  induction xs with
  | nil => rfl
  | cons x xs ih =>
      rw [List.mapM_cons, ih, List.all_cons, List.filterMap_cons]
      cases f x with
      | none => rfl
      | some y =>
          rw [Option.isSome_some, Bool.true_and, Option.bind_eq_bind, Option.bind_some]
          split_ifs <;> rfl

theorem filterMap_of_mapM {α β : Type} {f : α → Option β} {xs : List α} {ys : List β}
    (h : xs.mapM f = some ys) : xs.filterMap f = ys := by
  rw [mapM_eq_ite] at h
  split_ifs at h
  exact Option.some.inj h

theorem mapM_perm {α β : Type} {f : α → Option β} {xs xs' : List α} (h : xs'.Perm xs) :
    (xs'.mapM f = none ∧ xs.mapM f = none) ∨
      ∃ ys ys', xs'.mapM f = some ys' ∧ xs.mapM f = some ys ∧ ys'.Perm ys := by
  have hall : xs'.all (fun x => (f x).isSome) = xs.all fun x => (f x).isSome := by
    rw [Bool.eq_iff_iff, List.all_eq_true, List.all_eq_true]
    exact ⟨fun hx x hin => hx x (h.mem_iff.mpr hin), fun hx x hin => hx x (h.mem_iff.mp hin)⟩
  rw [mapM_eq_ite, mapM_eq_ite, hall]
  split_ifs
  · exact Or.inr ⟨_, _, rfl, rfl, h.filterMap f⟩
  · exact Or.inl ⟨rfl, rfl⟩

/-- What is observed of well formed observations. -/
theorem observe_of_parsed {tables : UnicodeTables}
    {claimObservations : List (RawObservation tables)} {parsed : List (ClaimObservation tables)}
    (h : claimObservations.mapM RawObservation.parse = some parsed) :
    ((parsed.map observationKey).Nodup ∧ ∃ observed, observe claimObservations = .ok observed ∧
        observed.entries = parsed.map fun observation => (observationKey observation, observation)) ∨
      (¬ (parsed.map observationKey).Nodup ∧ ∃ key,
        observe claimObservations = .error (.duplicate key) ∧
        2 ≤ (parsed.map observationKey).count key) := by
  have hobserve : observe claimObservations = collectObservations Table.empty parsed := by
    rw [observe, h]
  rw [hobserve]
  by_cases hnodup : (parsed.map observationKey).Nodup
  · exact Or.inl ⟨hnodup, collectObservations_of_nodup hnodup⟩
  · exact Or.inr ⟨hnodup, collectObservations_of_not_nodup hnodup⟩

theorem keyedObservations_of_entries {tables : UnicodeTables} {observed : Observed tables}
    {parsed : List (ClaimObservation tables)}
    (h : observed.entries = parsed.map fun observation => (observationKey observation, observation)) :
    KeyedObservations observed ∧ observed.entries.map Prod.snd = parsed := by
  constructor
  · intro row hrow
    rw [h] at hrow
    obtain ⟨observation, -, rfl⟩ := List.mem_map.mp hrow
    rfl
  · rw [h, List.map_map]
    exact List.map_id _

/-- A plan is reached exactly when the observations answer the probes one by one. -/
theorem finalizeJudgmentCommit_ok_iff {prepared : PreparedJudgmentCommit rt}
    {claimObservations : List (RawObservation rt.tables)} {plan : JudgmentCommitPlan rt} :
    finalizeJudgmentCommit sha256Hex prepared claimObservations = .ok plan ↔
      ∃ parsed answers, claimObservations.mapM RawObservation.parse = some parsed ∧
        answers.Perm parsed ∧ List.Forall₂ Compatible prepared.claimProbes answers ∧
        finalPlan sha256Hex prepared answers = .ok plan := by
  cases hparsed : claimObservations.mapM RawObservation.parse with
  | none =>
      rw [finalizeJudgmentCommit, observe, hparsed]
      simp
  | some parsed =>
      rcases observe_of_parsed hparsed with ⟨hnodup, observed, hobserve, hentries⟩ |
        ⟨hnot, key, hobserve, -⟩
      · obtain ⟨hkeyed, hvalues⟩ := keyedObservations_of_entries hentries
        have hfinal : finalizeJudgmentCommit sha256Hex prepared claimObservations =
            settleObservations sha256Hex prepared observed := by
          rw [finalizeJudgmentCommit, hobserve]
        rw [hfinal, settleObservations_ok_iff hkeyed, hvalues]
        constructor
        · rintro ⟨answers, hanswers, hperm, hplan⟩
          exact ⟨parsed, answers, rfl, hperm, hanswers, hplan⟩
        · rintro ⟨other, answers, hother, hperm, hanswers, hplan⟩
          obtain rfl := Option.some.inj hother
          exact ⟨answers, hanswers, hperm, hplan⟩
      · rw [finalizeJudgmentCommit, hobserve]
        refine ⟨fun h => (by cases h), ?_⟩
        rintro ⟨other, answers, hother, hperm, hanswers, -⟩
        obtain rfl := Option.some.inj hother
        refine absurd ((hperm.map observationKey).nodup_iff.mp ?_) hnot
        rw [(forall₂_compatible_iff.mp hanswers).1]
        exact buildClaimContract_keys prepared.contract

/-- Another order of the observations changes at most which of several duplicates is named. -/
theorem finalizeJudgmentCommit_perm {prepared : PreparedJudgmentCommit rt}
    {claimObservations claimObservations' : List (RawObservation rt.tables)}
    (h : claimObservations'.Perm claimObservations) :
    finalizeJudgmentCommit sha256Hex prepared claimObservations' =
        finalizeJudgmentCommit sha256Hex prepared claimObservations ∨
      ∃ key key', key ≠ key' ∧ ObservedTwice claimObservations key ∧
        ObservedTwice claimObservations key' ∧
        finalizeJudgmentCommit sha256Hex prepared claimObservations = .error (.duplicate key) ∧
        finalizeJudgmentCommit sha256Hex prepared claimObservations' =
          .error (.duplicate key') := by
  rcases mapM_perm (f := RawObservation.parse) h with ⟨hnone', hnone⟩ |
    ⟨parsed, parsed', hparsed', hparsed, hperm⟩
  · refine Or.inl ?_
    rw [finalizeJudgmentCommit, finalizeJudgmentCommit, observe, observe, hnone, hnone']
  · have hkeys := hperm.map observationKey
    have htwice : ∀ {key}, 2 ≤ (parsed.map observationKey).count key →
        ObservedTwice claimObservations key := fun hcount => by
      rw [ObservedTwice, filterMap_of_mapM hparsed]
      exact hcount
    rcases observe_of_parsed hparsed with ⟨hnodup, observed, hobserve, hentries⟩ |
      ⟨hnot, key, hobserve, hcount⟩
    · rcases observe_of_parsed hparsed' with ⟨-, observed', hobserve', hentries'⟩ |
        ⟨hnot', -⟩
      · have hrows : observed'.entries.Perm observed.entries := by
          rw [hentries, hentries']
          exact hperm.map _
        refine Or.inl ?_
        rw [finalizeJudgmentCommit, finalizeJudgmentCommit, hobserve, hobserve']
        exact settleObservations_perm prepared hrows
      · exact absurd (hkeys.nodup_iff.mpr hnodup) hnot'
    · rcases observe_of_parsed hparsed' with ⟨hnodup', -⟩ | ⟨-, key', hobserve', hcount'⟩
      · exact absurd (hkeys.nodup_iff.mp hnodup') hnot
      · have hfirst : finalizeJudgmentCommit sha256Hex prepared claimObservations =
            .error (.duplicate key) := by
          rw [finalizeJudgmentCommit, hobserve]
        have hsecond : finalizeJudgmentCommit sha256Hex prepared claimObservations' =
            .error (.duplicate key') := by
          rw [finalizeJudgmentCommit, hobserve']
        by_cases hsame : key = key'
        · exact Or.inl (by rw [hfirst, hsecond, hsame])
        · rw [hkeys.count_eq] at hcount'
          exact Or.inr ⟨key, key', hsame, htwice hcount, htwice hcount', hfirst, hsecond⟩

/-- **A finalization is exact, and the order of its observations changes no plan.** It accepts
exactly when the observations are one compatible observation for each probe; all accepted lists
give one plan with the same record; and another order gives the same result, except that of
several claims observed twice the refusal names the one it finds first. -/
theorem finalize_exact (sha256Hex : List UInt8 → Text) (prepared : PreparedJudgmentCommit rt)
    (claimObservations claimObservations' : List (RawObservation rt.tables)) :
    ((∃ plan, finalizeJudgmentCommit sha256Hex prepared claimObservations = .ok plan) ↔
        AnsweredExactly prepared.claimProbes claimObservations) ∧
      (∀ plan plan', finalizeJudgmentCommit sha256Hex prepared claimObservations = .ok plan →
        finalizeJudgmentCommit sha256Hex prepared claimObservations' = .ok plan' →
          plan' = plan ∧ buildPlanRecord sha256Hex prepared plan.validatedClaimObservations =
            some plan.planRecordBytes) ∧
      (claimObservations'.Perm claimObservations →
        finalizeJudgmentCommit sha256Hex prepared claimObservations' =
            finalizeJudgmentCommit sha256Hex prepared claimObservations ∨
          ∃ key key', key ≠ key' ∧ ObservedTwice claimObservations key ∧
            ObservedTwice claimObservations key' ∧
            finalizeJudgmentCommit sha256Hex prepared claimObservations = .error (.duplicate key) ∧
            finalizeJudgmentCommit sha256Hex prepared claimObservations' =
              .error (.duplicate key')) := by
  refine ⟨⟨?_, ?_⟩, ?_, finalizeJudgmentCommit_perm⟩
  · rintro ⟨plan, hplan⟩
    obtain ⟨parsed, answers, hparsed, hperm, hanswers, -⟩ := finalizeJudgmentCommit_ok_iff.mp hplan
    exact ⟨parsed, answers, hparsed, hperm, hanswers⟩
  · rintro ⟨parsed, answers, hparsed, hperm, hanswers⟩
    obtain ⟨plan, hplan, -⟩ := finalPlan_ok sha256Hex hanswers
    exact ⟨plan, finalizeJudgmentCommit_ok_iff.mpr ⟨parsed, answers, hparsed, hperm, hanswers, hplan⟩⟩
  · intro plan plan' hplan hplan'
    obtain ⟨-, answers, -, -, hanswers, hfinal⟩ := finalizeJudgmentCommit_ok_iff.mp hplan
    obtain ⟨-, answers', -, -, hanswers', hfinal'⟩ := finalizeJudgmentCommit_ok_iff.mp hplan'
    obtain rfl := answers_unique hanswers hanswers'
    obtain rfl : plan' = plan := Except.ok.inj (hfinal'.symm.trans hfinal)
    obtain ⟨final, hfinal', hobservations, hrecord⟩ := finalPlan_ok sha256Hex hanswers
    obtain rfl : final = plan' := Except.ok.inj (hfinal'.symm.trans hfinal)
    exact ⟨rfl, hobservations ▸ hrecord⟩

end

/-! ## Two claims observed twice -/

def sampleRuntime : Runtime Empty :=
  { Runtime.plain ⟨2026, 1, 1, rfl⟩ with digest := fun _ => List.replicate 64 '0' }

def sampleTitle : NormalizedTitle sampleRuntime.tables := ⟨"a".toList, by decide⟩

def sampleHash : Sha256 := ⟨List.replicate 64 '0', by decide⟩

def samplePayload : ApprovedPayload :=
  .preTeam ⟨"01ARZ3NDEKTSV4RRFFQ69G5FAV".toList, 0, by decide⟩
    { operation := .add
      affectedDecisionId := none
      title := some "a".toList
      rationale := "b".toList
      rejected := []
      confidence := some .high
      decisionType := none
      reversibility := none
      filesAffected := []
      resolvesQuestions := []
      valid :=
        { rationale := by decide
          questions := List.nodup_nil
          files := List.forall_mem_nil _
          untargeted := fun _ => rfl
          targeted := fun h => absurd rfl h
          title := fun _ title htitle => by
            obtain rfl := Option.some.inj htitle
            decide
          confidence := fun _ => Option.some_ne_none _ } }

theorem sampleExtra_unknown :
    ∀ key ∈ ([] : List (Text × YamlValue Empty)).map Prod.fst, key ∉ fieldNames :=
  fun _ h => absurd h List.not_mem_nil

def sampleDecision : Decision Empty where
  date := ⟨2026, 1, 1, rfl⟩
  confidence := .high
  version := 1
  status := .active
  decisionType := none
  reversibility := none
  source := none
  filesAffected := []
  supersedes := none
  supersededBy := none
  proposedBy := none
  approvedBy := none
  approvedAt := none
  proposalId := none
  proposedBaseCommit := none
  rejected := []
  num := 1
  title := "a".toList
  rationale := "b".toList
  body := []
  content := []
  extra := ⟨[], List.nodup_nil, sampleExtra_unknown⟩

def sampleOwner : DecisionNumber := ⟨1, by decide⟩

/-- An add of one decision: its title is to be free, and its content new. -/
def samplePrepared : PreparedJudgmentCommit sampleRuntime where
  payload := samplePayload
  payloadDigest := []
  approvalAttestation :=
    .preTeam ⟨"01ARZ3NDEKTSV4RRFFQ69G5FAV".toList, "op".toList, "2026-01-01T00:00:00.000000Z".toList,
      by decide, by decide, by decide⟩
  base := ⟨"01ARZ3NDEKTSV4RRFFQ69G5FAV".toList, 0, sampleHash⟩
  decisionProvenance := none
  newDecisionCounter := 1
  plannedArtifacts := []
  snapshot := []
  primaryDecision := ⟨"001-a".toList, "decisions/001-a.md".toList, sampleHash⟩
  claimProbes := [.absentTitle sampleTitle, .absentContent sampleHash]
  claimIntents :=
    { entry := [ownerIntent .acquireNewTitle sampleTitle sampleOwner,
        contentIntent .acquireNewContentHash sampleHash]
      publication := [ownerIntent .commitTitleOwner sampleTitle sampleOwner,
        contentIntent .commitContentHash sampleHash] }
  committedResult := ⟨.null, trivial⟩
  target := none
  primary := sampleDecision
  contract := rfl

def titleTwice : List (RawObservation sampleRuntime.tables) :=
  [.model (.absentTitle sampleTitle), .model (.absentTitle sampleTitle)]

def contentTwice : List (RawObservation sampleRuntime.tables) :=
  [.model (.absentContent sampleHash), .model (.absentContent sampleHash)]

/-- Both claims of an add are observed twice, and each order names another one. -/
theorem order_of_duplicates_shows :
    ∃ claimObservations claimObservations' : List (RawObservation sampleRuntime.tables),
      claimObservations'.Perm claimObservations ∧
        finalizeJudgmentCommit (fun _ => []) samplePrepared claimObservations' ≠
          finalizeJudgmentCommit (fun _ => []) samplePrepared claimObservations := by
  have htitle : finalizeJudgmentCommit (fun _ => []) samplePrepared (titleTwice ++ contentTwice) =
      .error (.duplicate (.title sampleTitle)) := rfl
  have hcontent : finalizeJudgmentCommit (fun _ => []) samplePrepared
      (contentTwice ++ titleTwice) = .error (.duplicate (.content sampleHash)) := rfl
  refine ⟨titleTwice ++ contentTwice, contentTwice ++ titleTwice, List.perm_append_comm, ?_⟩
  rw [htitle, hcontent]
  exact fun h => by cases h

end Core
end Nauro
