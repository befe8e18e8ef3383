import Nauro.Core.CommittedTexts
import Nauro.Core.JudgmentFinalize
import Nauro.Core.ProtectedMembership
import Nauro.Core.SupersedeHalves

/-!
# Hosted commits

A commit is prepared over a committed generation, reread, finalized and published; its planned
artifacts become the next generation.

* `CommitParts.frame` — unnamed artifacts stay as they were.
-/

namespace Nauro
namespace Core

open Foundation

variable {E : Type}

/-! ## One commit -/

/-- The contract that `_cross_validate` builds again from the planned artifacts. -/
def rereadContract (rt : Runtime E) (c : JudgmentContent) (plan : PlannedCommit E) :
    Option (List (ClaimProbe rt.tables) × ClaimIntents) := do
  let path := decisionPath plan.primaryStem
  let primary ← (plan.artifacts.get? path).bind (readDecision? rt path)
  match c.affectedDecisionId with
  | none => buildClaimContract rt c.operation none primary
  | some id =>
      let target ← (plan.artifacts.get? (decisionPath id)).bind (readDecision? rt (decisionPath id))
      buildClaimContract rt c.operation (some target) primary

/-- The artifacts of a plan, as the next generation holds them. -/
def PlannedCommit.committed (plan : PlannedCommit E) : List CommittedArtifact :=
  plan.artifacts.entries.map fun entry => ⟨entry.1, some entry.2⟩

/-- What a prepared commit takes from its plan. -/
structure PreparedFrom (rt : Runtime E) (generation : CommittedGeneration)
    (plan : PlannedCommit E) (prepared : PreparedJudgmentCommit rt) : Prop where
  target : ∃ parsed target, parseCommittedGeneration rt generation = .ok parsed ∧
    commitTarget prepared.payload.content parsed.decisions = .ok target ∧
    prepared.target = target.map ScannedDecision.decision
  primary : prepared.primary = plan.primary
  counter : prepared.newDecisionCounter = plan.newDecisionCounter
  artifacts : prepared.plannedArtifacts.Perm
    (plan.artifacts.entries.map fun entry => ⟨entry.1, EscapedUtf8.utf8 entry.2⟩)
  /-- `PlannedArtifact._path`. -/
  members : ∀ path ∈ plan.artifacts.keys, isProtectedMember path = true
  /-- `_cross_validate`. -/
  reread : rereadContract rt prepared.payload.content plan =
    some (prepared.claimProbes, prepared.claimIntents)

/-- `validate_protected_generation_path` of every path. -/
def CommittedGeneration.Members (generation : CommittedGeneration) : Prop :=
  ∀ artifact ∈ generation.artifacts, isProtectedMember artifact.path = true

/-- A successful commit, from one generation to the next. -/
structure Commit (rt : Runtime E) (sha256Hex : List UInt8 → Text)
    (claimObservations : List (RawObservation rt.tables)) (plan : PlannedCommit E)
    (prepared : PreparedJudgmentCommit rt) (before after : CommittedGeneration) : Prop where
  members : before.Members
  prepares : prepareJudgmentCommit rt prepared.payload prepared.approvalAttestation before = .ok plan
  derives : PreparedFrom rt before plan prepared
  finalizes : ∃ final, finalizeJudgmentCommit sha256Hex prepared claimObservations = .ok final
  artifacts : after.artifacts.Perm plan.committed
  counter : after.decisionCounter = prepared.newDecisionCounter

/-- A generation that a commit can start from. -/
def Accepted (rt : Runtime E) (generation : CommittedGeneration) : Prop :=
  generation.Members ∧ ∃ parsed, parseCommittedGeneration rt generation = .ok parsed

/-! ## What an operation writes -/

/-- The texts that an operation plans over the current ones. -/
inductive PlanWrites (rt : Runtime E) (c : JudgmentContent) (counter : Nat)
    (current : Table Text Text) : Option (ScannedDecision E) → PlannedDecisions E → Prop where
  | update {target : ScannedDecision E} {primary : Decision E} {text : Text}
      (hoperation : c.operation = .update) (hstatus : primary.status = target.decision.status)
      (htext : formatDecision rt.yaml primary = some text) :
      PlanWrites rt c counter current (some target)
        ⟨current.put (decisionPath target.stem) text, primary, target.stem, [target.stem]⟩
  | add {primary : Decision E} {stem text slug : Text} (hoperation : c.operation = .add)
      (hstem : stem = decisionNumberPrefix (counter + 1) ++ slug)
      (hstatus : primary.status = .active) (hnum : primary.num = counter + 1)
      (htext : formatDecision rt.yaml primary = some text) :
      PlanWrites rt c counter current none
        ⟨current.put (decisionPath stem) text, primary, stem, [stem]⟩
  | supersede {target : ScannedDecision E} {primary : Decision E} {stem text oldText slug : Text}
      (hoperation : c.operation = .supersede)
      (hstem : stem = decisionNumberPrefix (counter + 1) ++ slug)
      (hstatus : primary.status = .active) (hnum : primary.num = counter + 1)
      (htext : formatDecision rt.yaml primary = some text)
      (hold : formatDecision rt.yaml (markSuperseded target.decision (counter + 1)) =
        some oldText) :
      PlanWrites rt c counter current (some target)
        ⟨(current.put (decisionPath stem) text).put (decisionPath target.stem) oldText, primary,
          stem, [stem, target.stem]⟩

/-- What a new decision of a payload starts with. -/
theorem JudgmentContent.newDecision_fields {c : JudgmentContent}
    {provenance : Option ApprovalProvenance} {decisionDate : Date} {number : Nat} {d : Decision E}
    (h : c.newDecision provenance decisionDate number = some d) :
    d.status = .active ∧ d.num = number := by
  simp only [JudgmentContent.newDecision, Option.bind_eq_bind, Option.bind_eq_some_iff] at h
  obtain ⟨title, -, confidence, -, rejected, -, hbuilt⟩ := h
  unfold buildNewDecision at hbuilt
  cases hvalid : (NewDecision.decision _ provenance ExtraFields.none : Decision E).validate with
  | error error =>
      rw [hvalid] at hbuilt
      cases hbuilt
  | ok found =>
      rw [hvalid] at hbuilt
      cases hbuilt
      obtain ⟨rfl, -⟩ := Decision.validate_eq_ok_iff.mp hvalid
      cases provenance <;> exact ⟨rfl, rfl⟩

theorem appendDecisionUpdate_status (d : Decision E) (rationale : Text) (updateDate : Date)
    (provenance : Option ApprovalProvenance) :
    (appendDecisionUpdate d rationale updateDate provenance).status = d.status := by
  cases provenance <;> rfl

theorem planNew_writes {rt : Runtime E} {c : JudgmentContent}
    {provenance : Option ApprovalProvenance} {decisionDate : Date} {counter : Nat}
    {current : Table Text Text} {target : Option (ScannedDecision E)} {plan : PlannedDecisions E}
    (hoperation : c.operation = if target.isSome then .supersede else .add)
    (h : planNew rt c provenance decisionDate (counter + 1) current target = some plan) :
    PlanWrites rt c counter current target plan := by
  simp only [planNew, Option.bind_eq_bind, Option.bind_eq_some_iff] at h
  obtain ⟨built, hbuilt, h⟩ := h
  obtain ⟨hstatus, hnum⟩ := JudgmentContent.newDecision_fields hbuilt
  cases target with
  | none =>
      obtain ⟨planned, hplanned, hreturn⟩ := Option.bind_eq_some_iff.mp h
      obtain ⟨text, htext, rfl⟩ := Option.map_eq_some_iff.mp hplanned
      cases hreturn
      exact .add hoperation rfl hstatus hnum htext
  | some old =>
      obtain ⟨withNew, hnew, h⟩ := Option.bind_eq_some_iff.mp h
      obtain ⟨planned, hplanned, hreturn⟩ := Option.bind_eq_some_iff.mp h
      obtain ⟨text, htext, rfl⟩ := Option.map_eq_some_iff.mp hnew
      obtain ⟨oldText, holdText, rfl⟩ := Option.map_eq_some_iff.mp hplanned
      cases hreturn
      exact .supersede hoperation rfl hstatus hnum htext holdText

theorem planDecisions_writes {rt : Runtime E} {c : JudgmentContent}
    {provenance : Option ApprovalProvenance} {decisionDate : Date} {counter : Nat}
    {current : Table Text Text} {target : Option (ScannedDecision E)} {plan : PlannedDecisions E}
    (htarget : c.operation = .add → target = none)
    (h : planDecisions rt c provenance decisionDate counter current target = some plan) :
    PlanWrites rt c counter current target plan := by
  unfold planDecisions at h
  split at h
  · next hoperation =>
      obtain ⟨old, rfl, hupdate⟩ := Option.bind_eq_some_iff.mp h
      obtain ⟨planned, hplanned, rfl⟩ := Option.map_eq_some_iff.mp hupdate
      obtain ⟨text, htext, rfl⟩ := Option.map_eq_some_iff.mp hplanned
      exact .update hoperation (appendDecisionUpdate_status ..) htext
  · next hoperation =>
      rw [htarget hoperation]
      exact planNew_writes hoperation h
  · next hoperation =>
      obtain ⟨old, rfl, hsupersede⟩ := Option.bind_eq_some_iff.mp h
      exact planNew_writes hoperation hsupersede

/-! ## Paths of decisions -/

theorem isPrefixOf_decisionPath (stem : Text) :
    decisionsPrefix.isPrefixOf (decisionPath stem) = true := by
  rw [List.isPrefixOf_iff_prefix, decisionPath, List.append_assoc]
  exact List.prefix_append _ _

theorem drop_decisionPath (stem : Text) :
    (decisionPath stem).drop decisionsPrefix.length = decisionFilename stem := by
  rw [decisionPath, List.append_assoc]
  exact List.drop_left

theorem removeMdSuffix_decisionFilename (stem : Text) :
    removeMdSuffix (decisionFilename stem) = stem := by
  rw [removeMdSuffix, decisionFilename, if_pos (List.isSuffixOf_iff_suffix.mpr
    (List.suffix_append _ _))]
  simp

/-- A protected path of `decisions/` is the path of its stem. -/
theorem eq_decisionPath {path : Text} (hmember : isProtectedMember path = true)
    (hdecision : decisionsPrefix.isPrefixOf path = true) :
    path = decisionPath (removeMdSuffix (path.drop decisionsPrefix.length)) := by
  obtain ⟨rest, rfl⟩ : ∃ rest, path = decisionsPrefix ++ rest := by
    obtain ⟨rest, hrest⟩ := List.isPrefixOf_iff_prefix.mp hdecision
    exact ⟨rest, hrest.symm⟩
  simp only [isProtectedMember, Bool.and_eq_true, Bool.or_eq_true] at hmember
  obtain ⟨-, (htop | hin) | hcontext⟩ := hmember
  · have hplain : ∀ member ∈ topLevelMembers, member.head? ≠ some 'd' := by decide
    exact absurd rfl (hplain _ (List.contains_iff_mem.mp htop))
  · obtain ⟨name, hname, hok⟩ := (Option.any_eq_true ..).mp hin
    simp only [Bool.and_eq_true, Bool.not_eq_true', List.isEmpty_eq_false_iff] at hok
    have hpath : decisionsPrefix ++ rest = decisionPath name := eq_of_between? hname hok.1
    rw [hpath, drop_decisionPath, removeMdSuffix_decisionFilename]
  · obtain ⟨slug, hslug, hok⟩ := (Option.any_eq_true ..).mp hcontext
    have hpath := eq_of_between? hslug (slash_notMem_of_isBriefSlug hok).1
    cases hpath

/-- The number of a decision is that of its stem. -/
theorem readDecision?_num {rt : Runtime E} (htables : rt.tables.Lawful) {stem text : Text}
    {d : Decision E} (h : readDecision? rt (decisionPath stem) text = some d) :
    d.num = (extractDecisionNumber rt.tables stem).getD 0 := by
  rw [readDecision?, if_pos (isPrefixOf_decisionPath stem), drop_decisionPath] at h
  cases hparse : parseDecision rt.tables rt.yaml text (decisionFilename stem) with
  | error error =>
      rw [hparse] at h
      cases h
  | ok found =>
      rw [hparse] at h
      cases h
      rw [parseDecision_num hparse, extractDecisionNumber_decisionFilename htables]

/-- The status of a formatted decision is read back. -/
theorem readDecision?_status {rt : Runtime E} (hyaml : rt.yaml.Lawful) {path text : Text}
    {d found : Decision E} (htext : formatDecision rt.yaml d = some text)
    (h : readDecision? rt path text = some found) : found.status = d.status := by
  unfold readDecision? at h
  split_ifs at h
  cases hparse : parseDecision rt.tables rt.yaml text (path.drop decisionsPrefix.length) with
  | error error =>
      rw [hparse] at h
      cases h
  | ok read =>
      rw [hparse] at h
      cases h
      have hlawful : ({ rt with readText := id } : Runtime E).yaml.Lawful := hyaml
      exact (read_written hlawful (Or.inl rfl) htext hparse).1

/-! ## What a commit plans -/

/-- The decisions and the questions of a plan. -/
theorem buildArtifacts_writes {rt : Runtime E} {c : JudgmentContent}
    {provenance : Option ApprovalProvenance} {effectiveAt : Text} {counter : Nat}
    {current : Table Text Text} {target : Option (ScannedDecision E)} {planned : PlannedCommit E}
    (htarget : c.operation = .add → target = none)
    (h : buildArtifacts rt c provenance effectiveAt counter current target = some planned) :
    ∃ plan, PlanWrites rt c counter current target plan ∧ planned.primary = plan.primary ∧
      planned.primaryStem = plan.primaryStem ∧
      (∀ path, path ≠ openQuestionsPath ∨ c.resolvesQuestions = [] →
        planned.artifacts.get? path = plan.planned.get? path) ∧
      planned.newDecisionCounter = if c.operation = .update then counter else counter + 1 := by
  simp only [buildArtifacts, Option.bind_eq_bind, Option.bind_eq_some_iff] at h
  obtain ⟨decisionDate, -, plan, hplan, transition, -, hreturn⟩ := h
  cases hreturn
  refine ⟨plan, planDecisions_writes htarget hplan, rfl, rfl, fun path hpath => ?_, ?_⟩
  · by_cases hids : c.resolvesQuestions = []
    · simp only [if_pos hids]
    · simp only [if_neg hids]
      exact Table.get?_put_of_ne (hpath.resolve_right hids) _
  · by_cases hoperation : c.operation = .update
    · simp only [if_pos hoperation, Option.getD_none]
    · simp only [if_neg hoperation, Option.getD_some]

/-- The next generation holds the planned texts. -/
theorem text?_of_perm {plan : PlannedCommit E} {generation : CommittedGeneration}
    (h : generation.artifacts.Perm plan.committed) (path : Text) :
    generation.texts path = plan.artifacts.get? path := by
  ext text
  rw [CommittedGeneration.texts, generation.text?_eq_some_iff, h.mem_iff, PlannedCommit.committed,
    ← Table.mem_entries_iff, List.mem_map]
  constructor
  · rintro ⟨entry, hin, hentry⟩
    cases hentry
    exact hin
  · exact fun hin => ⟨_, hin, rfl⟩

/-- What the planned artifacts read back as, and the contract that they give. -/
theorem rereadContract_ok {rt : Runtime E} {c : JudgmentContent} {plan : PlannedCommit E}
    {probes : List (ClaimProbe rt.tables)} {intents : ClaimIntents}
    (h : rereadContract rt c plan = some (probes, intents)) :
    ∃ primary, HoldsDecision rt plan.artifacts.get? (decisionPath plan.primaryStem) primary ∧
      (c.affectedDecisionId = none →
        Contract rt primary c.operation none probes intents.publication) ∧
      ∀ id, c.affectedDecisionId = some id →
        ∃ target, HoldsDecision rt plan.artifacts.get? (decisionPath id) target ∧
          Contract rt primary c.operation (some target) probes intents.publication := by
  unfold rereadContract at h
  simp only [Option.bind_eq_bind, Option.bind_eq_some_iff] at h
  obtain ⟨primary, ⟨text, htext, hread⟩, h⟩ := h
  refine ⟨primary, ⟨text, htext, hread⟩, fun hnone => ?_, fun id hid => ?_⟩
  · rw [hnone] at h
    exact buildClaimContract_contract h
  · rw [hid] at h
    simp only [Option.bind_eq_some_iff] at h
    obtain ⟨target, ⟨text', htext', hread'⟩, h⟩ := h
    exact ⟨target, ⟨text', htext', hread'⟩, buildClaimContract_contract h⟩

/-- The target of an operation stands in the generation, at the path of its id. -/
theorem commitTarget_holds {rt : Runtime E} {generation : CommittedGeneration}
    {parsed : ParsedGeneration E} {c : JudgmentContent} {target : ScannedDecision E}
    (hmembers : generation.Members) (hparsed : parseCommittedGeneration rt generation = .ok parsed)
    (h : commitTarget c parsed.decisions = .ok (some target)) :
    c.affectedDecisionId = some target.stem ∧
      HoldsDecision rt generation.texts (decisionPath target.stem) target.decision := by
  unfold commitTarget at h
  split_ifs at h with hoperation
  · cases h
  simp only at h
  split at h
  · cases h
  · next found hfound =>
      cases h
      have hstem : target.stem = c.affectedDecisionId.getD [] := by
        simpa using List.find?_some hfound
      obtain ⟨id, hid, -⟩ := c.valid.targeted hoperation
      rw [hid, Option.getD_some] at hstem
      subst hstem
      obtain ⟨path, hholds, hpath⟩ := (mem_decisions_iff hparsed).mp (List.mem_of_find?_eq_some hfound)
      obtain ⟨text, htext, hread⟩ := hholds
      have hdecision : decisionsPrefix.isPrefixOf path = true := by
        by_contra hnot
        rw [readDecision?, if_neg hnot] at hread
        cases hread
      have hmember := hmembers _ (generation.text?_eq_some_iff.mp htext)
      rw [hpath, ← eq_decisionPath hmember hdecision]
      exact ⟨hpath ▸ hid, text, htext, hread⟩

/-! ## What a commit does -/

section

variable {rt : Runtime E} {sha256Hex : List UInt8 → Text}
  {claimObservations : List (RawObservation rt.tables)} {plan : PlannedCommit E}
  {prepared : PreparedJudgmentCommit rt} {before after : CommittedGeneration}

/-- The paths that a commit may write. -/
def namedPaths (c : JudgmentContent) (plan : PlannedCommit E) : List Text :=
  decisionPath plan.primaryStem :: (c.affectedDecisionId.map decisionPath).toList ++
    if c.resolvesQuestions = [] then [] else [openQuestionsPath]

/-- The parts of a commit, put together. -/
structure CommitParts (rt : Runtime E) (plan : PlannedCommit E)
    (prepared : PreparedJudgmentCommit rt) (before after : CommittedGeneration)
    (current : Table Text Text) (target : Option (ScannedDecision E))
    (decisions : PlannedDecisions E) : Prop where
  reads : ∀ path, current.get? path = before.texts path
  targeted : ∀ scanned ∈ target, prepared.payload.content.affectedDecisionId = some scanned.stem ∧
    HoldsDecision rt before.texts (decisionPath scanned.stem) scanned.decision
  untargeted : target = none → prepared.payload.content.operation = .add
  contract : Contract rt decisions.primary prepared.payload.content.operation
    (target.map ScannedDecision.decision) prepared.claimProbes prepared.claimIntents.publication
  writes : PlanWrites rt prepared.payload.content before.decisionCounter current target decisions
  stem : plan.primaryStem = decisions.primaryStem
  planned : ∀ path, path ≠ openQuestionsPath ∨ prepared.payload.content.resolvesQuestions = [] →
    after.texts path = decisions.planned.get? path
  artifacts : ∀ path, after.texts path = plan.artifacts.get? path
  counter : after.decisionCounter =
    if prepared.payload.content.operation = .update then before.decisionCounter
    else before.decisionCounter + 1

theorem Commit.parts (h : Commit rt sha256Hex claimObservations plan prepared before after) :
    ∃ current target decisions,
      CommitParts rt plan prepared before after current target decisions := by
  obtain ⟨parsed, target, effectiveAt, provenance, hparsed, htarget, -, -, hbuild⟩ :=
    prepareJudgmentCommit_ok h.prepares
  obtain ⟨parsed', target', hparsed', htarget', hprepared⟩ := h.derives.target
  obtain rfl : parsed' = parsed := Except.ok.inj (hparsed'.symm.trans hparsed)
  obtain rfl : target' = target := Except.ok.inj (htarget'.symm.trans htarget)
  have hadd : prepared.payload.content.operation = .add → target' = none := by
    intro hoperation
    rw [commitTarget, if_pos hoperation] at htarget
    cases htarget
    rfl
  have huntargeted : target' = none → prepared.payload.content.operation = .add := by
    rintro rfl
    unfold commitTarget at htarget
    split_ifs at htarget with hoperation
    · exact hoperation
    · simp only at htarget
      split at htarget <;> cases htarget
  obtain ⟨decisions, hwrites, hprimary, hstem, hplanned, hcounter⟩ := buildArtifacts_writes hadd hbuild
  refine ⟨parsed'.current, target', decisions, ?_⟩
  exact {
    reads := fun path => parseCommittedGeneration_get? hparsed path
    targeted := fun scanned hscanned => by
      obtain rfl := Option.mem_def.mp hscanned
      exact commitTarget_holds h.members hparsed htarget
    untargeted := huntargeted
    contract := by
      have hcontract := buildClaimContract_contract prepared.contract
      rwa [h.derives.primary, hprimary, hprepared] at hcontract
    writes := hwrites
    stem := hstem
    planned := fun path hpath => (text?_of_perm h.artifacts path).trans (hplanned path hpath)
    artifacts := text?_of_perm h.artifacts
    counter := by rw [h.counter, h.derives.counter, hcounter] }

/-! ## Unnamed artifacts -/

/-- Beside the primary and the target, the decisions stay as they were. -/
theorem PlanWrites.frame {c : JudgmentContent} {counter : Nat} {current : Table Text Text}
    {target : Option (ScannedDecision E)} {decisions : PlannedDecisions E}
    (h : PlanWrites rt c counter current target decisions) {path : Text}
    (hprimary : path ≠ decisionPath decisions.primaryStem)
    (htarget : ∀ scanned ∈ target, path ≠ decisionPath scanned.stem) :
    decisions.planned.get? path = current.get? path := by
  cases h with
  | update hoperation hstatus htext => exact Table.get?_put_of_ne hprimary _
  | add hoperation hstem hstatus hnum htext => exact Table.get?_put_of_ne hprimary _
  | @supersede old _ _ _ _ _ hoperation hstem hstatus hnum htext hold =>
      exact (Table.get?_put_of_ne (htarget old rfl) _).trans (Table.get?_put_of_ne hprimary _)

section

variable {current : Table Text Text} {target : Option (ScannedDecision E)}
  {decisions : PlannedDecisions E}

theorem CommitParts.frame (h : CommitParts rt plan prepared before after current target decisions)
    {path : Text} (hpath : path ∉ namedPaths prepared.payload.content plan) :
    after.texts path = before.texts path := by
  simp only [namedPaths, List.cons_append, List.mem_cons, List.mem_append, Option.mem_toList,
    Option.map_eq_some_iff, not_or] at hpath
  obtain ⟨hprimary, htarget, hquestions⟩ := hpath
  have hbeside : path ≠ openQuestionsPath ∨ prepared.payload.content.resolvesQuestions = [] := by
    by_cases hids : prepared.payload.content.resolvesQuestions = []
    · exact Or.inr hids
    · rw [if_neg hids, List.mem_singleton] at hquestions
      exact Or.inl hquestions
  rw [h.planned path hbeside, h.writes.frame (h.stem ▸ hprimary), h.reads]
  intro scanned hscanned hsame
  exact htarget ⟨scanned.stem, (h.targeted scanned hscanned).1, hsame.symm⟩

end

end

end Core
end Nauro
