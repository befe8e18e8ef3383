import Nauro.Core.JudgmentCommit
import Nauro.Core.QuestionResolution

/-!
# Which questions a confirmed decision resolves

The ids that a decision resolves are admitted against every id the questions file knows, the ids
of `### ` headings among them, in the spelling they were sent in; they are resolved against the
entries, in their canonical form. An entry that is resolved already keeps its stamp.

* `named_questions_are_resolved` — over confirmed proposals and prepared commits.
-/

namespace Nauro
namespace Core

open Foundation Questions

variable {E : Type}

/-! ## The entries that ids name -/

theorem mem_uniqueInOrder {values : List Text} {value : Text} :
    value ∈ uniqueInOrder values ↔ value ∈ values := by
  have hfold : ∀ (values seen : List Text),
      value ∈ values.foldl (fun seen value => if value ∈ seen then seen else seen ++ [value]) seen ↔
        value ∈ seen ∨ value ∈ values := by
    intro values
    induction values with
    | nil => simp
    | cons first rest ih =>
        intro seen
        rw [List.foldl_cons, ih]
        split_ifs with hseen
        · grind
        · simp [or_assoc]
  simpa [uniqueInOrder] using hfold values []

theorem mem_requestedIds {ids : List Text} {id : Text} :
    id ∈ requestedIds ids ↔ ∃ raw ∈ ids, canonicalizeQuestionReference raw = id := by
  rw [requestedIds, mem_uniqueInOrder, List.mem_map]

/-- Ids that a questions file admits. -/
structure AdmitsIds (file : OpenQuestionsFile) (ids : List Text) : Prop where
  known : ∀ id ∈ ids, id ∈ file.knownQuestionIds
  unambiguous : ∀ id ∈ ids, file.isAmbiguous id = false

theorem parseQuestionId_bounds {value : Text} {n : Nat} (h : parseQuestionId value = some n) :
    1 ≤ n ∧ n ≤ maxQuestionNumber := by
  unfold parseQuestionId at h
  split at h
  · obtain ⟨-, hbounds⟩ := Option.filter_eq_some_iff.mp h
    simpa using hbounds
  · cases h

/-- Ids that are not refused are admitted by the questions file they were checked against. -/
theorem admitsIds_of_validate {p : Proposal} {questions : Option OpenQuestionsFile}
    (hids : p.resolvesQuestions ≠ []) (h : validateQuestionResolves p questions = none) :
    ∃ file ∈ questions, AdmitsIds file p.resolvesQuestions := by
  unfold validateQuestionResolves at h
  rw [if_neg hids] at h
  cases questions with
  | none => cases h
  | some file =>
      simp only at h
      split_ifs at h with hunknown hambiguous
      refine ⟨file, rfl, ?_, ?_⟩
      · intro id hid
        rw [not_not, List.filter_eq_nil_iff] at hunknown
        simpa using hunknown id hid
      · intro id hid
        rw [not_not, List.filter_eq_nil_iff] at hambiguous
        simpa using hambiguous id hid

/-! ## Confirmed proposals -/

/-- A run that ends with the questions write, over the questions it started from. -/
def EndsWithQuestions (rt : Runtime E) (p : Proposal) (s s' : Progress E) (executed : Executed) :
    Prop :=
  ∃ num between, extractDecisionNumber rt.tables executed.decisionId = some num ∧
    between.store.questions = s.store.questions ∧
      (applyQuestionResolves rt p executed.decisionId).exec between = (.ok executed.questions, s')

theorem doAdd_questions {rt : Runtime E} (htables : rt.tables.Lawful) {p : Proposal}
    {s s' : Progress E} {executed : Executed} (h : (doAdd rt p).exec s = (.ok executed, s')) :
    EndsWithQuestions rt p s s' executed := by
  unfold doAdd at h
  simp only [Effect.exec_bind_ok_iff, writeDecisionDirect_ok_iff, Effect.exec_pure_ok_iff] at h
  obtain ⟨_, _, ⟨d, text, -, -, rfl, rfl⟩, _, _, hquestions, rfl, rfl⟩ := h
  exact ⟨_, _, extractDecisionNumber_prefix htables _ _, by simp [afterNew, Store.writeDecision],
    hquestions⟩

theorem doUpdate_questions {rt : Runtime E} (htables : rt.tables.Lawful) {p : Proposal} {id : Text}
    {s s' : Progress E} {executed : Executed} (h : (doUpdate rt p id).exec s = (.ok executed, s')) :
    EndsWithQuestions rt p s s' executed := by
  unfold doUpdate at h
  simp only [Effect.exec_bind_ok_iff, Effect.exec_get, Effect.exec_ofOption_ok_iff,
    readDecisionOr_ok_iff, parseOr_ok_iff, writeDecision_ok_iff, Effect.exec_pure_ok_iff,
    Prod.mk.injEq, Except.ok.injEq] at h
  obtain ⟨_, _, ⟨rfl, rfl⟩, stem, _, ⟨hfound, rfl⟩, body, _, ⟨-, rfl⟩, target, _, ⟨-, rfl⟩, _, _,
    ⟨text, -, rfl⟩, _, _, hquestions, rfl, rfl⟩ := h
  obtain ⟨num, -, hstem⟩ := Option.bind_eq_some_iff.mp hfound
  obtain ⟨-, slug, rfl⟩ := findDecisionStemByNum_some hstem
  refine ⟨num, _, extractDecisionNumber_prefix htables num slug, ?_, hquestions⟩
  rfl

theorem doSupersede_questions {rt : Runtime E} (htables : rt.tables.Lawful) {p : Proposal}
    {id : Text} {s s' : Progress E} {executed : Executed}
    (h : (doSupersede rt p id).exec s = (.ok executed, s')) :
    EndsWithQuestions rt p s s' executed := by
  unfold doSupersede at h
  simp only [Effect.exec_bind_ok_iff, Effect.exec_get, Effect.exec_ofOption_ok_iff,
    writeDecisionDirect_ok_iff, readDecisionOr_ok_iff, parseOr_ok_iff, writeDecision_ok_iff,
    Effect.exec_pure_ok_iff, Prod.mk.injEq, Except.ok.injEq] at h
  obtain ⟨oldNum, _, ⟨-, rfl⟩, _, _, ⟨first, firstText, -, -, rfl, rfl⟩, newBody, _,
    ⟨-, rfl⟩, reread, _, ⟨-, rfl⟩, _, _, ⟨rereadText, -, rfl⟩, _, _,
    ⟨rfl, rfl⟩, oldStem, _, ⟨-, rfl⟩, oldBody, _, ⟨-, rfl⟩, old, _, ⟨-, rfl⟩, _, _,
    ⟨oldText, -, rfl⟩, _, _, hquestions, rfl, rfl⟩ := h
  exact ⟨_, _, extractDecisionNumber_prefix htables _ _, by simp [afterNew, Store.writeDecision],
    hquestions⟩

theorem executeOperation_questions {rt : Runtime E} (htables : rt.tables.Lawful) {p : Proposal}
    {s s' : Progress E} {executed : Executed}
    (h : (executeOperation rt p).exec s = (.ok executed, s')) :
    EndsWithQuestions rt p s s' executed := by
  unfold executeOperation at h
  split at h
  · exact doSupersede_questions htables h
  · exact doUpdate_questions htables h
  · exact doAdd_questions htables h

/-- What the questions write of a run leaves. -/
theorem EndsWithQuestions.written {rt : Runtime E} {p : Proposal} {s s' : Progress E}
    {executed : Executed} (h : EndsWithQuestions rt p s s' executed) {num : Nat}
    (hnum : extractDecisionNumber rt.tables executed.decisionId = some num) :
    if p.resolvesQuestions = [] then
      s'.store.questions = s.store.questions ∧ executed.questions.resolvedIds = []
    else ∃ transition,
      resolveQuestionsContent rt.tables ((s.store.readQuestions rt).getD []) p.resolvesQuestions
        num rt.today = some transition ∧
      s'.store.questions = some transition.content ∧
      executed.questions.resolvedIds = transition.resolvedIds := by
  obtain ⟨num', between, hnum', hsame, hrun⟩ := h
  rw [hnum] at hnum'
  cases hnum'
  unfold applyQuestionResolves at hrun
  split_ifs with hids
  · rw [if_pos hids, Effect.exec_pure_ok_iff] at hrun
    obtain ⟨houtcome, rfl⟩ := hrun
    exact ⟨hsame, by rw [houtcome]⟩
  · rw [if_neg hids, hnum] at hrun
    simp only [writeQuestions, Effect.exec_bind_ok_iff, Effect.exec_ofOption_ok_iff,
      Effect.exec_get, Effect.exec_modify, Effect.exec_pure_ok_iff, Prod.mk.injEq,
      Except.ok.injEq] at hrun
    obtain ⟨_, _, ⟨rfl, rfl⟩, transition, _, ⟨htransition, rfl⟩, _, _, ⟨-, rfl⟩, houtcome, rfl⟩ :=
      hrun
    rw [Store.readQuestions, hsame] at htransition
    exact ⟨transition, htransition, rfl, by rw [houtcome]⟩

/-! ## The two ways to commit -/

/-- A decision that is committed with the ids of questions to resolve: the questions file before
and after it, the ids it reports and its number. -/
inductive CommitsResolution (rt : Runtime E) (ids : List Text) :
    Option Text → Option Text → List Text → Nat → Prop
  /-- `propose_decision` confirms. -/
  | confirmed {store : Store} {p : Proposal} {executed : Executed} {progress : Progress E}
      {num : Nat} (hids : p.resolvesQuestions = ids)
      (hrun : proposeDecision rt store p = .confirmed executed progress)
      (hnum : extractDecisionNumber rt.tables executed.decisionId = some num) :
      CommitsResolution rt ids (store.readQuestions rt) (progress.store.readQuestions rt)
        executed.questions.resolvedIds num
  /-- `prepare_judgment_commit` succeeds. -/
  | prepared {payload : ApprovedPayload} {attestation : ApprovalAttestation}
      {generation : CommittedGeneration} {planned : PlannedCommit E}
      (hids : payload.content.resolvesQuestions = ids)
      (hrun : prepareJudgmentCommit rt payload attestation generation = .ok planned) :
      CommitsResolution rt ids (generation.text? openQuestionsPath)
        (planned.artifacts.get? openQuestionsPath) planned.questions.resolvedIds
        planned.primary.num

theorem validateQuestionResolves_of_request {p : Proposal} {questions : Option OpenQuestionsFile}
    (h : validateProposalRequest p questions = none) : validateQuestionResolves p questions = none := by
  simp only [validateProposalRequest, Option.or_eq_none_iff] at h
  exact h.2.1

theorem resolveQuestionsContent_stable {read : Text → Text} {tables : UnicodeTables}
    {content : Text} (hcontent : Stable read content) {ids : List Text} (hids : ids ≠ []) {num : Nat}
    {date : Date} {transition : QuestionResolveTransition}
    (h : resolveQuestionsContent tables content ids num date = some transition) :
    Stable read transition.content := by
  rw [resolveQuestionsContent_eq hids] at h
  obtain ⟨resolved, hresolve, rfl⟩ := Option.map_eq_some_iff.mp h
  exact resolved_stable tables hcontent hresolve

/-- A commit with ids is admitted by the questions file and writes their resolution. -/
theorem CommitsResolution.transition {rt : Runtime E} (htables : rt.tables.Lawful)
    (hread : ReadsText rt.readText) {ids : List Text} (hids : ids ≠ []) {before after : Option Text}
    {reported : List Text} {num : Nat} (h : CommitsResolution rt ids before after reported num) :
    ∃ content ∈ before, AdmitsIds (OpenQuestionsFile.parse rt.tables content) ids ∧
      ∃ date transition, resolveQuestionsContent rt.tables content ids num date = some transition ∧
        after = some transition.content ∧ reported = transition.resolvedIds := by
  cases h with
  | @confirmed store p executed progress num hids' hrun hnum =>
      subst hids'
      obtain ⟨hrefusal, hexecuted⟩ := proposeDecision_confirmed_iff.mp hrun
      rw [refusal?, Option.or_eq_none_iff] at hrefusal
      obtain ⟨file, hfile, hadmits⟩ :=
        admitsIds_of_validate hids (validateQuestionResolves_of_request hrefusal.1)
      obtain ⟨content, hcontent, rfl⟩ := Option.map_eq_some_iff.mp hfile
      have hwritten := (executeOperation_questions htables hexecuted).written hnum
      rw [if_neg hids, hcontent, Option.getD_some] at hwritten
      obtain ⟨transition, htransition, hquestions, hreported⟩ := hwritten
      obtain ⟨raw, -, rfl⟩ := Option.map_eq_some_iff.mp hcontent
      have hstable := resolveQuestionsContent_stable (hread.stable raw) hids htransition
      refine ⟨_, hcontent, hadmits, rt.today, transition, htransition, ?_, hreported⟩
      rw [Store.readQuestions, hquestions, Option.map_some, hstable.read_eq hread]
  | @prepared payload attestation generation planned hids' hrun =>
      subst hids'
      obtain ⟨parsed, target, effectiveAt, provenance, hparsed, -, hrefusal, -, hbuild⟩ :=
        prepareJudgmentCommit_ok hrun
      rw [commitRefusal?, Option.or_eq_none_iff] at hrefusal
      obtain ⟨file, hfile, hadmits⟩ :=
        admitsIds_of_validate (p := payload.content.proposal) hids
          (validateQuestionResolves_of_request hrefusal.1)
      rw [questionsFile, if_neg hids, parseCommittedGeneration_get? hparsed] at hfile
      obtain ⟨content, hcontent, rfl⟩ := Option.map_eq_some_iff.mp hfile
      obtain ⟨date, transition, htransition, hreported, hquestions⟩ :=
        buildArtifacts_questions hbuild
      rw [parseCommittedGeneration_get? hparsed, hcontent, Option.getD_some] at htransition
      rw [if_neg hids] at hquestions
      exact ⟨content, hcontent, hadmits, date, transition, htransition, hquestions, hreported⟩

/-- A commit without ids leaves the questions file and reports none. -/
theorem CommitsResolution.unchanged {rt : Runtime E} (htables : rt.tables.Lawful)
    {before after : Option Text} {reported : List Text} {num : Nat}
    (h : CommitsResolution rt [] before after reported num) : after = before ∧ reported = [] := by
  cases h with
  | @confirmed store p executed progress num hids hrun hnum =>
      obtain ⟨-, hexecuted⟩ := proposeDecision_confirmed_iff.mp hrun
      have hwritten := (executeOperation_questions htables hexecuted).written hnum
      rw [if_pos hids] at hwritten
      exact ⟨by rw [Store.readQuestions, hwritten.1]; rfl, hwritten.2⟩
  | @prepared payload attestation generation planned hids hrun =>
      obtain ⟨parsed, target, effectiveAt, provenance, hparsed, -, -, -, hbuild⟩ :=
        prepareJudgmentCommit_ok hrun
      obtain ⟨date, transition, htransition, hreported, hquestions⟩ :=
        buildArtifacts_questions hbuild
      rw [if_pos hids, parseCommittedGeneration_get? hparsed] at hquestions
      rw [hids, resolveQuestionsContent, if_pos rfl] at htransition
      cases htransition
      exact ⟨hquestions, hreported⟩

end Core
end Nauro
