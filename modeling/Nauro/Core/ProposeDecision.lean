import Nauro.Core.Screening
import Nauro.Core.Transitions
import Nauro.Foundation.Effect

/-!
# Proposing a decision

A proposal is screened, then written in one to three decision writes and one questions write.
The writes are sequential: a failure leaves those before it standing.
-/

namespace Nauro
namespace Core

open Foundation

variable {E : Type}

/-! ## Progress of a run -/

/-- One decision file written: the decision that was formatted, and its text. -/
structure DecisionWrite (E : Type) where
  stem : Text
  model : Decision E
  text : Text

/-- The store as it stands, and the decision files written so far in order. -/
@[ext] structure Progress (E : Type) where
  store : Store
  writes : List (DecisionWrite E)

/-- The reasons of `_op_error`. -/
inductive HalfState where
  | noSupersessionRef
  | newUnreadable
  | oldNotFound
  | oldUnreadable
  | oldNotFlipped
  | updateTargetNotFound
  | updateTargetUnreadable
  | questionsNotUpdated
deriving DecidableEq

/-- How an operation ends without success. -/
inductive Stop where
  /-- An exception leaves the operation. -/
  | raised
  /-- An error outcome. -/
  | halted (reason : HalfState)
deriving DecidableEq

abbrev Kernel (E α : Type) :=
  Effect (Progress E) Stop α

/-- `_QuestionResolveOutcome`. -/
structure QuestionResolveOutcome where
  resolvedIds : List Text
  relocatedIds : List Text
  skippedProseIds : List Text

/-- What a successful operation reports. -/
structure Executed where
  decisionId : Text
  actualOperation : Operation
  touched : List Text
  questions : QuestionResolveOutcome

/-! ## The decision that a proposal makes -/

/-- `reason or None`; `none` for a reason that is no text. -/
def coerceReason : Option ItemValue → Option (Option Text)
  | none => some none
  | some (.text t) => some (if t = [] then none else some t)
  | some (.other _ truthy) => if truthy then none else some none

def coerceItem (item : RejectedItem) : Option RejectedAlternative := do
  let name ← rejectedItemLabel item
  let reason ← coerceReason item.reason
  RejectedAlternative.make? name reason

/-- `_coerce_rejected`; `none` when an item is refused. -/
def coerceRejected (items : List RejectedItem) : Option (List RejectedAlternative) :=
  items.mapM coerceItem

/-- `_optional_enum`; `none` for a value that is no member. -/
def optionalEnum (α : Type) [Token α] (raw : Option Text) : Option (Option α) :=
  match raw with
  | none => some none
  | some text => if strip text = [] then some none else (Token.ofText? α (strip text)).map some

/-- `DecisionConfidence(proposal.get("confidence") or "medium")`. -/
def confidenceOrMedium (raw : Option Text) : Option DecisionConfidence :=
  match raw with
  | none => some .medium
  | some text => if text = [] then some .medium else Token.ofText? DecisionConfidence text

/-- `proposal.get("rationale") or title`. -/
def Proposal.rationaleOrTitle (p : Proposal) : Text :=
  if p.rationale = [] then p.title else p.rationale

/-- The unknown frontmatter keys of a new decision: a base commit that is set. -/
def Proposal.extraFields (p : Proposal) : ExtraFields E :=
  match p.baseCommit with
  | none => .none
  | some commit =>
      if commit = [] then .none
      else ⟨[("base_commit".toList, .text commit)], List.nodup_singleton _, by
        simp only [List.map_cons, List.map_nil, List.mem_singleton, forall_eq]
        decide⟩

/-- The fields of the new decision; `none` when a value is refused. -/
def Proposal.newFields (rt : Runtime E) (p : Proposal) (number : Nat) : Option NewDecision := do
  let confidence ← confidenceOrMedium p.confidence
  let decisionType ← optionalEnum DecisionType p.decisionType
  let reversibility ← optionalEnum Reversibility p.reversibility
  let source ← optionalEnum DecisionSource p.source
  let rejected ← coerceRejected p.rejected
  return {
    number
    decisionDate := rt.today
    title := p.title
    rationale := p.rationaleOrTitle
    confidence, decisionType, reversibility, source
    filesAffected := p.filesAffected
    rejected }

/-- The new decision, when it passes its validators. -/
def Proposal.newDecision (rt : Runtime E) (p : Proposal) (number : Nat) : Option (Decision E) :=
  (p.newFields rt number).bind fun fields =>
    (buildNewDecision fields none p.extraFields).toOption

/-- The stem of the new decision's file. -/
def Proposal.newStem (rt : Runtime E) (p : Proposal) (number : Nat) : Text :=
  decisionNumberPrefix number ++ slugifyDecisionTitle rt.tables p.title

/-! ## The writes -/

/-- `store.write_file(_decision_path(stem), format_decision(d))`. -/
def writeDecision (rt : Runtime E) (onFailure : Stop) (stem : Text) (d : Decision E) :
    Kernel E PUnit := do
  let text ← Effect.ofOption onFailure (formatDecision rt.yaml d)
  modify fun s => ⟨s.store.writeDecision stem text, s.writes ++ [⟨stem, d, text⟩]⟩

/-- `store.read_decision(stem)`, for a stem that must be there. -/
def readDecisionOr (rt : Runtime E) (onMissing : Stop) (stem : Text) : Kernel E Text := do
  let s ← get
  Effect.ofOption onMissing (s.store.readDecision rt stem)

/-- `parse_decision` of a body read from the store. -/
def parseOr (rt : Runtime E) (onFailure : Stop) (stem body : Text) : Kernel E (Decision E) :=
  Effect.ofOption onFailure
    (parseDecision rt.tables rt.yaml body (decisionFilename stem)).toOption

/-- `_write_decision_direct`. -/
def writeDecisionDirect (rt : Runtime E) (p : Proposal) : Kernel E Text := do
  let s ← get
  let number := nextDecisionNum rt s.store
  let stem := p.newStem rt number
  let d ← Effect.ofOption .raised (p.newDecision rt number)
  writeDecision rt .raised stem d
  modify fun s => { s with store := s.store.addHash (computeHash rt p.title p.rationaleOrTitle) }
  return stem

/-- The questions write of a transition; a refused reference stops the run. -/
def writeQuestions (rt : Runtime E) (p : Proposal) (num : Nat) : Kernel E QuestionResolveOutcome := do
  let s ← get
  let transition ← Effect.ofOption (.halted .questionsNotUpdated)
    (resolveQuestionsContent rt.tables ((s.store.readQuestions rt).getD []) p.resolvesQuestions num
      rt.today)
  modify fun s => { s with store := s.store.writeQuestions transition.content }
  return ⟨transition.resolvedIds, transition.relocatedIds, transition.skippedProseIds⟩

/-- `_apply_question_resolves`. -/
def applyQuestionResolves (rt : Runtime E) (p : Proposal) (decisionId : Text) :
    Kernel E QuestionResolveOutcome :=
  if p.resolvesQuestions = [] then pure ⟨[], [], []⟩
  else
    match extractDecisionNumber rt.tables decisionId with
    | none => pure ⟨[], [], []⟩
    | some num => writeQuestions rt p num

/-- `_do_supersede`: the new decision, its backlink, then the flipped old decision. -/
def doSupersede (rt : Runtime E) (p : Proposal) (affectedDecisionId : Text) :
    Kernel E Executed := do
  let oldNum ← Effect.ofOption (.halted .noSupersessionRef)
    (extractDecisionNumber rt.tables affectedDecisionId)
  let newStem ← writeDecisionDirect rt p
  let newBody ← readDecisionOr rt (.halted .newUnreadable) newStem
  let new ← parseOr rt .raised newStem newBody
  writeDecision rt .raised newStem (attachSupersedes new oldNum)
  let s ← get
  let oldStem ← Effect.ofOption (.halted .oldNotFound) (findDecisionStemByNum s.store oldNum)
  let oldBody ← readDecisionOr rt (.halted .oldUnreadable) oldStem
  let old ← parseOr rt (.halted .oldNotFlipped) oldStem oldBody
  writeDecision rt (.halted .oldNotFlipped) oldStem (markSuperseded old new.num)
  let questions ← applyQuestionResolves rt p newStem
  return ⟨newStem, .supersede, [newStem, oldStem], questions⟩

/-- `_do_update`: one more version of the target, with a dated paragraph. -/
def doUpdate (rt : Runtime E) (p : Proposal) (affectedDecisionId : Text) :
    Kernel E Executed := do
  let s ← get
  let stem ← Effect.ofOption (.halted .updateTargetNotFound)
    (findDecisionStemById rt s.store affectedDecisionId)
  let body ← readDecisionOr rt (.halted .updateTargetUnreadable) stem
  let target ← parseOr rt .raised stem body
  writeDecision rt .raised stem (appendDecisionUpdate target p.rationale rt.today none)
  let questions ← applyQuestionResolves rt p stem
  return ⟨stem, .update, [stem], questions⟩

/-- The path of an add, and of any operation without an affected decision. -/
def doAdd (rt : Runtime E) (p : Proposal) : Kernel E Executed := do
  let stem ← writeDecisionDirect rt p
  let questions ← applyQuestionResolves rt p stem
  return ⟨stem, .add, [stem], questions⟩

/-- `_execute_operation`. -/
def executeOperation (rt : Runtime E) (p : Proposal) : Kernel E Executed :=
  match p.operation, p.affected? with
  | .supersede, some id => doSupersede rt p id
  | .update, some id => doUpdate rt p id
  | _, _ => doAdd rt p

/-! ## The run -/

/-- The refusal of a proposal over a store. -/
def refusal? (rt : Runtime E) (store : Store) (p : Proposal) : Option Refusal :=
  let questions := (store.readQuestions rt).map (Questions.OpenQuestionsFile.parse rt.tables)
  (validateProposalRequest p questions).or <|
    evaluateParsedProposal rt p (parseAllDecisions rt store) store.hashes
      (p.affected?.bind (extractDecisionNumber rt.tables)) true

inductive ProposeResult (E : Type) where
  /-- Refused; nothing was written. -/
  | refused (refusal : Refusal)
  /-- Stopped after the writes of `progress`. -/
  | stopped (stop : Stop) (progress : Progress E)
  | confirmed (executed : Executed) (progress : Progress E)

/-- `propose_decision`. -/
def proposeDecision (rt : Runtime E) (store : Store) (p : Proposal) : ProposeResult E :=
  match refusal? rt store p with
  | some refusal => .refused refusal
  | none =>
      match (executeOperation rt p).exec ⟨store, []⟩ with
      | (.error stop, progress) => .stopped stop progress
      | (.ok executed, progress) => .confirmed executed progress

/-- A confirmed run was not refused, and its operation succeeded. -/
theorem proposeDecision_confirmed_iff {rt : Runtime E} {store : Store} {p : Proposal}
    {executed : Executed} {progress : Progress E} :
    proposeDecision rt store p = .confirmed executed progress ↔
      refusal? rt store p = none ∧
        (executeOperation rt p).exec ⟨store, []⟩ = (.ok executed, progress) := by
  unfold proposeDecision
  cases hrefusal : refusal? rt store p with
  | some refusal => simp
  | none =>
      cases hrun : (executeOperation rt p).exec ⟨store, []⟩ with
      | mk outcome progress' =>
          cases outcome with
          | error stop => simp
          | ok result => simp

def ProposeResult.confirmed? : ProposeResult E → Option (Executed × Progress E)
  | .confirmed executed progress => some (executed, progress)
  | _ => none

theorem ProposeResult.confirmed?_eq_some {result : ProposeResult E} {executed : Executed}
    {progress : Progress E} (h : result.confirmed? = some (executed, progress)) :
    result = .confirmed executed progress := by
  cases result with
  | confirmed executed progress =>
      cases h
      rfl
  | _ => cases h

/-! ## What the steps that succeed have done -/

theorem writeDecision_ok_iff {rt : Runtime E} {onFailure : Stop} {stem : Text} {d : Decision E}
    {s s' : Progress E} {u : PUnit} :
    (writeDecision rt onFailure stem d).exec s = (.ok u, s') ↔
      ∃ text, formatDecision rt.yaml d = some text ∧
        s' = ⟨s.store.writeDecision stem text, s.writes ++ [⟨stem, d, text⟩]⟩ := by
  rw [writeDecision, Effect.exec_bind_ok_iff]
  constructor
  · intro h
    obtain ⟨text, between, hformat, hmodify⟩ := h
    obtain ⟨htext, rfl⟩ := Effect.exec_ofOption_ok_iff.mp hformat
    rw [Effect.exec_modify] at hmodify
    cases hmodify
    exact ⟨text, htext, rfl⟩
  · intro h
    obtain ⟨text, hformat, rfl⟩ := h
    exact ⟨text, s, Effect.exec_ofOption_ok_iff.mpr ⟨hformat, rfl⟩, rfl⟩

theorem readDecisionOr_ok_iff {rt : Runtime E} {onMissing : Stop} {stem body : Text}
    {s s' : Progress E} :
    (readDecisionOr rt onMissing stem).exec s = (.ok body, s') ↔
      s.store.readDecision rt stem = some body ∧ s' = s := by
  rw [readDecisionOr, Effect.exec_bind_ok_iff]
  constructor
  · intro h
    obtain ⟨_, _, hget, hread⟩ := h
    cases hget
    exact Effect.exec_ofOption_ok_iff.mp hread
  · intro h
    exact ⟨s, s, rfl, Effect.exec_ofOption_ok_iff.mpr h⟩

theorem parseOr_ok_iff {rt : Runtime E} {onFailure : Stop} {stem body : Text} {d : Decision E}
    {s s' : Progress E} :
    (parseOr rt onFailure stem body).exec s = (.ok d, s') ↔
      parseDecision rt.tables rt.yaml body (decisionFilename stem) = .ok d ∧ s' = s := by
  rw [parseOr, Effect.exec_ofOption_ok_iff]
  cases parseDecision rt.tables rt.yaml body (decisionFilename stem) with
  | error e => simp [Except.toOption]
  | ok found => simp [Except.toOption]

/-- The progress after the new decision was written. -/
def afterNew (rt : Runtime E) (p : Proposal) (s : Progress E) (d : Decision E) (text : Text) :
    Progress E :=
  let stem := p.newStem rt (nextDecisionNum rt s.store)
  ⟨(s.store.writeDecision stem text).addHash (computeHash rt p.title p.rationaleOrTitle),
    s.writes ++ [⟨stem, d, text⟩]⟩

theorem writeDecisionDirect_ok_iff {rt : Runtime E} {p : Proposal} {stem : Text}
    {s s' : Progress E} :
    (writeDecisionDirect rt p).exec s = (.ok stem, s') ↔
      ∃ d text, p.newDecision rt (nextDecisionNum rt s.store) = some d ∧
        formatDecision rt.yaml d = some text ∧
        stem = p.newStem rt (nextDecisionNum rt s.store) ∧ s' = afterNew rt p s d text := by
  unfold writeDecisionDirect
  simp only [Effect.exec_bind_ok_iff, Effect.exec_ofOption_ok_iff, writeDecision_ok_iff,
    Effect.exec_get, Effect.exec_modify, Effect.exec_pure_ok_iff, Prod.mk.injEq, Except.ok.injEq]
  constructor
  · intro h
    obtain ⟨_, _, ⟨rfl, rfl⟩, d, _, ⟨hnew, rfl⟩, _, _, ⟨text, hformat, rfl⟩, _, _, ⟨-, rfl⟩,
      hstem, rfl⟩ := h
    exact ⟨d, text, hnew, hformat, hstem, rfl⟩
  · intro h
    obtain ⟨d, text, hnew, hformat, hstem, rfl⟩ := h
    exact ⟨s, s, ⟨rfl, rfl⟩, d, s, ⟨hnew, rfl⟩, ⟨⟩, _, ⟨text, hformat, rfl⟩, ⟨⟩, _,
      ⟨trivial, rfl⟩, hstem, rfl⟩

/-- Resolving questions leaves the decision files alone. -/
theorem applyQuestionResolves_ok {rt : Runtime E} {p : Proposal} {decisionId : Text}
    {outcome : QuestionResolveOutcome} {s s' : Progress E}
    (h : (applyQuestionResolves rt p decisionId).exec s = (.ok outcome, s')) :
    s'.writes = s.writes ∧ s'.store.decisions = s.store.decisions ∧
      s'.store.hashes = s.store.hashes := by
  unfold applyQuestionResolves at h
  split_ifs at h
  · cases h
    exact ⟨rfl, rfl, rfl⟩
  · split at h
    · cases h
      exact ⟨rfl, rfl, rfl⟩
    · simp only [writeQuestions, Effect.exec_bind_ok_iff, Effect.exec_ofOption_ok_iff,
        Effect.exec_get, Effect.exec_modify, Effect.exec_pure_ok_iff, Prod.mk.injEq,
        Except.ok.injEq] at h
      obtain ⟨_, _, ⟨rfl, rfl⟩, transition, _, ⟨-, rfl⟩, _, _, ⟨-, rfl⟩, -, rfl⟩ := h
      exact ⟨rfl, rfl, rfl⟩

/-! ## What the operations that succeed have done -/

/-- A decision read at a stem and parsed. -/
theorem parseAt_eq_some_iff {rt : Runtime E} {store : Store} {stem : Text} {d : Decision E} :
    store.parseAt rt stem = some (.ok d) ↔
      ∃ body, store.readDecision rt stem = some body ∧
        parseDecision rt.tables rt.yaml body (decisionFilename stem) = .ok d := by
  rw [Store.parseAt, Option.map_eq_some_iff]

theorem doAdd_ok {rt : Runtime E} {p : Proposal} {s s' : Progress E} {executed : Executed}
    (h : (doAdd rt p).exec s = (.ok executed, s')) :
    ∃ d text, p.newDecision rt (nextDecisionNum rt s.store) = some d ∧
      formatDecision rt.yaml d = some text ∧
      s'.writes = (afterNew rt p s d text).writes ∧
      s'.store.decisions = (afterNew rt p s d text).store.decisions := by
  unfold doAdd at h
  simp only [Effect.exec_bind_ok_iff, writeDecisionDirect_ok_iff, Effect.exec_pure_ok_iff] at h
  obtain ⟨_, _, ⟨d, text, hnew, hformat, rfl, rfl⟩, _, _, hquestions, -, rfl⟩ := h
  obtain ⟨hwrites, hdecisions, -⟩ := applyQuestionResolves_ok hquestions
  exact ⟨d, text, hnew, hformat, hwrites, hdecisions⟩

theorem doUpdate_ok {rt : Runtime E} {p : Proposal} {id : Text} {s s' : Progress E}
    {executed : Executed} (h : (doUpdate rt p id).exec s = (.ok executed, s')) :
    ∃ stem target text, findDecisionStemById rt s.store id = some stem ∧
      s.store.parseAt rt stem = some (.ok target) ∧
      formatDecision rt.yaml (appendDecisionUpdate target p.rationale rt.today none) = some text ∧
      s'.writes = s.writes ++
        [⟨stem, appendDecisionUpdate target p.rationale rt.today none, text⟩] ∧
      s'.store.decisions = s.store.decisions.put stem text := by
  unfold doUpdate at h
  simp only [Effect.exec_bind_ok_iff, Effect.exec_get, Effect.exec_ofOption_ok_iff,
    readDecisionOr_ok_iff, parseOr_ok_iff, writeDecision_ok_iff, Effect.exec_pure_ok_iff,
    Prod.mk.injEq, Except.ok.injEq] at h
  obtain ⟨_, _, ⟨rfl, rfl⟩, stem, _, ⟨hfound, rfl⟩, body, _, ⟨hread, rfl⟩, target, _,
    ⟨hparse, rfl⟩, _, _, ⟨text, hformat, rfl⟩, _, _, hquestions, -, rfl⟩ := h
  obtain ⟨hwrites, hdecisions, -⟩ := applyQuestionResolves_ok hquestions
  exact ⟨stem, target, text, hfound, parseAt_eq_some_iff.mpr ⟨body, hread, hparse⟩, hformat,
    hwrites, hdecisions⟩

/-- The decisions that a supersede reads and the texts it writes. -/
structure SupersedeTrace (E : Type) where
  first : Decision E
  firstText : Text
  /-- The new decision as the store gives it back. -/
  reread : Decision E
  rereadText : Text
  oldStem : Text
  old : Decision E
  oldText : Text

/-- The store after both writes of the new decision. -/
def SupersedeTrace.afterBacklink (t : SupersedeTrace E) (rt : Runtime E) (p : Proposal)
    (s : Progress E) : Store :=
  (afterNew rt p s t.first t.firstText).store.writeDecision
    (p.newStem rt (nextDecisionNum rt s.store)) t.rereadText

/-- How a supersede of a number goes. -/
structure SupersedeTrace.Follows (t : SupersedeTrace E) (rt : Runtime E) (p : Proposal)
    (oldNum : Nat) (s : Progress E) : Prop where
  built : p.newDecision rt (nextDecisionNum rt s.store) = some t.first
  firstText : formatDecision rt.yaml t.first = some t.firstText
  reread : parseDecision rt.tables rt.yaml (rt.readText t.firstText)
    (decisionFilename (p.newStem rt (nextDecisionNum rt s.store))) = .ok t.reread
  rereadText : formatDecision rt.yaml (attachSupersedes t.reread oldNum) = some t.rereadText
  found : findDecisionStemByNum (t.afterBacklink rt p s) oldNum = some t.oldStem
  old : (t.afterBacklink rt p s).parseAt rt t.oldStem = some (.ok t.old)
  oldText : formatDecision rt.yaml (markSuperseded t.old t.reread.num) = some t.oldText

/-- The three decision writes of a supersede. -/
def SupersedeTrace.writes (t : SupersedeTrace E) (newStem : Text) (oldNum : Nat) :
    List (DecisionWrite E) :=
  [⟨newStem, t.first, t.firstText⟩,
    ⟨newStem, attachSupersedes t.reread oldNum, t.rereadText⟩,
    ⟨t.oldStem, markSuperseded t.old t.reread.num, t.oldText⟩]

theorem doSupersede_ok {rt : Runtime E} {p : Proposal} {id : Text} {s s' : Progress E}
    {executed : Executed} (h : (doSupersede rt p id).exec s = (.ok executed, s')) :
    ∃ oldNum t, extractDecisionNumber rt.tables id = some oldNum ∧
      SupersedeTrace.Follows t rt p oldNum s ∧
      s'.writes = s.writes ++ t.writes (p.newStem rt (nextDecisionNum rt s.store)) oldNum ∧
      s'.store.decisions = (t.afterBacklink rt p s).decisions.put t.oldStem t.oldText := by
  unfold doSupersede at h
  simp only [Effect.exec_bind_ok_iff, Effect.exec_get, Effect.exec_ofOption_ok_iff,
    writeDecisionDirect_ok_iff, readDecisionOr_ok_iff, parseOr_ok_iff, writeDecision_ok_iff,
    Effect.exec_pure_ok_iff, Prod.mk.injEq, Except.ok.injEq] at h
  obtain ⟨oldNum, _, ⟨hnum, rfl⟩, _, _, ⟨first, firstText, hbuilt, hfirst, rfl, rfl⟩, newBody, _,
    ⟨hnewBody, rfl⟩, reread, _, ⟨hreread, rfl⟩, _, _, ⟨rereadText, hrereadText, rfl⟩, _, _,
    ⟨rfl, rfl⟩, oldStem, _, ⟨hfound, rfl⟩, oldBody, _, ⟨holdBody, rfl⟩, old, _, ⟨hold, rfl⟩, _, _,
    ⟨oldText, holdText, rfl⟩, _, _, hquestions, -, rfl⟩ := h
  obtain ⟨hwrites, hdecisions, -⟩ := applyQuestionResolves_ok hquestions
  have hbody : newBody = rt.readText firstText := by
    simp only [afterNew, Store.readDecision_addHash, Store.readDecision_writeDecision_self,
      Option.some.injEq] at hnewBody
    exact hnewBody.symm
  subst hbody
  refine ⟨oldNum, ⟨first, firstText, reread, rereadText, oldStem, old, oldText⟩, hnum,
    ⟨hbuilt, hfirst, hreread, hrereadText, hfound, ?_, holdText⟩, ?_, hdecisions⟩
  · exact parseAt_eq_some_iff.mpr ⟨oldBody, holdBody, hold⟩
  · rw [hwrites]
    simp [afterNew, SupersedeTrace.writes]

end Core
end Nauro
