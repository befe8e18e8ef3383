import Nauro.Sync.JudgmentSubmission

/-!
# Judgments are never sent blindly

Every call on a judgment record follows the protocol of submissions, wherever it is cut off and
whatever its surroundings answer.

* `judgment_never_sent_blindly` — the property of whole runs.
-/

namespace Nauro
namespace Sync
namespace Judgment

open Foundation Foundation.Session Nauro.Core SubmissionLog

variable {File : Type} {rules : SubmissionRules File} {env : Surroundings}
  {past : List (List (Event File))}

/-- The record the file holds, as the log tells it. -/
def latest (past : List (List (Event File))) (call : List (Event File)) :
    Option JudgmentSubmission :=
  (written (past.flatten ++ call)).getLast?

/-- What may still be said of a call after anything but a transmission. -/
def Stable (fact : List (Event File) → Prop) : Prop :=
  ∀ call event, event.isTransmission = false → fact call → fact (call ++ [event])

/-- Nothing was transmitted before, or this call found the operation absent. -/
def Cleared (rules : SubmissionRules File) (past : List (List (Event File)))
    (call : List (Event File)) : Prop :=
  NoneSent (past.flatten ++ call) ∨ FoundAbsent (judgmentKind rules) call

theorem stable_cleared : Stable (Cleared rules past) := by
  intro call event hevent h
  rcases h with hnone | habsent
  · left
    rw [← List.append_assoc]
    exact noneSent_concat hnone hevent
  · exact Or.inr (habsent.concat event)

variable [DecidableEq File]

/-- The invariant of a call, with a fact about its events. -/
def At (rules : SubmissionRules File) (past : List (List (Event File)))
    (fact : List (Event File) → Prop) (disk : Option File) (call : List (Event File)) : Prop :=
  Underway (judgmentKind rules) past disk call ∧ fact call

/-! ## Reading and writing -/

theorem requireSubmissionActor_holds {P : Option File → List (Event File) → Prop}
    {userId : Text} (h : ∀ disk call, P disk call → Underway (judgmentKind rules) past disk call) :
    Holds P (requireSubmissionActor env userId) (fun _ => P)
      (Underway (judgmentKind rules) past) := by
  refine Holds.bind (Holds.point h) fun _ => Holds.bind (Holds.ask _) fun active => ?_
  exact (Holds.ensure fun disk call hp => h disk call hp.1).weaken (fun _ _ hp => hp)
    fun _ disk call hp => hp.1.1

/-- A read finds the record that was written last, which passes its rules. -/
theorem readSubmission_holds {P : Option File → List (Event File) → Prop}
    {scope : SubmissionScope}
    (h : ∀ disk call, P disk call → Underway (judgmentKind rules) past disk call) :
    Holds P (readSubmission rules env scope)
      (fun found disk call => P disk call ∧ found = latest past call ∧
        ∀ record, found = some record → record.scope = scope ∧ record.check rules = true)
      (Underway (judgmentKind rules) past) := by
  refine Holds.bind (requireSubmissionActor_holds h) fun _ =>
    Holds.bind Holds.readDisk fun read => ?_
  have hlatest : ∀ disk call, P disk call ∧ read = disk →
      readRecord rules.format (JudgmentSubmission.check rules) read = .ok (latest past call) := by
    intro disk call hp
    rw [hp.2]
    exact (h disk call hp.1).saved
  split
  · rename_i fault hread
    refine Holds.throw fun disk call hp => ?_
    exact h disk call hp.1
  · rename_i hread
    refine Holds.pure fun disk call hp => ?_
    have heq := (hlatest disk call hp).symm.trans hread
    exact ⟨hp.1, (Except.ok.inj heq).symm, fun record hrecord => by cases hrecord⟩
  · rename_i record hread
    refine Holds.bind (Holds.ensure fun disk call hp => h disk call hp.1) fun _ =>
      Holds.pure fun disk call hp => ?_
    obtain ⟨hread', hscope⟩ := hp
    have heq := (hlatest disk call hread').symm.trans hread
    refine ⟨hread'.1, (Except.ok.inj heq).symm, ?_⟩
    intro other hother
    rw [← Option.some.inj hother]
    exact ⟨hscope, check_of_readRecord hread⟩

theorem write_holds (hformat : rules.format.Lawful) {fact : List (Event File) → Prop}
    (hfact : Stable fact) {record : JudgmentSubmission}
    {P : Option File → List (Event File) → Prop}
    (h : ∀ disk call, P disk call → At rules past fact disk call ∧
      ∀ earlier ∈ written (past.flatten ++ call), Forward (judgmentKind rules) earlier record) :
    Holds P (write rules env record)
      (fun _ disk call => At rules past fact disk call ∧ latest past call = some record)
      (Underway (judgmentKind rules) past) := by
  unfold write
  split
  · exact Holds.throw fun disk call hp => (h disk call hp).1.1
  · rename_i encoded hencoded
    refine Holds.bind (Holds.point fun disk call hp => (h disk call hp).1.1) fun _ => ?_
    -- The file and the log change together.
    intro s hs
    obtain ⟨hat, hforward⟩ := h s.disk s.trace hs
    refine ⟨⟨?_, hfact _ _ rfl hat.2⟩, ?_⟩
    · exact hat.1.write (readRecord_of_encodeRecord hformat hencoded) hforward trivial
    · show (written (past.flatten ++ (s.trace ++ [.wrote record]))).getLast? = _
      rw [← List.append_assoc, written_concat]
      exact List.getLast?_concat

/-- A transition moves the record of the file forward, or stops. -/
theorem transition_holds (hformat : rules.format.Lawful) {fact : List (Event File) → Prop}
    (hfact : Stable fact) {record updated : JudgmentSubmission}
    (hforward : Forward (judgmentKind rules) record updated) :
    Holds (At rules past fact) (transition rules env record updated)
      (fun result disk call => At rules past fact disk call ∧ result = updated ∧
        latest past call = some updated)
      (Underway (judgmentKind rules) past) := by
  refine Holds.bind (readSubmission_holds fun _ _ hp => hp.1) fun found => ?_
  refine Holds.bind (Holds.ensure fun disk call hp => hp.1.1) fun _ =>
    Holds.bind (write_holds hformat hfact fun disk call hp => ?_) fun _ =>
      Holds.pure fun disk call hp => ⟨hp.1, rfl, hp.2⟩
  obtain ⟨⟨hat, hfound, -⟩, hsaved⟩ := hp
  refine ⟨hat, fun earlier hmem => ?_⟩
  have hlast : latest past call = some record := hfound.symm.trans hsaved
  exact (hat.1.latest record hlast earlier hmem).trans hforward

omit [DecidableEq File] in
theorem forward_uncertain {record : JudgmentSubmission} (h : record.phase ≠ .resolved) :
    Forward (judgmentKind rules) record { record with phase := .uncertain } := by
  refine ⟨rfl, ?_, fun hresolved => absurd hresolved h⟩
  show record.phase.rank ≤ Phase.uncertain.rank
  cases hphase : record.phase with
  | prepared => decide
  | uncertain => decide
  | resolved => exact absurd hphase h

omit [DecidableEq File] in
theorem forward_resolved {record : JudgmentSubmission} (h : record.phase ≠ .resolved)
    (result : JudgmentTransportResult) :
    Forward (judgmentKind rules) record
      { record with phase := .resolved, result := some result } := by
  refine ⟨rfl, ?_, fun hresolved => absurd hresolved h⟩
  show record.phase.rank ≤ Phase.resolved.rank
  cases record.phase <;> decide

omit [DecidableEq File] in
/-- A record that passes its rules without a result is not resolved. -/
theorem phase_ne_resolved {record : JudgmentSubmission} (hcheck : record.check rules = true)
    (hresult : record.result = none) : record.phase ≠ .resolved := by
  intro hphase
  rw [JudgmentSubmission.check, if_pos hphase, hresult] at hcheck
  simp at hcheck

/-! ## Parts of a call -/

theorem load_holds {scope : SubmissionScope} :
    Holds (Underway (judgmentKind rules) past) (load rules env scope)
      (fun record disk call => Underway (judgmentKind rules) past disk call ∧
        latest past call = some record ∧ record.check rules = true)
      (Underway (judgmentKind rules) past) := by
  refine Holds.bind (requireSubmissionActor_holds fun _ _ hp => hp) fun _ =>
    Holds.bind (readSubmission_holds fun _ _ hp => hp) fun found => ?_
  cases found with
  | none => exact Holds.throw fun disk call hp => hp.1
  | some record =>
      refine Holds.bind (requireSubmissionActor_holds fun _ _ hp => hp.1) fun _ => ?_
      refine Holds.pure fun disk call hp => ?_
      obtain ⟨hunderway, hlast, hrules⟩ := hp
      exact ⟨hunderway, hlast.symm, (hrules record rfl).2⟩

/-- Whatever the file holds, a call that passes the check has just read a time in the window. -/
theorem requireRetryWindow_holds {fact : List (Event File) → Prop} (hfact : Stable fact)
    {record : JudgmentSubmission} (saved : Option JudgmentSubmission → Prop) :
    Holds (fun disk call => At rules past fact disk call ∧ saved (latest past call))
      (requireRetryWindow env record)
      (fun _ disk call => At rules past fact disk call ∧ saved (latest past call) ∧
        WithinWindow (judgmentKind rules) record call)
      (Underway (judgmentKind rules) past) := by
  refine Holds.bind (Holds.ask env.now) fun now => ?_
  have hclock : Holds
      (fun disk call => (At rules past fact disk call ∧ saved (latest past call)) ∧
        ∃ tick, env.now tick = now)
      (emit (.clock now) : JudgmentCall File PUnit)
      (fun _ disk call => At rules past fact disk call ∧ saved (latest past call) ∧
        ∃ before, call = before ++ [.clock now])
      (Underway (judgmentKind rules) past) := by
    refine Holds.emit ?_
    rintro disk call ⟨⟨hat, hsaved⟩, -⟩
    refine ⟨⟨hat.1.observe rfl rfl trivial, hfact _ _ rfl hat.2⟩, ?_, call, rfl⟩
    have hrecords : written (past.flatten ++ (call ++ [.clock now])) =
        written (past.flatten ++ call) := by
      rw [← List.append_assoc, written_concat]
      exact List.append_nil _
    unfold latest
    rw [hrecords]
    exact hsaved
  refine Holds.bind hclock fun _ => ?_
  refine (Holds.ensure fun disk call hp => hp.1.1).weaken (fun _ _ hp => hp)
    fun _ disk call hp => ?_
  obtain ⟨⟨hat, hsaved, before, hbefore⟩, hwindow⟩ := hp
  exact ⟨hat, hsaved, before, now, hbefore, hwindow⟩

/-- An answer is accepted as it is; what it says of the operation is persisted. -/
theorem accept_holds (hformat : rules.format.Lawful) {fact : List (Event File) → Prop}
    (hfact : Stable fact) {record : JudgmentSubmission} {result : JudgmentTransportResult}
    (hphase : record.phase ≠ .resolved) :
    Holds (At rules past fact) (accept rules env record result)
      (fun accepted disk call => At rules past fact disk call ∧ accepted = result)
      (Underway (judgmentKind rules) past) := by
  refine Holds.bind (Holds.ensure fun _ _ hp => hp.1) fun _ =>
    Holds.bind (Holds.ensure fun _ _ hp => hp.1.1) fun _ => ?_
  refine Holds.bind (Holds.onlyIf (S := At rules past fact) ?_ fun _ _ _ hp => hp.1.1) fun _ =>
    Holds.bind (Holds.onlyIf (S := At rules past fact) ?_ fun _ _ _ hp => hp) fun _ =>
      Holds.bind (requireSubmissionActor_holds fun _ _ hp => hp.1) fun _ =>
        Holds.pure fun _ _ hp => ⟨hp, rfl⟩
  · intro _
    refine Holds.bind ((transition_holds hformat hfact (forward_uncertain hphase)).weaken
      (fun _ _ hp => hp.1.1) fun _ _ _ hp => hp) fun _ => Holds.pure fun _ _ hp => hp.1
  · intro _
    exact Holds.bind (transition_holds hformat hfact (forward_resolved hphase result)) fun _ =>
      Holds.pure fun _ _ hp => hp.1

/-- What is transmitted is the uncertain record that the file holds. -/
theorem transmit_holds {record : JudgmentSubmission} (hphase : record.phase = .uncertain) :
    Holds (fun disk call => At rules past (Cleared rules past) disk call ∧
        latest past call = some record ∧ WithinWindow (judgmentKind rules) record call)
      (transmit env record) (fun _ => Underway (judgmentKind rules) past)
      (Underway (judgmentKind rules) past) := by
  refine Holds.bind Holds.readDisk fun saved => ?_
  have hsend : Holds
      (fun disk call => (At rules past (Cleared rules past) disk call ∧
        latest past call = some record ∧ WithinWindow (judgmentKind rules) record call) ∧
          saved = disk)
      (emit (.transmitted record saved) : JudgmentCall File PUnit)
      (fun _ => Underway (judgmentKind rules) past) (Underway (judgmentKind rules) past) := by
    refine Holds.emit ?_
    rintro disk call ⟨⟨hat, hlast, hwindow⟩, rfl⟩
    exact hat.1.transmit hlast hphase hwindow hat.2
  have hanswer : ∀ answer, Holds (Underway (judgmentKind rules) past)
      (emit (.answered answer) : JudgmentCall File PUnit)
      (fun _ => Underway (judgmentKind rules) past) (Underway (judgmentKind rules) past) :=
    fun answer => Holds.emit fun _ _ hp => hp.observe rfl rfl trivial
  refine Holds.bind hsend fun _ => Holds.bind (Holds.ask env.submit) fun answer =>
    Holds.bind ((hanswer answer).weaken (fun _ _ hp => hp.1) fun _ _ _ hp => hp) fun _ => ?_
  cases answer with
  | none => exact Holds.throw fun _ _ hp => hp
  | some result => exact Holds.pure fun _ _ hp => hp

/-- A cleared send: the intent is persisted, the window is checked again, and the payload is
transmitted at most once. -/
theorem send_holds (hformat : rules.format.Lawful) {record : JudgmentSubmission}
    (hphase : record.phase ≠ .resolved) :
    Holds (At rules past (Cleared rules past)) (send rules env record)
      (fun _ => Underway (judgmentKind rules) past) (Underway (judgmentKind rules) past) := by
  have hfirst : Holds (At rules past (Cleared rules past)) (requireRetryWindow env record)
      (fun _ => At rules past (Cleared rules past)) (Underway (judgmentKind rules) past) :=
    (requireRetryWindow_holds stable_cleared fun _ => True).weaken
      (fun _ _ hp => ⟨hp, trivial⟩) fun _ _ _ hp => hp.1
  refine Holds.bind hfirst fun _ => Holds.bind
    (transition_holds hformat stable_cleared (forward_uncertain hphase)) fun uncertain =>
      Holds.of_fact (fun _ _ hp => hp.2.1) fun heq => ?_
  subst heq
  have huncertain : Phase.uncertain ≠ .resolved := by decide
  have haccept : ∀ result, Holds
      (fun disk call => Underway (judgmentKind rules) past disk call ∧
        JudgmentTransportResult.status result ≠ .absent)
      (accept rules env { record with phase := .uncertain } result)
      (fun _ => Underway (judgmentKind rules) past) (Underway (judgmentKind rules) past) :=
    fun result => (accept_holds hformat (fun _ _ _ (_ : True) => trivial)
      huncertain).weaken (fun _ _ hp => ⟨hp.1, trivial⟩) fun _ _ _ hp => hp.1.1
  refine Holds.bind (requireSubmissionActor_holds fun _ _ hp => hp.1.1) fun _ =>
    Holds.bind ((requireRetryWindow_holds stable_cleared
        fun saved => saved = some { record with phase := .uncertain }).weaken
      (fun _ _ hp => ⟨hp.1, hp.2.2⟩) fun _ _ _ hp => hp) fun _ =>
      Holds.bind (transmit_holds rfl) fun result =>
        Holds.bind (Holds.ensure fun _ _ hp => hp) fun _ => haccept result

/-- A lookup changes nothing; an answer that the operation is absent clears a send. -/
theorem lookup_holds :
    Holds (Underway (judgmentKind rules) past) (lookup env)
      (fun answer => At rules past fun call =>
        answer.status = .absent → FoundAbsent (judgmentKind rules) call)
      (Underway (judgmentKind rules) past) := by
  refine Holds.bind (Holds.ask env.lookup) fun answer => ?_
  have hlookup : Holds
      (fun disk call => Underway (judgmentKind rules) past disk call ∧
        ∃ tick, env.lookup tick = answer)
      (emit (.lookedUp answer) : JudgmentCall File PUnit)
      (fun _ disk call => Underway (judgmentKind rules) past disk call ∧
        .lookedUp answer ∈ call)
      (Underway (judgmentKind rules) past) :=
    Holds.emit fun disk call hp =>
      ⟨hp.1.observe rfl rfl trivial, List.mem_append_right _ (List.mem_singleton_self _)⟩
  refine Holds.bind hlookup fun _ => ?_
  cases answer with
  | none => exact Holds.throw fun _ _ hp => hp.1
  | some result =>
      refine Holds.pure fun _ _ hp => ⟨hp.1, fun habsent => ⟨result, hp.2, ?_⟩⟩
      exact decide_eq_true habsent

/-! ## Calls -/

/-- What a call does with the record it loads: a result is returned, anything else is passed
on. -/
theorem loaded_holds {scope : SubmissionScope}
    {unresolved : JudgmentSubmission → JudgmentCall File JudgmentTransportResult}
    (hunresolved : ∀ record, record.phase ≠ .resolved →
      Holds (fun disk call => Underway (judgmentKind rules) past disk call ∧
          latest past call = some record)
        (unresolved record)
        (fun _ => Underway (judgmentKind rules) past) (Underway (judgmentKind rules) past)) :
    Holds (Underway (judgmentKind rules) past)
      (do
        requireSubmissionActor env scope.userId
        submissionLock env scope
        let record ← load rules env scope
        match record.result with
        | some result => return result
        | none => unresolved record)
      (fun _ => Underway (judgmentKind rules) past) (Underway (judgmentKind rules) past) := by
  refine Holds.bind (requireSubmissionActor_holds fun _ _ hp => hp) fun _ =>
    Holds.bind (requireSubmissionActor_holds fun _ _ hp => hp) fun _ =>
      Holds.bind load_holds fun record => ?_
  cases hresult : record.result with
  | some result => exact Holds.pure fun _ _ hp => hp.1
  | none =>
      refine Holds.of_fact (fun _ _ hp => phase_ne_resolved hp.2.2 hresult) fun hphase => ?_
      exact (hunresolved record hphase).weaken (fun _ _ hp => ⟨hp.1, hp.2.1⟩) fun _ _ _ hp => hp

theorem submitJudgment_holds (hformat : rules.format.Lawful) (scope : SubmissionScope) :
    Holds (Underway (judgmentKind rules) past) (submitJudgment rules env scope)
      (fun _ => Underway (judgmentKind rules) past) (Underway (judgmentKind rules) past) := by
  refine loaded_holds fun record hphase => Holds.bind (Holds.ensure fun _ _ hp => hp.1) fun _ =>
    (send_holds hformat hphase).weaken ?_ fun _ _ _ hp => hp
  -- A prepared record was never transmitted.
  rintro disk call ⟨⟨hunderway, hlast⟩, hprepared⟩
  exact ⟨hunderway, Or.inl (hunderway.noneSent_of_prepared hlast hprepared)⟩

theorem recoverJudgment_holds (hformat : rules.format.Lawful) (scope : SubmissionScope) :
    Holds (Underway (judgmentKind rules) past) (recoverJudgment rules env scope)
      (fun _ => Underway (judgmentKind rules) past) (Underway (judgmentKind rules) past) := by
  refine loaded_holds fun record hphase => Holds.bind
    (lookup_holds.weaken (fun _ _ hp => hp.1) fun _ _ _ hp => hp) fun answer => ?_
  exact (accept_holds hformat (fun _ _ _ (_ : True) => trivial) hphase).weaken
    (fun _ _ hp => ⟨hp.1, trivial⟩) fun _ _ _ hp => hp.1.1

theorem retryJudgment_holds (hformat : rules.format.Lawful) (scope : SubmissionScope) :
    Holds (Underway (judgmentKind rules) past) (retryJudgment rules env scope)
      (fun _ => Underway (judgmentKind rules) past) (Underway (judgmentKind rules) past) := by
  refine loaded_holds fun record hphase => Holds.bind
    (lookup_holds.weaken (fun _ _ hp => hp.1) fun _ _ _ hp => hp) fun answer => ?_
  have hfact : Stable fun call : List (Event File) =>
      answer.status = .absent → FoundAbsent (judgmentKind rules) call :=
    fun call event _ h habsent => (h habsent).concat event
  refine Holds.bind (accept_holds hformat hfact hphase) fun result =>
    Holds.of_fact (fun _ _ hp => hp.2) fun heq => ?_
  subst heq
  split
  · exact Holds.pure fun _ _ hp => hp.1.1
  · rename_i habsent
    exact (send_holds hformat hphase).weaken
      (fun _ _ hp => ⟨hp.1.1, Or.inr (hp.1.2 (not_not.mp habsent))⟩) fun _ _ _ hp => hp

/-- The first record of an operation is prepared; there is none ahead of it. -/
theorem prepareSubmission_holds (hformat : rules.format.Lawful) (scope : SubmissionScope)
    (createdAt approvedPayload : Text) :
    Holds (Underway (judgmentKind rules) past)
      (prepareSubmission rules env scope createdAt approvedPayload)
      (fun _ => Underway (judgmentKind rules) past) (Underway (judgmentKind rules) past) := by
  refine Holds.bind (requireSubmissionActor_holds fun _ _ hp => hp) fun _ =>
    Holds.bind (Holds.ensure fun _ _ hp => hp) fun _ =>
      Holds.bind (requireSubmissionActor_holds fun _ _ hp => hp.1) fun _ =>
        Holds.bind (readSubmission_holds fun _ _ hp => hp.1) fun saved =>
          Holds.bind (Holds.ensure fun _ _ hp => hp.1.1) fun _ => ?_
  refine Holds.bind (write_holds hformat (fun _ _ _ (_ : True) => trivial) ?_) fun _ =>
    Holds.pure fun _ _ hp => hp.1.1
  rintro disk call ⟨⟨⟨hunderway, -⟩, hfound, -⟩, hnone⟩
  refine ⟨⟨hunderway, trivial⟩, fun earlier hmem => ?_⟩
  have hempty : written (past.flatten ++ call) = [] :=
    List.getLast?_eq_none_iff.mp (hfound.symm.trans hnone)
  rw [hempty] at hmem
  cases hmem

/-! ## Runs -/

/-- Every call keeps the invariant, returned or stopped. -/
theorem underway_call (hformat : rules.format.Lawful) (scope : SubmissionScope)
    (request : JudgmentRequest) :
    Holds (Underway (judgmentKind rules) past) (request.call rules env scope)
      (fun _ => Underway (judgmentKind rules) past) (Underway (judgmentKind rules) past) := by
  have hdiscard : ∀ {α : Type} {x : JudgmentCall File α},
      Holds (Underway (judgmentKind rules) past) x
        (fun _ => Underway (judgmentKind rules) past) (Underway (judgmentKind rules) past) →
      Holds (Underway (judgmentKind rules) past) (do let _ ← x)
        (fun _ => Underway (judgmentKind rules) past) (Underway (judgmentKind rules) past) :=
    fun h => Holds.bind h fun _ => Holds.pure fun _ _ hp => hp
  cases request with
  | prepare createdAt payload =>
      exact hdiscard (prepareSubmission_holds hformat scope createdAt payload)
  | submit => exact hdiscard (submitJudgment_holds hformat scope)
  | recover => exact hdiscard (recoverJudgment_holds hformat scope)
  | retry => exact hdiscard (retryJudgment_holds hformat scope)

/-- The calls of a run on one submission. -/
def calls (rules : SubmissionRules File) (scope : SubmissionScope)
    (requests : List (JudgmentRequest × Surroundings)) : List (JudgmentCall File PUnit) :=
  requests.map fun request => request.1.call rules request.2 scope

/-- Over every run of calls, however they are cut off and answered, the file holds the record
written last, records only move forward, and nothing is transmitted blindly. -/
theorem judgment_never_sent_blindly (rules : SubmissionRules File)
    (hformat : rules.format.Lawful) (scope : SubmissionScope)
    (requests : List (JudgmentRequest × Surroundings)) :
    (judgmentKind rules).read (runCalls none (calls rules scope requests)).1 =
        .ok (written (runCalls none (calls rules scope requests)).2.flatten).getLast? ∧
      NeverBlind (judgmentKind rules) (runCalls none (calls rules scope requests)).2 := by
  have hsettled := settled_run (calls rules scope requests) fun x hx past => by
    obtain ⟨request, -, rfl⟩ := List.mem_map.mp hx
    exact (underway_call hformat scope request.1).weaken (fun _ _ hp => hp.1) fun _ _ _ hp => hp
  refine ⟨?_, neverBlind_of_conforms hsettled.conforms⟩
  have hsaved := hsettled.ready.saved
  rwa [List.append_nil] at hsaved

/-! ## A run -/

/-- The canonical bytes of one approved payload, with their digest. -/
def samplePayload : Text :=
  ("\x7b\"approval_mode\":\"pre_team_session\",\"base_decision_counter\":4," ++
    "\"base_generation_id\":\"01K00000000000000000000000\"," ++
    "\"content\":\x7b\"affected_decision_id\":null,\"confidence\":\"high\"," ++
    "\"decision_type\":null,\"files_affected\":[],\"operation\":\"add\"," ++
    "\"rationale\":\"Retain one identity.\",\"rejected\":[],\"resolves_questions\":[]," ++
    "\"reversibility\":null,\"title\":\"Durable identity\"\x7d," ++
    "\"payload_schema\":\"nauro.judgment_commit.pre_team.v1\"," ++
    "\"proposed_base_commit\":null\x7d").toList

def sampleDigest : Text :=
  "4ae1e9559f2a9810b494f2a021e9b7f887b0495824a5f45a96a70b61b82e75d7".toList

/-- A file of this run is its record and digest. -/
def sampleRules : SubmissionRules (JudgmentSubmission × Text) where
  canonicalPayload? bytes := if bytes = EscapedUtf8.utf8 samplePayload then some bytes else none
  sha256Hex _ := sampleDigest
  format :=
    { digest := fun _ => sampleDigest
      dump := Prod.mk
      load? := some
      size := fun _ => 2048 }

theorem sampleRules_lawful : sampleRules.format.Lawful :=
  ⟨fun _ _ => rfl⟩

def sampleScope : SubmissionScope where
  projectId := "01K00000000000000000000001".toList
  userId := "01K00000000000000000000002".toList
  operationId := "0123456789abcdef0123456789abcdef".toList

def sampleResult (status : TransportStatus) (receipt : Option Text) : JudgmentTransportResult where
  scope := sampleScope
  payloadDigest := sampleDigest
  status := status
  receiptJson := receipt

def sampleCreatedAt : Text :=
  "2026-05-20T10:00:00.000000Z".toList

/-- An answer to the send, one second after the creation; a lookup finds the operation
absent. -/
def sampleSurroundings (answer : Option JudgmentTransportResult) : Surroundings where
  activeUser _ := some sampleScope.userId
  now _ := instantOf sampleCreatedAt + 1000000
  submit _ := answer
  lookup _ := some (sampleResult .absent none)
  cut _ := false

/-- The first answer is lost; a retry sends again and learns the receipt. -/
def sampleRequests : List (JudgmentRequest × Surroundings) :=
  [(.prepare sampleCreatedAt samplePayload, sampleSurroundings none),
    (.submit, sampleSurroundings none),
    (.retry, sampleSurroundings (some (sampleResult .committed (some "receipt".toList))))]

theorem judgment_never_sent_blindly_applied :
    NeverBlind (judgmentKind sampleRules)
      (runCalls none (calls sampleRules sampleScope sampleRequests)).2 :=
  (judgment_never_sent_blindly sampleRules sampleRules_lawful sampleScope sampleRequests).2

end Judgment
end Sync
end Nauro
