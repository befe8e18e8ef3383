import Nauro.Sync.QuestionSubmission

/-!
# Terminal refusals of questions are truthful

Every call on a question record follows the protocol of submissions, wherever it is cut off and
whatever its surroundings answer; and it writes a refusal that ends the submission only after
the one transmission of the payload, which found the record prepared.

* `terminal_refusals_truthful` — the property of whole runs.
-/

namespace Nauro
namespace Sync
namespace Question

open Foundation Foundation.Session Nauro.Core SubmissionLog

variable {File : Type} {rules : QuestionRules File} {env : Surroundings}
  {past : List (List (Event File))}

/-- The record the file holds, as the log tells it. -/
def latest (past : List (List (Event File))) (call : List (Event File)) :
    Option QuestionSubmission :=
  (written (past.flatten ++ call)).getLast?

/-- Clock readings and writes. -/
def isQuiet : Event File → Bool
  | .wrote _ => true
  | .clock _ => true
  | _ => false

theorem not_transmission_of_quiet {event : Event File} (h : isQuiet event = true) :
    event.isTransmission = false := by
  cases event with
  | transmitted _ _ => cases h
  | _ => rfl

theorem not_lookup_of_quiet {event : Event File} (h : isQuiet event = true) :
    isLookup event = false := by
  cases event with
  | lookedUp _ => cases h
  | _ => rfl

/-- What may still be said of a call after a clock reading or a write. -/
def Stable (fact : List (Event File) → Prop) : Prop :=
  ∀ call event, isQuiet event = true → fact call → fact (call ++ [event])

variable [DecidableEq File]

/-- The invariant of a call, with a fact about its events; no answer was lost. -/
structure At (rules : QuestionRules File) (past : List (List (Event File)))
    (fact : List (Event File) → Prop) (disk : Option File) (call : List (Event File)) :
    Prop where
  underway : Underway (questionKind rules) past disk call
  notLost : ∀ event ∈ call, isLost event = false
  holds : fact call

omit [DecidableEq File] in
theorem notLost_concat {call : List (Event File)} {event : Event File}
    (h : ∀ other ∈ call, isLost other = false) (hevent : isLost event = false) :
    ∀ other ∈ call ++ [event], isLost other = false := by
  intro other hmem
  rcases List.mem_append.mp hmem with hold | hnew
  · exact h other hold
  · rw [List.mem_singleton.mp hnew]
    exact hevent

/-! ## Reading and writing -/

theorem requireActor_holds {P : Option File → List (Event File) → Prop}
    (h : ∀ disk call, P disk call → Underway (questionKind rules) past disk call) :
    Holds P (requireActor env) (fun _ => P) (Underway (questionKind rules) past) := by
  refine Holds.bind (Holds.point h) fun _ => Holds.bind (Holds.ask _) fun active => ?_
  exact (Holds.ensure fun disk call hp => h disk call hp.1).weaken (fun _ _ hp => hp)
    fun _ disk call hp => hp.1.1

/-- A read finds the record that was written last, which passes its rules. -/
theorem readQuestionSubmission_holds {P : Option File → List (Event File) → Prop}
    {scope : QuestionScope}
    (h : ∀ disk call, P disk call → Underway (questionKind rules) past disk call) :
    Holds P (readQuestionSubmission rules env scope)
      (fun found disk call => P disk call ∧ found = latest past call ∧
        ∀ record, found = some record → record.check rules.evidence = true)
      (Underway (questionKind rules) past) := by
  refine Holds.bind (requireActor_holds h) fun _ => Holds.bind Holds.readDisk fun read => ?_
  have hlatest : ∀ disk call, P disk call ∧ read = disk →
      readRecord rules.format (QuestionSubmission.check rules.evidence) read =
        .ok (latest past call) := by
    intro disk call hp
    rw [hp.2]
    exact (h disk call hp.1).saved
  split
  · exact Holds.throw fun disk call hp => h disk call hp.1
  · rename_i hread
    refine Holds.bind (requireActor_holds fun disk call hp => h disk call hp.1) fun _ =>
      Holds.pure fun disk call hp => ?_
    have heq := (hlatest disk call hp).symm.trans hread
    exact ⟨hp.1, (Except.ok.inj heq).symm, fun record hrecord => by cases hrecord⟩
  · rename_i record hread
    refine Holds.bind (Holds.ensure fun disk call hp => h disk call hp.1) fun _ =>
      Holds.bind (requireActor_holds fun disk call hp => h disk call hp.1.1) fun _ =>
        Holds.pure fun disk call hp => ?_
    have heq := (hlatest disk call hp.1).symm.trans hread
    refine ⟨hp.1.1, (Except.ok.inj heq).symm, ?_⟩
    intro other hother
    rw [← Option.some.inj hother]
    exact check_of_readRecord hread

theorem write_holds (hformat : rules.format.Lawful) {fact : List (Event File) → Prop}
    (hfact : Stable fact) {record : QuestionSubmission}
    {P : Option File → List (Event File) → Prop}
    (h : ∀ disk call, P disk call → At rules past fact disk call ∧
      (∀ earlier ∈ written (past.flatten ++ call), Forward (questionKind rules) earlier record) ∧
      Justified past call record) :
    Holds P (write rules env record)
      (fun _ disk call => At rules past fact disk call ∧ latest past call = some record)
      (Underway (questionKind rules) past) := by
  unfold write
  split
  · exact Holds.throw fun disk call hp => (h disk call hp).1.underway
  · rename_i encoded hencoded
    refine Holds.bind (Holds.point fun disk call hp => (h disk call hp).1.underway) fun _ => ?_
    have hread := readRecord_of_encodeRecord hformat hencoded
    -- The file and the log change together.
    intro s hs
    obtain ⟨hat, hforward, hjustified⟩ := h s.disk s.trace hs
    refine ⟨⟨?_, notLost_concat hat.notLost rfl, hfact _ _ rfl hat.holds⟩, ?_⟩
    · exact hat.underway.write hread hforward
        { toJustified := hjustified, notLost := hat.notLost
          accepted := ⟨encoded, hencoded, hread⟩ }
    · show (written (past.flatten ++ (s.trace ++ [.wrote record]))).getLast? = _
      rw [← List.append_assoc, written_concat]
      exact List.getLast?_concat

/-- A transition moves the record of the file forward, or stops. -/
theorem transition_holds (hformat : rules.format.Lawful) {fact : List (Event File) → Prop}
    (hfact : Stable fact) {record updated : QuestionSubmission}
    (hforward : record.phase ≠ .resolved → Forward (questionKind rules) record updated)
    (hjustified : ∀ call, fact call → Justified past call updated) :
    Holds (At rules past fact) (transition rules env record updated)
      (fun result disk call => At rules past fact disk call ∧ result = updated ∧
        latest past call = some updated)
      (Underway (questionKind rules) past) := by
  refine Holds.bind (Holds.ensure fun _ _ hp => hp.underway) fun _ =>
    Holds.bind (readQuestionSubmission_holds fun _ _ hp => hp.1.underway) fun found =>
      Holds.bind (Holds.ensure fun disk call hp => hp.1.1.underway) fun _ =>
        Holds.bind (write_holds hformat hfact fun disk call hp => ?_) fun _ =>
          Holds.pure fun disk call hp => ⟨hp.1, rfl, hp.2⟩
  obtain ⟨⟨⟨hat, hphase⟩, hfound, -⟩, hsaved⟩ := hp
  refine ⟨hat, fun earlier hmem => ?_, hjustified call hat.holds⟩
  have hlast : latest past call = some record := hfound.symm.trans hsaved
  exact (hat.underway.latest record hlast earlier hmem).trans (hforward hphase)

theorem forward_of_rank_le {record : QuestionSubmission} (h : record.phase ≠ .resolved)
    {phase : Phase} (hrank : record.phase.rank ≤ phase.rank) (result : Option QuestionResult) :
    Forward (questionKind rules) record { record with phase := phase, result := result } :=
  ⟨rfl, hrank, fun hresolved => absurd hresolved h⟩

theorem rank_le_of_ne_resolved {phase : Phase} (h : phase ≠ .resolved) :
    phase.rank ≤ Phase.uncertain.rank := by
  cases phase with
  | prepared => decide
  | uncertain => decide
  | resolved => exact absurd rfl h

omit [DecidableEq File] in
/-- An uncertain record needs no answer. -/
theorem justified_of_uncertain {call : List (Event File)} {record : QuestionSubmission}
    (h : record.phase = .uncertain) : Justified past call record := by
  refine ⟨?_, ?_, ?_⟩
  · intro hprepared
    rw [h] at hprepared
    cases hprepared
  · intro hresolved
    rw [h] at hresolved
    cases hresolved
  · intro hresolved
    rw [h] at hresolved
    cases hresolved

theorem markQuestionUncertain_holds (hformat : rules.format.Lawful)
    {fact : List (Event File) → Prop} (hfact : Stable fact) {record : QuestionSubmission} :
    Holds (At rules past fact) (markQuestionUncertain rules env record)
      (fun result disk call => At rules past fact disk call ∧
        result = { record with phase := .uncertain } ∧
        latest past call = some { record with phase := .uncertain })
      (Underway (questionKind rules) past) :=
  transition_holds hformat hfact
    (fun h => forward_of_rank_le h (rank_le_of_ne_resolved h) record.result)
    fun _ _ => justified_of_uncertain rfl

/-- What an answer needs to be recorded: a resolving one comes from this call, or is a truthful
refusal. -/
structure Answers (past : List (List (Event File))) (call : List (Event File))
    (result : QuestionResult) : Prop where
  resolving : result.unresolved = false →
    (∃ event ∈ call, answer? event = some result) ∨ Truthful past call
  refusal : result.unresolved = false → result.refusal?.isSome → Truthful past call

theorem recordQuestionResult_holds (hformat : rules.format.Lawful)
    {fact : List (Event File) → Prop} (hfact : Stable fact) {record : QuestionSubmission}
    {result : QuestionResult} (hanswers : ∀ call, fact call → Answers past call result) :
    Holds (At rules past fact) (recordQuestionResult rules env record result)
      (fun _ disk call => At rules past fact disk call ∧
        ∀ saved, latest past call = some saved → saved.phase ≠ .prepared)
      (Underway (questionKind rules) past) := by
  refine (transition_holds hformat hfact (fun hphase => ?_) fun call hcall => ?_).weaken
    (fun _ _ hp => hp) fun _ _ _ hp => ⟨hp.1, fun saved hsaved => ?_⟩
  · refine forward_of_rank_le hphase ?_ (some result)
    have hrank := rank_le_of_ne_resolved hphase
    split
    · exact hrank
    · exact Nat.le_trans hrank (by decide)
  · cases hunresolved : result.unresolved with
    | true => exact justified_of_uncertain rfl
    | false =>
        have hanswer := hanswers call hcall
        refine ⟨fun hprepared => by simp at hprepared, fun _ => ?_, ?_⟩
        · refine (hanswer.resolving hunresolved).imp_left ?_
          rintro ⟨event, hmem, hevent⟩
          exact ⟨event, hmem, result, hevent, rfl, hunresolved⟩
        · intro _ response refusal hresult
          refine hanswer.refusal hunresolved ?_
          rw [Option.some.inj hresult]
          rfl
  · rw [← Option.some.inj (hp.2.2.symm.trans hsaved)]
    show (if result.unresolved = true then Phase.uncertain else .resolved) ≠ .prepared
    split <;> decide

/-! ## Parts of a call -/

/-- A response that verifies is recorded, or the call stops. -/
theorem accept_holds (hformat : rules.format.Lawful) {fact : List (Event File) → Prop}
    (hfact : Stable fact) {record : QuestionSubmission} {result : QuestionResult} {lookup : Bool}
    (hanswers : result.check = true →
      (∀ refusal ∈ result.refusal?, refusal.requestMode = requestMode lookup) →
      ∀ call, fact call → Answers past call result) :
    Holds (At rules past fact) (accept rules env record result lookup)
      (fun accepted disk call => (At rules past fact disk call ∧
        ∀ saved, latest past call = some saved → saved.phase ≠ .prepared) ∧ accepted = result)
      (Underway (questionKind rules) past) := by
  refine Holds.bind (Holds.ensure fun _ _ hp => hp.underway) fun _ =>
    Holds.bind (Holds.ensure fun _ _ hp => hp.1.underway) fun _ =>
      Holds.bind (requireActor_holds fun _ _ hp => hp.1.1.underway) fun _ =>
        Holds.of_fact (fun _ _ hp => hp.1.2) fun hverified =>
          Holds.of_fact (fun _ _ hp => hp.2) fun hmode => ?_
  have hrecord : Holds (At rules past fact) (recordQuestionResult rules env record result)
      (fun _ disk call => At rules past fact disk call ∧
        ∀ saved, latest past call = some saved → saved.phase ≠ .prepared)
      (Underway (questionKind rules) past) :=
    recordQuestionResult_holds hformat hfact
      (hanswers (check_of_verifyQuestionResponse hverified) hmode)
  refine Holds.bind (hrecord.weaken (fun _ _ hp => hp.1.1) fun _ _ _ hp => hp) fun _ =>
    Holds.bind (requireActor_holds fun _ _ hp => hp.1.underway) fun _ =>
      Holds.pure fun _ _ hp => ⟨hp, rfl⟩

theorem load_holds {P : Option File → List (Event File) → Prop} {scope : QuestionScope}
    (h : ∀ disk call, P disk call → Underway (questionKind rules) past disk call) :
    Holds P (load rules env scope)
      (fun record disk call => P disk call ∧ latest past call = some record ∧
        record.check rules.evidence = true)
      (Underway (questionKind rules) past) := by
  refine Holds.bind (readQuestionSubmission_holds h) fun found => ?_
  cases found with
  | none => exact Holds.throw fun disk call hp => h disk call hp.1
  | some record => exact Holds.pure fun disk call hp => ⟨hp.1, hp.2.1.symm, hp.2.2 record rfl⟩

/-- Whatever the file holds, a call that passes the check has just read a time in the window. -/
theorem requireWindow_holds {fact : List (Event File) → Prop} (hfact : Stable fact)
    {record : QuestionSubmission} (saved : Option QuestionSubmission → Prop) :
    Holds (fun disk call => At rules past fact disk call ∧ saved (latest past call))
      (requireWindow env record)
      (fun _ disk call => At rules past fact disk call ∧ saved (latest past call) ∧
        WithinWindow (questionKind rules) record call)
      (Underway (questionKind rules) past) := by
  refine Holds.bind (Holds.ask env.now) fun now => ?_
  have hclock : Holds
      (fun disk call => (At rules past fact disk call ∧ saved (latest past call)) ∧
        ∃ tick, env.now tick = now)
      (emit (.clock now) : QuestionCall File PUnit)
      (fun _ disk call => At rules past fact disk call ∧ saved (latest past call) ∧
        ∃ before, call = before ++ [.clock now])
      (Underway (questionKind rules) past) := by
    refine Holds.emit ?_
    rintro disk call ⟨⟨hat, hsaved⟩, -⟩
    refine ⟨⟨hat.underway.observe rfl rfl trivial, notLost_concat hat.notLost rfl,
      hfact _ _ rfl hat.holds⟩, ?_, call, rfl⟩
    have hrecords : written (past.flatten ++ (call ++ [.clock now])) =
        written (past.flatten ++ call) := by
      rw [← List.append_assoc, written_concat]
      exact List.append_nil _
    unfold latest
    rw [hrecords]
    exact hsaved
  refine Holds.bind hclock fun _ => ?_
  refine (Holds.ensure fun disk call hp => hp.1.underway).weaken (fun _ _ hp => hp)
    fun _ disk call hp => ?_
  obtain ⟨⟨hat, hsaved, before, hbefore⟩, hwindow⟩ := hp
  exact ⟨hat, hsaved, before, now, hbefore, hwindow⟩

/-! ## Sending -/

/-- Nothing was transmitted before, or this call found the operation absent. -/
def Cleared (rules : QuestionRules File) (past : List (List (Event File)))
    (call : List (Event File)) : Prop :=
  NoneSent (past.flatten ++ call) ∨ FoundAbsent (questionKind rules) call

/-- A call that found the record prepared and has neither sent nor looked anything up. -/
structure FirstSend (past : List (List (Event File))) (call : List (Event File)) : Prop where
  noneBefore : NoneSent past.flatten
  noneSent : NoneSent call
  prepared : ∃ record, (written past.flatten).getLast? = some record ∧ record.phase = .prepared
  noLookup : ∀ event ∈ call, isLookup event = false

theorem stable_cleared : Stable (Cleared rules past) := by
  intro call event hevent h
  rcases h with hnone | habsent
  · left
    rw [← List.append_assoc]
    exact noneSent_concat hnone (not_transmission_of_quiet hevent)
  · exact Or.inr (habsent.concat event)

omit [DecidableEq File] in
theorem noLookup_concat {call : List (Event File)} {event : Event File}
    (h : ∀ other ∈ call, isLookup other = false) (hevent : isLookup event = false) :
    ∀ other ∈ call ++ [event], isLookup other = false := by
  intro other hmem
  rcases List.mem_append.mp hmem with hold | hnew
  · exact h other hold
  · rw [List.mem_singleton.mp hnew]
    exact hevent

omit [DecidableEq File] in
theorem stable_firstSend : Stable (FirstSend past) := by
  intro call event hevent h
  exact ⟨h.noneBefore, noneSent_concat h.noneSent (not_transmission_of_quiet hevent),
    h.prepared, noLookup_concat h.noLookup (not_lookup_of_quiet hevent)⟩

/-- What a send knows before it transmits. -/
def Ready (rules : QuestionRules File) (past : List (List (Event File))) (phase : Phase)
    (call : List (Event File)) : Prop :=
  Cleared rules past call ∧ (phase = .prepared → FirstSend past call)

theorem stable_ready {phase : Phase} : Stable (Ready rules past phase) :=
  fun call event hevent h => ⟨stable_cleared call event hevent h.1,
    fun hphase => stable_firstSend call event hevent (h.2 hphase)⟩

/-- What a send knows of the answer it got. -/
def Sent (past : List (List (Event File))) (phase : Phase) (answer : QuestionResult)
    (call : List (Event File)) : Prop :=
  (.answered (some answer) ∈ call) ∧
    (phase = .prepared → NoneSent past.flatten ∧
      (call.filter SubmissionLog.Event.isTransmission).length = 1 ∧
      (∃ record, (written past.flatten).getLast? = some record ∧ record.phase = .prepared) ∧
      ∀ event ∈ call, isLookup event = false)

omit [DecidableEq File] in
theorem stable_sent {phase : Phase} {answer : QuestionResult} :
    Stable (Sent past phase answer) := by
  intro call event hevent h
  refine ⟨List.mem_append_left _ h.1, fun hphase => ?_⟩
  obtain ⟨hbefore, honce, hprepared, hlookup⟩ := h.2 hphase
  refine ⟨hbefore, ?_, hprepared, noLookup_concat hlookup (not_lookup_of_quiet hevent)⟩
  have hquiet := not_transmission_of_quiet hevent
  rw [List.filter_append, List.length_append, honce, List.filter_cons_of_neg (by simp [hquiet])]
  rfl

/-- What is transmitted is the uncertain record that the file holds. -/
theorem transmit_holds {record : QuestionSubmission} {phase : Phase}
    (hphase : record.phase = .uncertain) :
    Holds (fun disk call => At rules past (Ready rules past phase) disk call ∧
        latest past call = some record ∧ WithinWindow (questionKind rules) record call)
      (transmit env record) (fun answer => At rules past (Sent past phase answer))
      (Underway (questionKind rules) past) := by
  refine Holds.bind Holds.readDisk fun saved => ?_
  have hsend : Holds
      (fun disk call => (At rules past (Ready rules past phase) disk call ∧
        latest past call = some record ∧ WithinWindow (questionKind rules) record call) ∧
          saved = disk)
      (emit (.transmitted record saved) : QuestionCall File PUnit)
      (fun _ disk call => Underway (questionKind rules) past disk call ∧
        (∀ event ∈ call, isLost event = false) ∧
        ∀ answer, Sent past phase answer (call ++ [.answered (some answer)]))
      (Underway (questionKind rules) past) := by
    refine Holds.emit ?_
    rintro disk call ⟨⟨hat, hlast, hwindow⟩, rfl⟩
    refine ⟨hat.underway.transmit hlast hphase hwindow hat.holds.1,
      notLost_concat hat.notLost rfl, fun answer => ⟨by simp, fun hprepared => ?_⟩⟩
    have hfirst := hat.holds.2 hprepared
    refine ⟨hfirst.noneBefore, ?_, hfirst.prepared,
      noLookup_concat (noLookup_concat hfirst.noLookup rfl) rfl⟩
    have hnone : call.filter SubmissionLog.Event.isTransmission = [] :=
      List.filter_eq_nil_iff.mpr fun event hmem => by simp [hfirst.noneSent event hmem]
    rw [List.filter_append, List.filter_append, hnone]
    rfl
  refine Holds.bind hsend fun _ => Holds.bind (Holds.ask env.submit) fun answer => ?_
  cases answer with
  | none =>
      refine Holds.bind (Q := fun _ => Underway (questionKind rules) past)
        (Holds.emit fun disk call hp => hp.1.1.observe rfl rfl trivial) fun _ =>
          Holds.throw fun _ _ hp => hp
  | some result =>
      refine Holds.bind (Q := fun _ => At rules past (Sent past phase result))
        (Holds.emit fun disk call hp => ?_) fun _ => Holds.pure fun _ _ hp => hp
      exact ⟨hp.1.1.observe rfl rfl trivial, notLost_concat hp.1.2.1 rfl, hp.1.2.2 result⟩

/-- The result of a send is its answer, or the terminal form of a refusal from before
publication of a record that was prepared. -/
theorem conclude_holds {fact : List (Event File) → Prop} {phase : Phase}
    {answer : QuestionResult} :
    Holds (At rules past fact) (conclude phase answer)
      (fun result disk call => At rules past fact disk call ∧
        (result = answer ∨ phase = .prepared ∧ ∃ response refusal,
          answer = .refused response refusal ∧ refusal.beforePublication = true))
      (Underway (questionKind rules) past) := by
  unfold conclude
  split
  · rename_i response refusal
    split
    · rename_i hterminal
      exact Holds.bind (Holds.ensure fun _ _ hp => hp.underway) fun _ =>
        Holds.pure fun _ _ hp =>
          ⟨hp.1, Or.inr ⟨hterminal.1, response, refusal, rfl, hterminal.2⟩⟩
    · exact Holds.pure fun _ _ hp => ⟨hp, Or.inl rfl⟩
  · exact Holds.pure fun _ _ hp => ⟨hp, Or.inl rfl⟩

omit [DecidableEq File] in
/-- A send records its answer, or a truthful refusal. -/
theorem answers_of_sent {phase : Phase} {answer result : QuestionResult}
    {call : List (Event File)} (hsent : Sent past phase answer call)
    (hunresolved : ∀ refusal ∈ answer.refusal?, refusal.unresolved = true)
    (hresult : result = answer ∨ phase = .prepared ∧ ∃ response refusal,
      answer = .refused response refusal ∧ refusal.beforePublication = true) :
    Answers past call result := by
  rcases hresult with rfl | ⟨hphase, response, refusal, rfl, hbefore⟩
  · refine ⟨fun _ => Or.inl ⟨_, hsent.1, rfl⟩, fun hresolves hrefused => ?_⟩
    obtain ⟨refusal, hrefusal⟩ := Option.isSome_iff_exists.mp hrefused
    cases result with
    | refused response own =>
        have hown := hunresolved own rfl
        rw [show own.unresolved = false from hresolves] at hown
        cases hown
    | committed _ _ => cases hrefusal
    | resolutionCommitted _ _ _ => cases hrefusal
    | absent _ => cases hrefusal
    | noChangeObserved _ _ => cases hrefusal
    | unavailable _ _ => cases hrefusal
  · obtain ⟨hnone, honce, hprepared, hlookup⟩ := hsent.2 hphase
    have htruthful : Truthful past call :=
      ⟨hnone, honce, hprepared, hlookup, response, refusal, hsent.1, hbefore⟩
    exact ⟨fun _ => Or.inr htruthful, fun _ _ => htruthful⟩

theorem send_holds (hformat : rules.format.Lawful) {record : QuestionSubmission} :
    Holds (At rules past (Ready rules past record.phase)) (send rules env record)
      (fun _ => Underway (questionKind rules) past) (Underway (questionKind rules) past) := by
  have hfirst : Holds (At rules past (Ready rules past record.phase)) (requireWindow env record)
      (fun _ => At rules past (Ready rules past record.phase))
      (Underway (questionKind rules) past) :=
    (requireWindow_holds stable_ready fun _ => True).weaken
      (fun _ _ hp => ⟨hp, trivial⟩) fun _ _ _ hp => hp.1
  refine Holds.bind hfirst fun _ => Holds.bind (Holds.ask env.validateBinding) fun bound =>
    Holds.bind (Holds.ensure fun _ _ hp => hp.1.underway) fun _ =>
      Holds.bind ((markQuestionUncertain_holds hformat stable_ready).weaken
        (fun _ _ hp => hp.1.1) fun _ _ _ hp => hp) fun uncertain =>
          Holds.of_fact (fun _ _ hp => hp.2.1) fun heq => ?_
  subst heq
  refine Holds.bind (requireActor_holds fun _ _ hp => hp.1.underway) fun _ =>
    Holds.bind ((requireWindow_holds stable_ready
        fun saved => saved = some { record with phase := .uncertain }).weaken
      (fun _ _ hp => ⟨hp.1, hp.2.2⟩) fun _ _ _ hp => hp) fun _ =>
      Holds.bind (transmit_holds rfl) fun answer =>
        Holds.bind (Holds.ensure fun _ _ hp => hp.underway) fun _ =>
          Holds.of_fact (fun _ _ hp => hp.2) fun hunresolved => ?_
  refine Holds.bind (conclude_holds.weaken (fun _ _ hp => hp.1) fun _ _ _ hp => hp) fun result =>
    Holds.bind (Holds.ensure fun _ _ hp => hp.1.underway) fun _ =>
      Holds.of_fact (fun _ _ hp => hp.1.2) fun hresult => ?_
  exact (accept_holds hformat stable_sent fun _ _ call hcall =>
    answers_of_sent hcall hunresolved hresult).weaken
      (fun _ _ hp => hp.1.1) fun _ _ _ hp => hp.1.1.underway

/-! ## Looking up -/

/-- What a call knows of the answer to its lookup. -/
def Found (rules : QuestionRules File) (answer : QuestionResult) (call : List (Event File)) :
    Prop :=
  .lookedUp (some answer) ∈ call ∧
    (answer.isAbsent = true → FoundAbsent (questionKind rules) call)

theorem stable_found {answer : QuestionResult} : Stable (Found rules answer) :=
  fun _ event _ h => ⟨List.mem_append_left _ h.1, fun habsent => (h.2 habsent).concat event⟩

theorem lookup_holds {fact : List (Event File) → Prop} :
    Holds (At rules past fact) (lookup env) (fun answer => At rules past (Found rules answer))
      (Underway (questionKind rules) past) := by
  refine Holds.bind (Holds.ask env.lookup) fun answer => ?_
  cases answer with
  | none =>
      refine Holds.bind (Q := fun _ => Underway (questionKind rules) past)
        (Holds.emit fun disk call hp => hp.1.underway.observe rfl rfl trivial) fun _ =>
          Holds.throw fun _ _ hp => hp
  | some answer =>
      refine Holds.bind (Q := fun _ => At rules past (Found rules answer))
        (Holds.emit fun disk call hp => ?_) fun _ => Holds.pure fun _ _ hp => hp
      have hmem : .lookedUp (some answer) ∈ call ++ [.lookedUp (some answer)] :=
        List.mem_append_right call (List.mem_singleton_self _)
      exact ⟨hp.1.underway.observe rfl rfl trivial, notLost_concat hp.1.notLost rfl,
        hmem, fun habsent => ⟨answer, hmem, habsent⟩⟩

/-- No lookup answers with a refusal that ends the submission: the only such refusals name a
submit request. -/
theorem answers_of_found {answer : QuestionResult} (hcheck : answer.check = true)
    (hmode : ∀ refusal ∈ answer.refusal?, refusal.requestMode = requestMode true)
    {call : List (Event File)} (hfound : Found rules answer call) :
    Answers past call answer := by
  refine ⟨fun _ => Or.inl ⟨_, hfound.1, rfl⟩, fun hresolves hrefused => ?_⟩
  exfalso
  cases answer with
  | refused response refusal =>
      have hlookup : refusal.requestMode = .lookup := hmode refusal rfl
      have hunresolved : refusal.unresolved = false := hresolves
      simp [QuestionResult.check, Refusal.check, Refusal.beforePublication, hlookup,
        hunresolved] at hcheck
  | committed _ _ => cases hrefused
  | resolutionCommitted _ _ _ => cases hrefused
  | absent _ => cases hrefused
  | noChangeObserved _ _ => cases hrefused
  | unavailable _ _ => cases hrefused

/-! ## Calls -/

/-- A call that has done nothing yet. -/
def Fresh (call : List (Event File)) : Prop := call = []

/-- What a call does with the record it loads: a terminal result is returned, anything else is
passed on. -/
theorem loaded_holds {scope : QuestionScope}
    {unresolved : QuestionSubmission → QuestionCall File QuestionResult}
    (hunresolved : ∀ record,
      Holds (fun disk call => At rules past Fresh disk call ∧ latest past call = some record)
        (unresolved record)
        (fun _ => Underway (questionKind rules) past) (Underway (questionKind rules) past)) :
    Holds (At rules past Fresh)
      (do
        requireActor env
        questionSubmissionLock env
        let record ← load rules env scope
        match record.result.filter fun result => !result.unresolved with
        | some result => return result
        | none => unresolved record)
      (fun _ => Underway (questionKind rules) past) (Underway (questionKind rules) past) := by
  refine Holds.bind (requireActor_holds fun _ _ hp => hp.underway) fun _ =>
    Holds.bind (Holds.bind (requireActor_holds fun _ _ hp => hp.underway) fun _ =>
      requireActor_holds fun _ _ hp => hp.underway) fun _ =>
        Holds.bind (load_holds fun _ _ hp => hp.underway) fun record => ?_
  split
  · exact Holds.pure fun _ _ hp => hp.1.underway
  · exact (hunresolved record).weaken (fun _ _ hp => ⟨hp.1, hp.2.1⟩) fun _ _ _ hp => hp

theorem submitQuestion_holds (hformat : rules.format.Lawful) (scope : QuestionScope) :
    Holds (At rules past Fresh) (submitQuestion rules env scope)
      (fun _ => Underway (questionKind rules) past) (Underway (questionKind rules) past) := by
  refine loaded_holds fun record => Holds.bind (Holds.ensure fun _ _ hp => hp.1.underway)
    fun _ => (send_holds hformat).weaken ?_ fun _ _ _ hp => hp
  -- The record that a fresh call finds prepared was never transmitted.
  rintro disk call ⟨⟨hat, hlast⟩, hprepared⟩
  have hnone := hat.underway.noneSent_of_prepared hlast hprepared
  obtain rfl : call = [] := hat.holds
  unfold latest at hlast
  rw [List.append_nil] at hnone hlast
  refine ⟨hat.underway, hat.notLost, Or.inl (by rwa [List.append_nil]), fun _ => ?_⟩
  exact ⟨hnone, (fun _ hmem => nomatch hmem), ⟨record, hlast, hprepared⟩,
    (fun _ hmem => nomatch hmem)⟩

theorem recoverQuestion_holds (hformat : rules.format.Lawful) (scope : QuestionScope) :
    Holds (At rules past Fresh) (recoverQuestion rules env scope)
      (fun _ => Underway (questionKind rules) past) (Underway (questionKind rules) past) := by
  refine loaded_holds fun record => Holds.bind
    (lookup_holds.weaken (fun _ _ hp => hp.1) fun _ _ _ hp => hp) fun answer => ?_
  exact (accept_holds hformat stable_found fun hcheck hmode call hcall =>
    answers_of_found hcheck hmode hcall).weaken (fun _ _ hp => hp)
      fun _ _ _ hp => hp.1.1.underway

theorem retryQuestion_holds (hformat : rules.format.Lawful) (scope : QuestionScope) :
    Holds (At rules past Fresh) (retryQuestion rules env scope)
      (fun _ => Underway (questionKind rules) past) (Underway (questionKind rules) past) := by
  refine loaded_holds fun record => Holds.bind
    (lookup_holds.weaken (fun _ _ hp => hp.1) fun _ _ _ hp => hp) fun answer =>
      Holds.bind (accept_holds hformat stable_found fun hcheck hmode call hcall =>
        answers_of_found hcheck hmode hcall) fun result =>
          Holds.of_fact (fun _ _ hp => hp.2) fun heq => ?_
  subst heq
  split
  · exact Holds.pure fun _ _ hp => hp.1.1.underway
  · rename_i hpresent
    refine Holds.bind (load_holds fun _ _ hp => hp.1.1.underway) fun current =>
      (send_holds hformat).weaken ?_ fun _ _ _ hp => hp
    -- The lookup has been recorded, so the record is no longer prepared.
    rintro disk call ⟨⟨⟨hat, hrecorded⟩, -⟩, hlast, -⟩
    have habsent : result.isAbsent = true := by simpa using hpresent
    exact ⟨hat.underway, hat.notLost, Or.inr (hat.holds.2 habsent),
      fun hprepared => absurd hprepared (hrecorded current hlast)⟩

/-- The first record of a question is prepared; there is none ahead of it. -/
theorem prepareQuestionSubmission_holds (hformat : rules.format.Lawful) (scope : QuestionScope)
    (createdAt payloadJson : Text) (connection : Option Text) :
    Holds (At rules past Fresh)
      (prepareQuestionSubmission rules env scope createdAt payloadJson connection)
      (fun _ => Underway (questionKind rules) past) (Underway (questionKind rules) past) := by
  refine Holds.bind (requireActor_holds fun _ _ hp => hp.underway) fun _ =>
    Holds.bind (Holds.ensure fun _ _ hp => hp.underway) fun _ =>
      Holds.bind (Holds.bind (requireActor_holds fun _ _ hp => hp.1.underway) fun _ =>
        requireActor_holds fun _ _ hp => hp.1.underway) fun _ =>
          Holds.bind (readQuestionSubmission_holds fun _ _ hp => hp.1.underway) fun saved =>
            Holds.bind (Holds.ensure fun _ _ hp => hp.1.1.underway) fun _ => ?_
  refine Holds.bind (write_holds hformat (fun _ _ _ (_ : True) => trivial) ?_) fun _ =>
    Holds.bind (requireActor_holds fun _ _ hp => hp.1.underway) fun _ =>
      Holds.pure fun _ _ hp => hp.1.underway
  rintro disk call ⟨⟨⟨hat, -⟩, hfound, -⟩, hnone⟩
  have hempty : written (past.flatten ++ call) = [] :=
    List.getLast?_eq_none_iff.mp (hfound.symm.trans hnone)
  refine ⟨⟨hat.underway, hat.notLost, trivial⟩, fun earlier hmem => ?_, ?_⟩
  · rw [hempty] at hmem
    cases hmem
  · exact ⟨fun _ => hempty, fun h => (by cases h), fun h => (by cases h)⟩

/-! ## Runs -/

/-- Every call keeps the invariant, returned or stopped. -/
theorem underway_call (hformat : rules.format.Lawful) (scope : QuestionScope)
    (request : QuestionRequest) :
    Holds (fun disk call => Underway (questionKind rules) past disk call ∧ call = [])
      (request.call rules env scope)
      (fun _ => Underway (questionKind rules) past) (Underway (questionKind rules) past) := by
  have hdiscard : ∀ {α : Type} {x : QuestionCall File α},
      Holds (At rules past Fresh) x
        (fun _ => Underway (questionKind rules) past) (Underway (questionKind rules) past) →
      Holds (fun disk call => Underway (questionKind rules) past disk call ∧ call = [])
        (do let _ ← x)
        (fun _ => Underway (questionKind rules) past) (Underway (questionKind rules) past) := by
    intro α x h
    refine Holds.bind (h.weaken ?_ fun _ _ _ hp => hp) fun _ => Holds.pure fun _ _ hp => hp
    rintro disk call ⟨hunderway, rfl⟩
    exact ⟨hunderway, (fun _ hmem => nomatch hmem), rfl⟩
  cases request with
  | prepare createdAt payload connection =>
      exact hdiscard (prepareQuestionSubmission_holds hformat scope createdAt payload connection)
  | submit => exact hdiscard (submitQuestion_holds hformat scope)
  | recover => exact hdiscard (recoverQuestion_holds hformat scope)
  | retry => exact hdiscard (retryQuestion_holds hformat scope)

/-- The calls of a run on one submission. -/
def calls (rules : QuestionRules File) (scope : QuestionScope)
    (requests : List (QuestionRequest × Surroundings)) : List (QuestionCall File PUnit) :=
  requests.map fun request => request.1.call rules request.2 scope

/-- What a run of question calls leaves behind. The file is the record written last; every
record was allowed to be written where it was (`MayWrite`), none by a call after an answer was
lost, and none is a refusal that ends the submission after a lookup; and nothing was sent
blindly. -/
structure RefusesTruthfully (rules : QuestionRules File) (disk : Option File)
    (log : List (List (Event File))) : Prop where
  saved : (questionKind rules).read disk = .ok (written log.flatten).getLast?
  writes : ∀ earlier call later, log = earlier ++ call :: later →
    ∀ before record after, call = before ++ .wrote record :: after →
      MayWrite rules earlier before record
  lost : ∀ call ∈ log, ∀ before event after, call = before ++ event :: after →
    isLost event = true → ∀ record, .wrote record ∉ after
  lookups : ∀ call ∈ log, ∀ before event after, call = before ++ event :: after →
    isLookup event = true → ∀ record response refusal, .wrote record ∈ after →
      record.phase = .resolved → record.result ≠ some (.refused response refusal)
  neverBlind : NeverBlind (questionKind rules) log

/-- A write of a call, with what came before it. -/
theorem mayWrite_of_mem {log : List (List (Event File))}
    (h : Conforms (protocol (questionKind rules)) log) {call : List (Event File)}
    (hcall : call ∈ log) {before after : List (Event File)} {event : Event File}
    (hsplit : call = before ++ event :: after) {record : QuestionSubmission}
    (hmem : .wrote record ∈ after) :
    ∃ earlier front, event ∈ front ∧ MayWrite rules earlier front record := by
  obtain ⟨earlier, later, hlog⟩ := List.append_of_mem hcall
  obtain ⟨middle, rest, hafter⟩ := List.append_of_mem hmem
  rw [hafter] at hsplit
  have hfront : call = (before ++ event :: middle) ++ .wrote record :: rest := by
    rw [hsplit, List.append_assoc, List.cons_append]
  exact ⟨earlier, before ++ event :: middle, by simp,
    (h earlier call later hlog _ (.wrote record) rest hfront).2⟩

/-- Over every run of calls, however they are cut off and answered, a record that a refusal
resolves was transmitted once, found prepared by the call that sent it, and refused before
publication by the answer to that transmission. -/
theorem terminal_refusals_truthful (rules : QuestionRules File)
    (hformat : rules.format.Lawful) (scope : QuestionScope)
    (requests : List (QuestionRequest × Surroundings)) :
    RefusesTruthfully rules (runCalls none (calls rules scope requests)).1
      (runCalls none (calls rules scope requests)).2 := by
  have hsettled := settled_run (calls rules scope requests) fun x hx past => by
    obtain ⟨request, -, rfl⟩ := List.mem_map.mp hx
    exact underway_call hformat scope request.1
  refine ⟨?_, ?_, ?_, ?_, neverBlind_of_conforms hsettled.conforms⟩
  · have hsaved := hsettled.ready.saved
    rwa [List.append_nil] at hsaved
  · intro earlier call later hlog before record after hcall
    exact (hsettled.conforms earlier call later hlog before (.wrote record) after hcall).2
  · intro call hcall before event after hsplit hlost record hmem
    obtain ⟨earlier, front, hin, hmay⟩ :=
      mayWrite_of_mem hsettled.conforms hcall hsplit hmem
    rw [hmay.notLost event hin] at hlost
    cases hlost
  · intro call hcall before event after hsplit hlookup record response refusal hmem hphase
      hresult
    obtain ⟨earlier, front, hin, hmay⟩ :=
      mayWrite_of_mem hsettled.conforms hcall hsplit hmem
    have htruthful := hmay.refusal hphase response refusal hresult
    rw [htruthful.noLookup event hin] at hlookup
    cases hlookup

/-! ## Two runs -/

/-- The canonical bytes of one question, with their digest. -/
def samplePayload : Text :=
  "\x7b\"context\":null,\"question\":\"Which store?\",\"targets\":[]\x7d\n".toList

def sampleDigest : Text :=
  "070f10c75c5e7f68a6c9794b60afc749db981f9dced4b93caf3050f2d9a0b504".toList

/-- A file of these runs is its record and digest. -/
def sampleRules : QuestionRules (QuestionSubmission × Text) where
  evidence :=
    { readPayload? := fun raw =>
        if raw = samplePayload then some (.append "Which store?".toList none []) else none
      readReceipt? := fun _ => none
      sha256Hex := fun _ => sampleDigest
      responseSize := fun _ => 256 }
  format :=
    { digest := fun _ => sampleDigest
      dump := Prod.mk
      load? := some
      size := fun _ => 1024 }

theorem sampleRules_lawful : sampleRules.format.Lawful :=
  ⟨fun _ _ => rfl⟩

def sampleScope : QuestionScope where
  projectId := "01K00000000000000000000001".toList
  userId := "01K00000000000000000000002".toList
  operationId := "0123456789abcdef0123456789abcdef".toList

def sampleCreatedAt : Text :=
  "2026-05-20T10:00:00.000000Z".toList

/-- One second after the creation. -/
def sampleSurroundings (submit lookup : Option QuestionResult) : Surroundings where
  requireActor _ := true
  validateBinding _ := true
  now _ := instantOf sampleCreatedAt + 1000000
  submit _ := submit
  lookup _ := lookup
  cut _ := false

def sampleRefusal : QuestionResult :=
  .refused
    { scope := sampleScope, payloadDigest := sampleDigest, action := .append }
    { unresolved := true, httpStatus := 403, serverCode := "owner_required".toList
      requestMode := .submit }

/-- A question that is refused before publication. -/
theorem terminal_refusals_truthful_applied :
    RefusesTruthfully sampleRules
      (runCalls none (calls sampleRules sampleScope
        [(.prepare sampleCreatedAt samplePayload none, sampleSurroundings none none),
          (.submit, sampleSurroundings (some sampleRefusal) none)])).1
      (runCalls none (calls sampleRules sampleScope
        [(.prepare sampleCreatedAt samplePayload none, sampleSurroundings none none),
          (.submit, sampleSurroundings (some sampleRefusal) none)])).2 :=
  terminal_refusals_truthful sampleRules sampleRules_lawful sampleScope _

/-- A prepared question is looked up and the answer is lost: the record stays prepared. -/
theorem lost_lookup_stays_prepared :
    ((questionKind sampleRules).read
        (runCalls none (calls sampleRules sampleScope
          [(.prepare sampleCreatedAt samplePayload none, sampleSurroundings none none),
            (.recover, sampleSurroundings none none)])).1).toOption.map
        (fun saved => saved.map QuestionSubmission.phase) = some (some .prepared) ∧
      (runCalls none (calls sampleRules sampleScope
          [(.prepare sampleCreatedAt samplePayload none, sampleSurroundings none none),
            (.recover, sampleSurroundings none none)])).2.flatten.any isLost = true := by
  constructor
  · decide +kernel
  · decide +kernel

end Question
end Sync
end Nauro
