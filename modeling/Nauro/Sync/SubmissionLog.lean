import Nauro.Foundation.Session
import Nauro.Sync.RecordFile

/-!
# Logs of submission calls

The calls on one saved submission are serialised by its lock, so what they do is one log: a
list of calls, each with its events in order. `protocol` says which event may come next: a
record only moves forward, and a payload is transmitted only while the record on disk is
uncertain, inside the retry window, and either for the first time or after a lookup of the same
call answered that the operation is absent. It is the same for every kind of submission, but
for what a kind asks of the records it writes (`Kind.mayWrite`).
-/

namespace Nauro
namespace Sync
namespace SubmissionLog

open Foundation Foundation.Session Nauro.Core

/-- What a call does. A transmission shows the file as it was at that moment; an answer that
was lost is `none`. -/
inductive Event (Record Answer File : Type) where
  | wrote (record : Record)
  | clock (now : Instant)
  | lookedUp (answer : Option Answer)
  | transmitted (record : Record) (saved : Option File)
  | answered (answer : Option Answer)

variable {Record Answer Identity File : Type}

abbrev Log (Record Answer File : Type) := List (Event Record Answer File)

/-- What the protocol knows of a kind of submission. -/
structure Kind (Record Answer Identity File : Type) where
  format : RecordFormat Record File
  check : Record → Bool
  /-- What never changes: the operation, its payload and its creation time. -/
  identity : Record → Identity
  createdAt : Record → Text
  phase : Record → Phase
  result : Record → Option Answer
  isAbsent : Answer → Bool
  /-- What else must be so to write a record after these calls and events. -/
  mayWrite : List (Log Record Answer File) → Log Record Answer File → Record → Prop

/-! ## Reading a log -/

def Event.written? : Event Record Answer File → Option Record
  | .wrote record => some record
  | _ => none

/-- The records a log wrote, in order. -/
def written (log : Log Record Answer File) : List Record :=
  log.filterMap Event.written?

def Event.isTransmission : Event Record Answer File → Bool
  | .transmitted _ _ => true
  | _ => false

/-- Nothing was transmitted. -/
def NoneSent (log : Log Record Answer File) : Prop :=
  ∀ event ∈ log, event.isTransmission = false

theorem written_concat (log : Log Record Answer File) (event : Event Record Answer File) :
    written (log ++ [event]) = written log ++ event.written?.toList := by
  unfold written
  rw [List.filterMap_append]
  cases event <;> rfl

theorem noneSent_concat {log : Log Record Answer File} {event : Event Record Answer File}
    (h : NoneSent log) (hevent : event.isTransmission = false) : NoneSent (log ++ [event]) := by
  intro other hmem
  rcases List.mem_append.mp hmem with hold | hnew
  · exact h other hold
  · rw [List.mem_singleton.mp hnew]
    exact hevent

variable (kind : Kind Record Answer Identity File)

/-- A record moves forward: the same operation, no earlier phase, and a result for good. -/
structure Forward (earlier later : Record) : Prop where
  identity : kind.identity later = kind.identity earlier
  phase : (kind.phase earlier).rank ≤ (kind.phase later).rank
  result : kind.phase earlier = .resolved → kind.result later = kind.result earlier

/-- A lookup of the call answered that the operation is absent. -/
def FoundAbsent (call : Log Record Answer File) : Prop :=
  ∃ answer, .lookedUp (some answer) ∈ call ∧ kind.isAbsent answer = true

/-- The last thing the call did is to read a time inside the retry window of the record. -/
def WithinWindow (record : Record) (call : Log Record Answer File) : Prop :=
  ∃ before now, call = before ++ [.clock now] ∧
    inRetryWindow (kind.createdAt record) now = true

variable {kind}

theorem Forward.refl (record : Record) : Forward kind record record :=
  ⟨rfl, Nat.le_refl _, fun _ => rfl⟩

theorem eq_resolved_of_rank_le {earlier later : Phase} (h : earlier.rank ≤ later.rank)
    (hresolved : earlier = .resolved) : later = .resolved := by
  subst hresolved
  cases later with
  | prepared => exact absurd h (by decide)
  | uncertain => exact absurd h (by decide)
  | resolved => rfl

theorem eq_prepared_of_rank_le {earlier later : Phase} (h : earlier.rank ≤ later.rank)
    (hprepared : later = .prepared) : earlier = .prepared := by
  subst hprepared
  cases earlier with
  | prepared => rfl
  | uncertain => exact absurd h (by decide)
  | resolved => exact absurd h (by decide)

theorem Forward.trans {first second third : Record} (h : Forward kind first second)
    (h' : Forward kind second third) : Forward kind first third where
  identity := h'.identity.trans h.identity
  phase := Nat.le_trans h.phase h'.phase
  result hresolved :=
    (h'.result (eq_resolved_of_rank_le h.phase hresolved)).trans (h.result hresolved)

theorem FoundAbsent.concat {call : Log Record Answer File} (h : FoundAbsent kind call)
    (event : Event Record Answer File) : FoundAbsent kind (call ++ [event]) := by
  obtain ⟨answer, hmem, habsent⟩ := h
  exact ⟨answer, List.mem_append_left _ hmem, habsent⟩

/-! ## The protocol -/

variable [DecidableEq File]

/-- The record of a file. -/
def Kind.read (kind : Kind Record Answer Identity File) (file : Option File) :
    Except FileFault (Option Record) :=
  readRecord kind.format kind.check file

variable (kind) in
/-- What must be so when a record is transmitted. -/
structure MaySend (past : List (Log Record Answer File)) (call : Log Record Answer File)
    (record : Record) (saved : Option File) : Prop where
  saved : kind.read saved = .ok (some record)
  uncertain : kind.phase record = .uncertain
  unresolved : ∀ earlier ∈ written (past.flatten ++ call), kind.phase earlier ≠ .resolved
  window : WithinWindow kind record call
  cleared : NoneSent (past.flatten ++ call) ∨ FoundAbsent kind call

/-- Which event may come next. -/
def protocol (kind : Kind Record Answer Identity File) : Rule (Event Record Answer File) :=
  fun past call event =>
    match event with
    | .wrote record =>
        (∀ earlier ∈ written (past.flatten ++ call), Forward kind earlier record) ∧
          kind.mayWrite past call record
    | .transmitted record saved => MaySend kind past call record saved
    | _ => True

/-! ## The invariant of a call -/

/-- A call under way, after the calls of `past`: its events follow the protocol, the file holds
the record written last, and no record that was ever written is ahead of it. -/
structure Underway (kind : Kind Record Answer Identity File)
    (past : List (Log Record Answer File)) (disk : Option File)
    (call : Log Record Answer File) : Prop where
  conforms : CallConforms (protocol kind) past call
  saved : kind.read disk = .ok (written (past.flatten ++ call)).getLast?
  latest : ∀ record, (written (past.flatten ++ call)).getLast? = some record →
    ∀ earlier ∈ written (past.flatten ++ call), Forward kind earlier record
  sent : NoneSent (past.flatten ++ call) ∨
    ∃ record ∈ written (past.flatten ++ call), kind.phase record ≠ .prepared

section Steps

variable {past : List (Log Record Answer File)} {disk : Option File}
  {call : Log Record Answer File}

/-- Clock readings, lookups and answers leave the invariant as it is. -/
theorem Underway.observe (h : Underway kind past disk call) {event : Event Record Answer File}
    (hwritten : event.written? = none) (hsent : event.isTransmission = false)
    (hallowed : protocol kind past call event) :
    Underway kind past disk (call ++ [event]) := by
  have hrecords : written (past.flatten ++ (call ++ [event])) =
      written (past.flatten ++ call) := by
    rw [← List.append_assoc, written_concat, hwritten]
    exact List.append_nil _
  refine ⟨h.conforms.concat hallowed, ?_, ?_, ?_⟩
  · rw [hrecords]
    exact h.saved
  · rw [hrecords]
    exact h.latest
  · rw [hrecords, ← List.append_assoc]
    exact h.sent.imp_left fun hnone => noneSent_concat hnone hsent

/-- Writing a record that is ahead of all earlier ones. -/
theorem Underway.write (h : Underway kind past disk call) {record : Record} {encoded : File}
    (hread : kind.read (some encoded) = .ok (some record))
    (hforward : ∀ earlier ∈ written (past.flatten ++ call), Forward kind earlier record)
    (hmay : kind.mayWrite past call record) :
    Underway kind past (some encoded) (call ++ [.wrote record]) := by
  have hrecords : written (past.flatten ++ (call ++ [.wrote record])) =
      written (past.flatten ++ call) ++ [record] := by
    rw [← List.append_assoc, written_concat]
    rfl
  refine ⟨h.conforms.concat ⟨hforward, hmay⟩, ?_, ?_, ?_⟩
  · rw [hrecords, List.getLast?_concat]
    exact hread
  · intro last hlast earlier hmem
    rw [hrecords, List.getLast?_concat] at hlast
    rw [hrecords] at hmem
    rw [← Option.some.inj hlast]
    rcases List.mem_append.mp hmem with hold | hnew
    · exact hforward earlier hold
    · rw [List.mem_singleton.mp hnew]
      exact Forward.refl record
  · rw [hrecords, ← List.append_assoc]
    rcases h.sent with hnone | ⟨other, hmem, hphase⟩
    · exact Or.inl (noneSent_concat hnone rfl)
    · exact Or.inr ⟨other, List.mem_append_left _ hmem, hphase⟩

/-- Transmitting the uncertain record of the file. -/
theorem Underway.transmit (h : Underway kind past disk call) {record : Record}
    (hlast : (written (past.flatten ++ call)).getLast? = some record)
    (hphase : kind.phase record = .uncertain) (hwindow : WithinWindow kind record call)
    (hcleared : NoneSent (past.flatten ++ call) ∨ FoundAbsent kind call) :
    Underway kind past disk (call ++ [.transmitted record disk]) := by
  have hrecords : written (past.flatten ++ (call ++ [.transmitted record disk])) =
      written (past.flatten ++ call) := by
    rw [← List.append_assoc, written_concat]
    exact List.append_nil _
  refine ⟨h.conforms.concat ⟨?_, hphase, ?_, hwindow, hcleared⟩, ?_, ?_, ?_⟩
  · rw [h.saved, hlast]
  · intro earlier hmem hresolved
    have hafter := eq_resolved_of_rank_le (h.latest record hlast earlier hmem).phase hresolved
    rw [hphase] at hafter
    cases hafter
  · rw [hrecords]
    exact h.saved
  · rw [hrecords]
    exact h.latest
  · rw [hrecords]
    refine Or.inr ⟨record, List.mem_of_getLast? hlast, ?_⟩
    rw [hphase]
    decide

/-- While the record of the file is prepared, nothing was transmitted. -/
theorem Underway.noneSent_of_prepared (h : Underway kind past disk call) {record : Record}
    (hlast : (written (past.flatten ++ call)).getLast? = some record)
    (hphase : kind.phase record = .prepared) : NoneSent (past.flatten ++ call) := by
  rcases h.sent with hnone | ⟨other, hmem, hother⟩
  · exact hnone
  · exact absurd (eq_prepared_of_rank_le (h.latest record hlast other hmem).phase hphase) hother

end Steps

/-! ## Whole logs -/

/-- Between calls: the log follows the protocol, and a call may begin. -/
structure Settled (kind : Kind Record Answer Identity File) (disk : Option File)
    (past : List (Log Record Answer File)) : Prop where
  conforms : Conforms (protocol kind) past
  ready : Underway kind past disk []

theorem settled_nil : Settled kind none [] :=
  ⟨conforms_nil, callConforms_nil, rfl, fun _ h => absurd h (by simp [written]),
    Or.inl fun _ hmem => absurd hmem (by simp)⟩

/-- A call that keeps the invariant ends in a settled log. -/
theorem Settled.concat {disk disk' : Option File} {past : List (Log Record Answer File)}
    {call : Log Record Answer File} (h : Settled kind disk past)
    (hcall : Underway kind past disk' call) : Settled kind disk' (past ++ [call]) := by
  have hflatten : (past ++ [call]).flatten ++ [] = past.flatten ++ call := by simp
  refine ⟨h.conforms.concat hcall.conforms, callConforms_nil, ?_, ?_, ?_⟩
  · rw [hflatten]
    exact hcall.saved
  · rw [hflatten]
    exact hcall.latest
  · rw [hflatten]
    exact hcall.sent

/-- A run of calls that keep the invariant leaves a settled log. -/
theorem settled_run {ε α : Type}
    (xs : List (Call (Option File) (Event Record Answer File) ε α))
    (hkeeps : ∀ x ∈ xs, ∀ past, Holds (fun disk call => Underway kind past disk call ∧ call = [])
      x (fun _ => Underway kind past) (Underway kind past)) :
    Settled kind (runCalls none xs).1 (runCalls none xs).2 := by
  have hrun := runCalls_induction (J := Settled kind) (fun x hx disk past h =>
    h.concat ((hkeeps x hx past).runCall ⟨h.ready, rfl⟩)) (fun _ hx => hx) settled_nil
  rwa [List.nil_append] at hrun

/-- Nothing is sent blindly: the records of a log move forward, and whatever a call transmits
is the uncertain record then on disk, before any resolution and inside the retry window, with
no transmission before it unless the call has looked the operation up and found it absent. -/
structure NeverBlind (kind : Kind Record Answer Identity File)
    (calls : List (Log Record Answer File)) : Prop where
  forward : (written calls.flatten).Pairwise (Forward kind)
  sends : ∀ earlier call later, calls = earlier ++ call :: later →
    ∀ before record saved after, call = before ++ .transmitted record saved :: after →
      MaySend kind earlier before record saved

theorem forward_of_conforms {calls : List (Log Record Answer File)}
    (h : Conforms (protocol kind) calls) : (written calls.flatten).Pairwise (Forward kind) := by
  -- Along the flattened log: what each prefix wrote is pairwise in order.
  suffices ∀ front back, calls.flatten = front ++ back →
      (written front).Pairwise (Forward kind) from this _ [] (List.append_nil _).symm
  intro front
  induction front using List.reverseRecOn with
  | nil => exact fun _ _ => List.Pairwise.nil
  | append_singleton front event ih =>
      intro back hsplit
      rw [List.append_assoc] at hsplit
      have hfront := ih _ hsplit
      rw [written_concat]
      cases hevent : event.written? with
      | none =>
          show (written front ++ []).Pairwise _
          rwa [List.append_nil]
      | some record =>
          obtain ⟨earlier, call, later, before, after, hcalls, hcall, hbefore⟩ :=
            split_of_flatten hsplit
          have hallowed := h earlier call later hcalls before event after hcall
          cases event with
          | wrote written =>
              cases hevent
              rw [hbefore]
              show (SubmissionLog.written _ ++ [record]).Pairwise _
              rw [List.pairwise_append]
              rw [hbefore] at hfront
              refine ⟨hfront, List.pairwise_singleton _ _, ?_⟩
              intro other hother last hlast
              rw [List.mem_singleton.mp hlast]
              exact hallowed.1 other hother
          | clock _ => cases hevent
          | lookedUp _ => cases hevent
          | transmitted _ _ => cases hevent
          | answered _ => cases hevent

theorem neverBlind_of_conforms {calls : List (Log Record Answer File)}
    (h : Conforms (protocol kind) calls) : NeverBlind kind calls where
  forward := forward_of_conforms h
  sends earlier call later hcalls before record saved after hcall :=
    h earlier call later hcalls before (.transmitted record saved) after hcall

end SubmissionLog
end Sync
end Nauro
