import Nauro.Sync.SubmissionLog

/-!
# Judgment submissions

An approved judgment is kept in a record before anything is sent. A record is prepared, then
uncertain once a send may have happened, then resolved with a terminal result. Every call on a
record holds its lock, so calls follow one another; each of them may be cut off at any of its
interactions, and its surroundings give the account that is active, the clock, and the answers
of the transport, which may be lost.
-/

namespace Nauro
namespace Sync
namespace Judgment

open Foundation Foundation.Session Nauro.Core

/-! ## Records -/

structure SubmissionScope where
  projectId : Text
  userId : Text
  operationId : Text
deriving DecidableEq

def SubmissionScope.check (scope : SubmissionScope) : Bool :=
  isUlid scope.projectId && isUlid scope.userId && isOperationId scope.operationId

inductive TransportStatus where
  | absent
  | pending
  | committed
  | stale
  | expired
  | disposed
  | conflict
deriving DecidableEq

/-- The statuses that end a submission. -/
def TransportStatus.isTerminal (status : TransportStatus) : Bool :=
  status != .absent && status != .pending

/-- Adapter-verified evidence, not an HTTP response. -/
structure JudgmentTransportResult where
  scope : SubmissionScope
  payloadDigest : Text
  status : TransportStatus
  receiptJson : Option Text
deriving DecidableEq

/-- A committed result carries verified receipt bytes, and only a committed one does. -/
def JudgmentTransportResult.check (result : JudgmentTransportResult) : Bool :=
  result.scope.check && isDigest result.payloadDigest &&
    if result.status = .committed then result.receiptJson.any fun receipt => !receipt.isEmpty
    else result.receiptJson.isNone

structure JudgmentSubmission where
  scope : SubmissionScope
  createdAt : Text
  approvedPayload : Text
  payloadDigest : Text
  phase : Phase
  result : Option JudgmentTransportResult
deriving DecidableEq

def JudgmentSubmission.payloadBytes (record : JudgmentSubmission) : Bytes :=
  EscapedUtf8.utf8 record.approvedPayload

/-- What the records rest on: the canonical bytes of a valid approved payload, the digest of
bytes, and the spelling of records in files. -/
structure SubmissionRules (File : Type) where
  canonicalPayload? : Bytes → Option Bytes
  sha256Hex : Bytes → Text
  format : RecordFormat JudgmentSubmission File

variable {File : Type}

/-- The payload keeps its canonical bytes and is bound by its digest; a resolved record has a
terminal result that binds it, any other record has none. -/
def JudgmentSubmission.check (rules : SubmissionRules File) (record : JudgmentSubmission) :
    Bool :=
  record.scope.check && isUtcTimestamp record.createdAt && isDigest record.payloadDigest &&
    record.result.all JudgmentTransportResult.check &&
    rules.canonicalPayload? record.payloadBytes == some record.payloadBytes &&
    rules.sha256Hex record.payloadBytes == record.payloadDigest &&
    if record.phase = .resolved then
      record.result.any fun result =>
        result.status.isTerminal && result.scope == record.scope &&
          result.payloadDigest == record.payloadDigest
    else record.result.isNone

/-- What never changes in a record. -/
structure Operation where
  scope : SubmissionScope
  createdAt : Text
  approvedPayload : Text
  payloadDigest : Text
deriving DecidableEq

/-- Judgments as the protocol of submissions sees them. -/
def judgmentKind (rules : SubmissionRules File) :
    SubmissionLog.Kind JudgmentSubmission JudgmentTransportResult Operation File where
  format := rules.format
  check := JudgmentSubmission.check rules
  identity record :=
    { scope := record.scope, createdAt := record.createdAt
      approvedPayload := record.approvedPayload, payloadDigest := record.payloadDigest }
  createdAt := JudgmentSubmission.createdAt
  phase := JudgmentSubmission.phase
  result := JudgmentSubmission.result
  isAbsent result := result.status = .absent
  mayWrite _ _ _ := True

/-! ## Calls -/

/-- The exceptions of the calls, with their messages. -/
inductive SubmissionError where
  | record (message : String)
  | corrupt (message : String)
  | actorMismatch (message : String)
  | recoveryRequired (message : String)
  | retryExpired (message : String)
  | protocol (message : String)
  /-- A value that breaks the rules of its type. -/
  | invalid
  /-- The transport raised: no answer arrived. -/
  | transport
  /-- The call was cut off. -/
  | stopped
deriving DecidableEq

/-- What answers a call. An answer that is lost is `none`. -/
structure Surroundings where
  activeUser : Nat → Option Text
  now : Nat → Instant
  submit : Nat → Option JudgmentTransportResult
  lookup : Nat → Option JudgmentTransportResult
  cut : Nat → Bool

abbrev Event (File : Type) :=
  SubmissionLog.Event JudgmentSubmission JudgmentTransportResult File

abbrev JudgmentCall (File α : Type) := Call (Option File) (Event File) SubmissionError α

variable [DecidableEq File] (rules : SubmissionRules File) (env : Surroundings)

def requireSubmissionActor (userId : Text) : JudgmentCall File PUnit := do
  point env.cut .stopped
  let active ← ask env.activeUser
  ensure (active = some userId)
    (.actorMismatch "The active account does not own this submission.")

def readFault : FileFault → SubmissionError
  | .oversized => .corrupt "The submission record exceeds its size bound."
  | .malformed => .corrupt "The submission record is malformed."
  | .respelled => .corrupt "The submission record encoding is invalid."

/-- Distinguish a missing record from unreadable or corrupt evidence. -/
def readSubmission (scope : SubmissionScope) :
    JudgmentCall File (Option JudgmentSubmission) := do
  requireSubmissionActor env scope.userId
  match readRecord rules.format (JudgmentSubmission.check rules) (← readDisk) with
  | .error fault => throw (readFault fault)
  | .ok none => return none
  | .ok (some record) => do
      ensure (record.scope = scope) (.corrupt "The submission belongs to another scope.")
      return some record

def writeFault : FileFault → SubmissionError
  | .oversized => .record "The submission record exceeds its size bound."
  | _ => .invalid

/-- Replace the file of the record at once; a cut-off leaves the old file or the new one. -/
def write (record : JudgmentSubmission) : JudgmentCall File PUnit := do
  match encodeRecord rules.format (JudgmentSubmission.check rules) record with
  | .error fault => throw (writeFault fault)
  | .ok encoded =>
      point env.cut .stopped
      replaceDisk (some encoded)
      emit (.wrote record)

/-- Persist a change of a record that is still as it was read. -/
def transition (record updated : JudgmentSubmission) :
    JudgmentCall File JudgmentSubmission := do
  let saved ← readSubmission rules env record.scope
  ensure (saved = some record)
    (.record "The saved submission changed before its transition.")
  write rules env updated
  return updated

/-- Persist send intent. -/
def markUncertain (record : JudgmentSubmission) : JudgmentCall File JudgmentSubmission :=
  transition rules env record { record with phase := .uncertain }

/-- Persist terminal evidence. -/
def recordResult (record : JudgmentSubmission) (result : JudgmentTransportResult) :
    JudgmentCall File JudgmentSubmission :=
  transition rules env record { record with phase := .resolved, result := some result }

def load (scope : SubmissionScope) : JudgmentCall File JudgmentSubmission := do
  requireSubmissionActor env scope.userId
  match ← readSubmission rules env scope with
  | none => throw (.record "The saved submission is missing.")
  | some record =>
      requireSubmissionActor env scope.userId
      return record

def requireRetryWindow (record : JudgmentSubmission) : JudgmentCall File PUnit := do
  let now ← ask env.now
  emit (.clock now)
  ensure (inRetryWindow record.createdAt now = true)
    (.retryExpired "The original submission is outside the retry horizon.")

def accept (record : JudgmentSubmission) (result : JudgmentTransportResult) :
    JudgmentCall File JudgmentTransportResult := do
  ensure (result.check = true) .invalid
  ensure (result.scope = record.scope ∧ result.payloadDigest = record.payloadDigest)
    (.protocol "The transport result does not bind the saved submission.")
  onlyIf (result.status = .pending ∧ record.phase = .prepared) do
    let _ ← markUncertain rules env record
  onlyIf (result.status.isTerminal = true) do
    let _ ← recordResult rules env record result
  requireSubmissionActor env record.scope.userId
  return result

/-- The transport is given the record; its answer may be lost. -/
def transmit (record : JudgmentSubmission) : JudgmentCall File JudgmentTransportResult := do
  emit (.transmitted record (← readDisk))
  let answer ← ask env.submit
  emit (.answered answer)
  match answer with
  | none => throw .transport
  | some result => return result

def send (record : JudgmentSubmission) : JudgmentCall File JudgmentTransportResult := do
  requireRetryWindow env record
  let uncertain ← markUncertain rules env record
  requireSubmissionActor env record.scope.userId
  requireRetryWindow env record
  let result ← transmit env uncertain
  ensure (result.status ≠ .absent)
    (.protocol "A send cannot return an absent lookup result.")
  accept rules env uncertain result

/-- Ask the transport about the saved operation. -/
def lookup : JudgmentCall File JudgmentTransportResult := do
  let answer ← ask env.lookup
  emit (.lookedUp answer)
  match answer with
  | none => throw .transport
  | some result => return result

/-- The lock of the record is taken for the active account. -/
def submissionLock (scope : SubmissionScope) : JudgmentCall File PUnit :=
  requireSubmissionActor env scope.userId

/-- Send a prepared item once; uncertain sends require explicit recovery. -/
def submitJudgment (scope : SubmissionScope) : JudgmentCall File JudgmentTransportResult := do
  requireSubmissionActor env scope.userId
  submissionLock env scope
  let record ← load rules env scope
  match record.result with
  | some result => return result
  | none => do
      ensure (record.phase = .prepared)
        (.recoveryRequired "Resolve the original operation before retrying.")
      send rules env record

/-- Look up the original operation without submitting any payload. -/
def recoverJudgment (scope : SubmissionScope) : JudgmentCall File JudgmentTransportResult := do
  requireSubmissionActor env scope.userId
  submissionLock env scope
  let record ← load rules env scope
  match record.result with
  | some result => return result
  | none =>
      let result ← lookup env
      accept rules env record result

/-- Resend identical bytes only after lookup proves absence and the horizon permits it. -/
def retryJudgment (scope : SubmissionScope) : JudgmentCall File JudgmentTransportResult := do
  requireSubmissionActor env scope.userId
  submissionLock env scope
  let record ← load rules env scope
  match record.result with
  | some result => return result
  | none =>
      let answer ← lookup env
      let result ← accept rules env record answer
      if result.status ≠ .absent then return result else send rules env record

/-- Persist one explicitly approved operation before any network access. The identity is
generated and the creation time is read from the clock; a payload that is not UTF-8 is refused
before anything else. -/
def prepareSubmission (scope : SubmissionScope) (createdAt approvedPayload : Text) :
    JudgmentCall File JudgmentSubmission := do
  requireSubmissionActor env scope.userId
  let record : JudgmentSubmission :=
    { scope := scope
      createdAt := createdAt
      approvedPayload := approvedPayload
      payloadDigest := rules.sha256Hex (EscapedUtf8.utf8 approvedPayload)
      phase := .prepared
      result := none }
  ensure (record.check rules = true) .invalid
  submissionLock env scope
  let saved ← readSubmission rules env scope
  ensure (saved = none) (.record "The generated submission identity already exists.")
  write rules env record
  return record

/-- A call on one submission, with its surroundings. -/
inductive JudgmentRequest where
  | prepare (createdAt approvedPayload : Text)
  | submit
  | recover
  | retry

def JudgmentRequest.call (scope : SubmissionScope) (request : JudgmentRequest) :
    JudgmentCall File PUnit :=
  match request with
  | .prepare createdAt approvedPayload => do
      let _ ← prepareSubmission rules env scope createdAt approvedPayload
  | .submit => do
      let _ ← submitJudgment rules env scope
  | .recover => do
      let _ ← recoverJudgment rules env scope
  | .retry => do
      let _ ← retryJudgment rules env scope

end Judgment
end Sync
end Nauro
