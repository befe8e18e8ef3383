import Nauro.Sync.QuestionContract
import Nauro.Sync.SubmissionLog

/-!
# Question submissions

A question is kept in a record before it is sent, as judgments are; but a record also keeps
what was last observed of an unresolved operation. A refusal resolves a record only when it
answers the first send of a prepared record and was made before anything was published.
-/

namespace Nauro
namespace Sync
namespace Question

open Foundation Foundation.Session Nauro.Core

/-! ## Records -/

structure QuestionSubmission where
  connection : Option Text
  scope : QuestionScope
  createdAt : Text
  payloadJson : Text
  payloadDigest : Text
  phase : Phase
  result : Option QuestionResult
deriving DecidableEq

/-- A result that ends the submission. -/
def isTerminal (result : Option QuestionResult) : Bool :=
  result.any fun result => !result.unresolved

/-- The payload is canonical and bound by its digest, a result binds the operation, and the
phase agrees with the result. -/
def QuestionSubmission.check (evidence : QuestionEvidence) (record : QuestionSubmission) :
    Bool :=
  record.scope.check && isUtcTimestamp record.createdAt && isDigest record.payloadDigest &&
    (evidence.readPayload? record.payloadJson).isSome &&
    evidence.sha256Hex (EscapedUtf8.utf8 record.payloadJson) == record.payloadDigest &&
    (record.result.all fun result =>
      verifyQuestionResponse evidence result record.scope record.payloadJson false) &&
    decide (record.phase = .resolved) == isTerminal record.result &&
    (record.phase != .prepared || record.result.isNone)

/-- The contract of responses and the spelling of records in files. -/
structure QuestionRules (File : Type) where
  evidence : QuestionEvidence
  format : RecordFormat QuestionSubmission File

variable {File : Type}

abbrev Event (File : Type) := SubmissionLog.Event QuestionSubmission QuestionResult File

/-- What never changes in a record. -/
structure Operation where
  connection : Option Text
  scope : QuestionScope
  createdAt : Text
  payloadJson : Text
  payloadDigest : Text
deriving DecidableEq

/-! ## What may be written -/

/-- The answers that reached a call. -/
def answer? : Event File → Option QuestionResult
  | .lookedUp answer => answer
  | .answered answer => answer
  | _ => none

/-- An answer that was lost. -/
def isLost : Event File → Bool
  | .lookedUp none => true
  | .answered none => true
  | _ => false

def isLookup : Event File → Bool
  | .lookedUp _ => true
  | _ => false

/-- What must be so when a record is resolved by a refusal: the payload was transmitted exactly
once, by this call, which found the record prepared and looked nothing up, and the answer to
the transmission was a refusal from before publication. -/
structure Truthful (past : List (List (Event File))) (call : List (Event File)) : Prop where
  noneBefore : SubmissionLog.NoneSent past.flatten
  once : (call.filter SubmissionLog.Event.isTransmission).length = 1
  prepared : ∃ record, (SubmissionLog.written past.flatten).getLast? = some record ∧
    record.phase = .prepared
  noLookup : ∀ event ∈ call, isLookup event = false
  answered : ∃ response refusal,
    .answered (some (.refused response refusal)) ∈ call ∧ refusal.beforePublication = true

/-- What the record itself must have to be written: only the first record is prepared, and a
resolved record has an answer of the call that resolves it, or a truthful refusal. -/
structure Justified (past : List (List (Event File))) (call : List (Event File))
    (record : QuestionSubmission) : Prop where
  first : record.phase = .prepared → SubmissionLog.written (past.flatten ++ call) = []
  resolving : record.phase = .resolved →
    (∃ event ∈ call, ∃ answer, answer? event = some answer ∧ record.result = some answer ∧
        answer.unresolved = false) ∨
      Truthful past call
  refusal : record.phase = .resolved → ∀ response refusal,
    record.result = some (.refused response refusal) → Truthful past call

/-- What must be so when a record is written: it is justified, no answer of the call was lost,
and the file it is written to is accepted again. -/
structure MayWrite (rules : QuestionRules File) [DecidableEq File]
    (past : List (List (Event File))) (call : List (Event File)) (record : QuestionSubmission) :
    Prop extends Justified past call record where
  notLost : ∀ event ∈ call, isLost event = false
  accepted : ∃ file,
    encodeRecord rules.format (QuestionSubmission.check rules.evidence) record = .ok file ∧
      readRecord rules.format (QuestionSubmission.check rules.evidence) (some file) =
        .ok (some record)

variable [DecidableEq File]

/-- Questions as the protocol of submissions sees them. -/
def questionKind (rules : QuestionRules File) :
    SubmissionLog.Kind QuestionSubmission QuestionResult Operation File where
  format := rules.format
  check := QuestionSubmission.check rules.evidence
  identity record :=
    { connection := record.connection, scope := record.scope, createdAt := record.createdAt
      payloadJson := record.payloadJson, payloadDigest := record.payloadDigest }
  createdAt := QuestionSubmission.createdAt
  phase := QuestionSubmission.phase
  result := QuestionSubmission.result
  isAbsent := QuestionResult.isAbsent
  mayWrite := MayWrite rules

/-! ## Calls -/

/-- The exceptions of the calls, with their messages. -/
inductive SubmissionError where
  | record (message : String)
  | corrupt (message : String)
  | recoveryRequired (message : String)
  | retryExpired (message : String)
  | transport (message : String)
  /-- The account is not the one of the submission, as the caller of the module decides. -/
  | actor
  /-- A value that breaks the rules of its type. -/
  | invalid
  /-- The transport raised: no answer arrived. -/
  | lost
  /-- The call was cut off. -/
  | stopped
deriving DecidableEq

/-- What answers a call. An answer that is lost is `none`. -/
structure Surroundings where
  requireActor : Nat → Bool
  validateBinding : Nat → Bool
  now : Nat → Instant
  submit : Nat → Option QuestionResult
  lookup : Nat → Option QuestionResult
  cut : Nat → Bool

abbrev QuestionCall (File α : Type) := Call (Option File) (Event File) SubmissionError α

variable (rules : QuestionRules File) (env : Surroundings)

/-- The check of the account that the caller supplies. -/
def requireActor : QuestionCall File PUnit := do
  point env.cut .stopped
  let admitted ← ask env.requireActor
  ensure (admitted = true) .actor

def readFault : FileFault → SubmissionError
  | .oversized => .corrupt "The question record exceeds its size limit."
  | .malformed => .corrupt "The question record did not verify."
  | .respelled => .corrupt "The question record encoding differs."

def readQuestionSubmission (scope : QuestionScope) :
    QuestionCall File (Option QuestionSubmission) := do
  requireActor env
  match readRecord rules.format (QuestionSubmission.check rules.evidence) (← readDisk) with
  | .error fault => throw (readFault fault)
  | .ok none => do
      requireActor env
      return none
  | .ok (some record) => do
      ensure (record.scope = scope) (.corrupt "The question record belongs to another scope.")
      requireActor env
      return some record

def writeFault : FileFault → SubmissionError
  | .oversized => .record "The question record exceeds its size limit."
  | _ => .invalid

/-- Replace the file of the record at once; a cut-off leaves the old file or the new one. -/
def write (record : QuestionSubmission) : QuestionCall File PUnit := do
  match encodeRecord rules.format (QuestionSubmission.check rules.evidence) record with
  | .error fault => throw (writeFault fault)
  | .ok encoded =>
      point env.cut .stopped
      replaceDisk (some encoded)
      emit (.wrote record)

/-- Persist a change of a record that is not resolved and still as it was read. -/
def transition (record updated : QuestionSubmission) :
    QuestionCall File QuestionSubmission := do
  ensure (record.phase ≠ .resolved)
    (.record "The saved question submission cannot make this transition.")
  let saved ← readQuestionSubmission rules env record.scope
  ensure (saved = some record)
    (.record "The saved question submission cannot make this transition.")
  write rules env updated
  return updated

def markQuestionUncertain (record : QuestionSubmission) :
    QuestionCall File QuestionSubmission :=
  transition rules env record { record with phase := .uncertain }

/-- Keep a result; one that leaves the operation unresolved leaves the record uncertain. -/
def recordQuestionResult (record : QuestionSubmission) (result : QuestionResult) :
    QuestionCall File QuestionSubmission :=
  transition rules env record
    { record with
      phase := if result.unresolved then .uncertain else .resolved
      result := some result }

def load (scope : QuestionScope) : QuestionCall File QuestionSubmission := do
  match ← readQuestionSubmission rules env scope with
  | none => throw (.record "The saved question submission is missing.")
  | some record => return record

def requireWindow (record : QuestionSubmission) : QuestionCall File PUnit := do
  let now ← ask env.now
  emit (.clock now)
  ensure (inRetryWindow record.createdAt now = true)
    (.retryExpired "The question submission is outside the resend horizon.")

/-- The mode that a refusal must name. -/
def requestMode (lookup : Bool) : RequestMode :=
  if lookup then .lookup else .submit

def accept (record : QuestionSubmission) (result : QuestionResult) (lookup : Bool) :
    QuestionCall File QuestionResult := do
  ensure
    (verifyQuestionResponse rules.evidence result record.scope record.payloadJson lookup = true)
    (.transport "The question response did not verify.")
  ensure (∀ refusal ∈ result.refusal?, refusal.requestMode = requestMode lookup)
    (.transport "The refused question request mode differs.")
  requireActor env
  let _ ← recordQuestionResult rules env record result
  requireActor env
  return result

/-- The transport is given the record; its answer may be lost. -/
def transmit (record : QuestionSubmission) : QuestionCall File QuestionResult := do
  emit (.transmitted record (← readDisk))
  let answer ← ask env.submit
  emit (.answered answer)
  match answer with
  | none => throw .lost
  | some result => return result

/-- The answer to a send, as it is recorded: a refusal from before publication of a record that
was still prepared is terminal. -/
def conclude (phase : Phase) : QuestionResult → QuestionCall File QuestionResult
  | .refused response refusal =>
      if phase = .prepared ∧ refusal.beforePublication = true then do
        let terminal := QuestionResult.refused response { refusal with unresolved := false }
        ensure (terminal.check = true) .invalid
        return terminal
      else return .refused response refusal
  | result => return result

def send (record : QuestionSubmission) : QuestionCall File QuestionResult := do
  requireWindow env record
  let bound ← ask env.validateBinding
  ensure (bound = true) .lost
  let uncertain ← markQuestionUncertain rules env record
  requireActor env
  requireWindow env uncertain
  let answer ← transmit env uncertain
  ensure (∀ refusal ∈ answer.refusal?, refusal.unresolved = true)
    (.transport "A question transport cannot supply a terminal refusal.")
  let result ← conclude record.phase answer
  ensure (result.isAbsent = false)
    (.transport "A question send cannot return an absent lookup result.")
  accept rules env uncertain result false

/-- Ask the transport about the saved operation. -/
def lookup : QuestionCall File QuestionResult := do
  let answer ← ask env.lookup
  emit (.lookedUp answer)
  match answer with
  | none => throw .lost
  | some result => return result

/-- The lock of the record is taken for the account. -/
def questionSubmissionLock : QuestionCall File PUnit := do
  requireActor env
  requireActor env

def submitQuestion (scope : QuestionScope) : QuestionCall File QuestionResult := do
  requireActor env
  questionSubmissionLock env
  let record ← load rules env scope
  match record.result.filter fun result => !result.unresolved with
  | some result => return result
  | none => do
      ensure (record.phase = .prepared)
        (.recoveryRequired "Look up the original question operation before retrying.")
      send rules env record

def recoverQuestion (scope : QuestionScope) : QuestionCall File QuestionResult := do
  requireActor env
  questionSubmissionLock env
  let record ← load rules env scope
  match record.result.filter fun result => !result.unresolved with
  | some result => return result
  | none =>
      let answer ← lookup env
      accept rules env record answer true

def retryQuestion (scope : QuestionScope) : QuestionCall File QuestionResult := do
  requireActor env
  questionSubmissionLock env
  let record ← load rules env scope
  match record.result.filter fun result => !result.unresolved with
  | some result => return result
  | none =>
      let answer ← lookup env
      let result ← accept rules env record answer true
      if result.isAbsent = false then return result
      else
        let current ← load rules env scope
        send rules env current

/-- Persist a question before any network access. The identity is generated and the creation
time is read from the clock; a payload that is not UTF-8 is refused before anything else. -/
def prepareQuestionSubmission (scope : QuestionScope) (createdAt payloadJson : Text)
    (connection : Option Text) : QuestionCall File QuestionSubmission := do
  requireActor env
  let record : QuestionSubmission :=
    { connection := connection
      scope := scope
      createdAt := createdAt
      payloadJson := payloadJson
      payloadDigest := rules.evidence.sha256Hex (EscapedUtf8.utf8 payloadJson)
      phase := .prepared
      result := none }
  ensure (record.check rules.evidence = true) .invalid
  questionSubmissionLock env
  let saved ← readQuestionSubmission rules env scope
  ensure (saved = none) (.record "The generated question identity already exists.")
  write rules env record
  requireActor env
  return record

/-- A call on one submission. -/
inductive QuestionRequest where
  | prepare (createdAt payloadJson : Text) (connection : Option Text)
  | submit
  | recover
  | retry

def QuestionRequest.call (scope : QuestionScope) (request : QuestionRequest) :
    QuestionCall File PUnit :=
  match request with
  | .prepare createdAt payloadJson connection => do
      let _ ← prepareQuestionSubmission rules env scope createdAt payloadJson connection
  | .submit => do
      let _ ← submitQuestion rules env scope
  | .recover => do
      let _ ← recoverQuestion rules env scope
  | .retry => do
      let _ ← retryQuestion rules env scope

end Question
end Sync
end Nauro
