import Nauro.Core.Questions
import Nauro.Sync.RecordFile

/-!
# The result contract of question submissions

A response is believed only when it binds the operation: its scope, its payload digest, its
action, its diagnostics and its receipt. A refusal is kept as unresolved unless it can only have
been made before anything was published.
-/

namespace Nauro
namespace Sync
namespace Question

open Foundation Nauro.Core Nauro.Core.Questions

structure QuestionScope where
  projectId : Text
  userId : Text
  operationId : Text
deriving DecidableEq

def QuestionScope.check (scope : QuestionScope) : Bool :=
  isUlid scope.projectId && isUlid scope.userId && isOperationId scope.operationId

inductive QuestionPayload where
  | append (question : Text) (context : Option Text) (targets : List Text)
  | resolve (resolvedBy : Text) (targets : List Text)
deriving DecidableEq

inductive QuestionAction where
  | append
  | resolve
deriving DecidableEq

def QuestionPayload.action : QuestionPayload → QuestionAction
  | .append _ _ _ => .append
  | .resolve _ _ => .resolve

/-! ## Responses -/

/-- What every response carries. -/
structure Response where
  scope : QuestionScope
  payloadDigest : Text
  action : QuestionAction
deriving DecidableEq

structure ResolutionDiagnostics where
  requestedQuestionIds : List Text
  resolvedQuestionIds : List Text
  resolvedBy : Text
  relocatedIds : List Text
  skippedProseIds : List Text
deriving DecidableEq

/-- Whether a value is a question identifier in its canonical spelling. -/
def isTarget (value : Text) : Bool :=
  match parseQuestionId value with
  | some number => formatQuestionId number == value
  | none => isLegacyQuestionId value

def ResolutionDiagnostics.check (diagnostics : ResolutionDiagnostics) : Bool :=
  (diagnostics.requestedQuestionIds ++ diagnostics.resolvedQuestionIds ++
    diagnostics.relocatedIds ++ diagnostics.skippedProseIds).all isTarget

inductive RequestMode where
  | submit
  | lookup
deriving DecidableEq

inductive Unavailable where
  | expired
  | digestConflict
deriving DecidableEq

structure Refusal where
  unresolved : Bool
  httpStatus : Int
  serverCode : Text
  requestMode : RequestMode
deriving DecidableEq

/-- The codes a refusal of each HTTP status may carry. -/
def refusalCodes : Int → List Text
  | 400 => ["invalid_request", "payload_digest_mismatch", "submission_rejected"].map
      String.toList
  | 401 => ["authentication_required", "invalid_token"].map String.toList
  | 403 => ["insufficient_scope", "actor_mismatch", "project_not_selected", "pre_team_required",
      "owner_required", "forbidden"].map String.toList
  | 409 => ["single_writer_refused", "generation_authority_required",
      "shared_generation_authority_required", "generation_required",
      "shared_representation_required"].map String.toList
  | 413 => ["request_too_large"].map String.toList
  | _ => []

/-- The codes that the server only emits before it publishes anything. -/
def prepublicationRefusals : List Text :=
  ["authentication_required", "invalid_token", "insufficient_scope", "actor_mismatch",
    "project_not_selected", "pre_team_required", "owner_required", "single_writer_refused",
    "generation_authority_required", "shared_generation_authority_required",
    "generation_required", "shared_representation_required", "request_too_large",
    "payload_digest_mismatch", "submission_rejected"].map String.toList

/-- The server can emit other codes during post-write receipt lookup. -/
def Refusal.beforePublication (refusal : Refusal) : Bool :=
  refusal.requestMode == .submit && prepublicationRefusals.contains refusal.serverCode

/-- A refusal is known, and resolves the submission only if nothing was written. -/
def Refusal.check (refusal : Refusal) : Bool :=
  (refusalCodes refusal.httpStatus).contains refusal.serverCode &&
    (refusal.unresolved || refusal.beforePublication)

inductive QuestionResult where
  | committed (response : Response) (receiptJson : Text)
  | resolutionCommitted (response : Response) (receiptJson : Text)
      (diagnostics : ResolutionDiagnostics)
  | absent (response : Response)
  | noChangeObserved (response : Response) (diagnostics : ResolutionDiagnostics)
  | unavailable (response : Response) (status : Unavailable)
  | refused (response : Response) (refusal : Refusal)
deriving DecidableEq

namespace QuestionResult

def response : QuestionResult → Response
  | committed response _ => response
  | resolutionCommitted response _ _ => response
  | absent response => response
  | noChangeObserved response _ => response
  | unavailable response _ => response
  | refused response _ => response

def unresolved : QuestionResult → Bool
  | committed _ _ => false
  | resolutionCommitted _ _ _ => false
  | absent _ => true
  | noChangeObserved _ _ => true
  | unavailable _ _ => false
  | refused _ refusal => refusal.unresolved

def isAbsent : QuestionResult → Bool
  | absent _ => true
  | _ => false

/-- The refusal of a response, if it is one. -/
def refusal? : QuestionResult → Option Refusal
  | refused _ refusal => some refusal
  | _ => none

/-- The rules of the type of a response. -/
def check (result : QuestionResult) : Bool :=
  result.response.scope.check && isDigest result.response.payloadDigest &&
    match result with
    | committed response _ => response.action == .append
    | resolutionCommitted response _ diagnostics =>
        response.action == .resolve && diagnostics.check
    | noChangeObserved response diagnostics => response.action == .resolve && diagnostics.check
    | refused _ refusal => refusal.check
    | _ => true

end QuestionResult

/-! ## Receipts -/

inductive ReceiptDetails where
  | append (questionEventId questionCreatedAt : Text)
  | resolution (resolutionRowDigest : Text)
deriving DecidableEq

inductive ReceiptResult where
  | committed
  | resolved
deriving DecidableEq

inductive ReceiptTarget where
  | question
  | questionResolution
deriving DecidableEq

structure Receipt where
  receiptId : Text
  operationId : Text
  result : ReceiptResult
  committedAt : Text
  artifactDigest : Text
  generationId : Text
  targetKind : ReceiptTarget
  targetId : Text
  snapshotKey : Text
  snapshotDigest : Text
  details : ReceiptDetails
deriving DecidableEq

def Receipt.check (receipt : Receipt) : Bool :=
  isUlid receipt.receiptId && isUlid receipt.generationId && isUtcTimestamp receipt.committedAt &&
    isDigest receipt.artifactDigest && isDigest receipt.snapshotDigest &&
    match receipt.details with
    | .append _ _ => true
    | .resolution digest => isDigest digest

/-- What the contract rests on: the canonical reading of payloads and receipts, the digest of
texts, and the sizes of responses and receipts in bytes. -/
structure QuestionEvidence where
  readPayload? : Text → Option QuestionPayload
  readReceipt? : Text → Option Receipt
  sha256Hex : Bytes → Text
  responseSize : QuestionResult → Nat

def maxResponseBytes : Nat := 64 * 1024

def receiptLimit : QuestionPayload → Nat
  | .append _ _ _ => 8192
  | .resolve _ _ => 782

def isQuestionId (value : Text) : Bool :=
  (parseQuestionId value).any fun number => formatQuestionId number == value

/-- A receipt in its canonical bytes, of this operation and of the shape of its payload. -/
def verifyReceipt (evidence : QuestionEvidence) (raw : Text) (scope : QuestionScope)
    (payload : QuestionPayload) : Bool :=
  (EscapedUtf8.utf8 raw).length ≤ receiptLimit payload &&
    match evidence.readReceipt? raw with
    | none => false
    | some receipt =>
        receipt.check && receipt.operationId == scope.operationId &&
          receipt.snapshotKey == "generations/".toList ++ scope.projectId ++ ['/'] ++
            receipt.generationId ++ "/snapshot.json".toList &&
          match payload, receipt.details with
          | .append _ _ _, .append questionEventId questionCreatedAt =>
              receipt.result == .committed && receipt.targetKind == .question &&
                isQuestionId receipt.targetId && isUlid questionEventId &&
                questionCreatedAt == receipt.committedAt
          | .resolve _ _, .resolution _ =>
              receipt.result == .resolved && receipt.targetKind == .questionResolution &&
                isUlid receipt.targetId
          | _, _ => false

/-! ## Binding a response -/

/-- The diagnostics of a resolution answer the request; an observation of no change shows none
and never comes from a lookup. -/
def diagnosticsBind (payload : QuestionPayload) (lookup : Bool) : QuestionResult → Bool
  | .resolutionCommitted _ _ diagnostics =>
      match payload with
      | .resolve resolvedBy _ => diagnostics.resolvedBy == resolvedBy
      | .append _ _ _ => false
  | .noChangeObserved _ diagnostics =>
      match payload with
      | .resolve resolvedBy _ =>
          diagnostics.resolvedBy == resolvedBy && !lookup &&
            diagnostics.resolvedQuestionIds.isEmpty && diagnostics.relocatedIds.isEmpty
      | .append _ _ _ => false
  | _ => true

/-- Whether a local response verifies: it has the rules of its type and binds the operation. -/
def verifyQuestionResponse (evidence : QuestionEvidence) (result : QuestionResult)
    (scope : QuestionScope) (payloadJson : Text) (lookup : Bool) : Bool :=
  match evidence.readPayload? payloadJson with
  | none => false
  | some payload =>
      scope.check && evidence.responseSize result ≤ maxResponseBytes && result.check &&
        result.response.scope == scope &&
        result.response.payloadDigest == evidence.sha256Hex (EscapedUtf8.utf8 payloadJson) &&
        result.response.action == payload.action && diagnosticsBind payload lookup result &&
        match result with
        | .committed _ receiptJson => verifyReceipt evidence receiptJson scope payload
        | .resolutionCommitted _ receiptJson _ => verifyReceipt evidence receiptJson scope payload
        | _ => true

/-- A response that verifies has the rules of its type. -/
theorem check_of_verifyQuestionResponse {evidence : QuestionEvidence} {result : QuestionResult}
    {scope : QuestionScope} {payloadJson : Text} {lookup : Bool}
    (h : verifyQuestionResponse evidence result scope payloadJson lookup = true) :
    result.check = true := by
  unfold verifyQuestionResponse at h
  split at h
  · cases h
  · simp only [Bool.and_eq_true] at h
    exact h.1.1.1.1.1.2

end Question
end Sync
end Nauro
