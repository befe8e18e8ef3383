import Nauro.Foundation.CallLog
import Nauro.Sync.RecordFile
import Nauro.Sync.SyncState

/-!
# The transport of a push

Requests go to the service and, by presigned URL, to the object store. A failure says whether it
is worth another attempt and, for an upload, what it proves of the bytes. An origin that cannot be
trusted is not asked again.

* `adds_putViaPresignedUrl` — what an upload adds to the log.
-/

namespace Nauro
namespace Sync

open Foundation Nauro.Core

/-! ## Faults -/

inductive TransferOperation where
  | manifest
  | presign
  | get
  | put
deriving DecidableEq

inductive TransportFaultKind where
  | invalidUrl
  | unsupportedProtocol
  | poolTimeout
  | connectTimeout
  | connectError
  | tlsCertificate
  | writeTimeout
  | readTimeout
  | writeError
  | readError
  | remoteProtocol
  | httpStatus
  | invalidResponse
  | originAborted
  | unknown
deriving DecidableEq

inductive RetryClassification where
  | transient
  | expiredCandidate
  | permanent
deriving DecidableEq

inductive WriteOutcome where
  | notApplicable
  | notWritten
  | ambiguous
  | writtenUnverified
  | verified
deriving DecidableEq

structure FaultClassification where
  kind : TransportFaultKind
  retry : RetryClassification
  writeOutcome : WriteOutcome
deriving DecidableEq

structure TransferBoundaryError where
  operation : TransferOperation
  origin : Text
  kind : TransportFaultKind
  retry : RetryClassification
  writeOutcome : WriteOutcome
  status : Option Nat
deriving DecidableEq

def TransferBoundaryError.abortsOrigin (error : TransferBoundaryError) : Bool :=
  error.kind = .tlsCertificate || error.kind = .originAborted ||
    ((error.kind = .httpStatus || error.kind = .invalidResponse) &&
      error.retry = .permanent && (error.operation = .manifest || error.operation = .presign))

/-- The classes of the HTTP client's exceptions that the transport tells apart. -/
inductive ExceptionClass where
  | invalidUrl
  | unsupportedProtocol
  | poolTimeout
  | connectTimeout
  | connectError
  | writeTimeout
  | readTimeout
  | writeError
  | readError
  | remoteProtocolError
  | other
deriving DecidableEq

/-- An exception, and whether the failed check of a certificate is among its causes. -/
structure RaisedException where
  hasCertificateError : Bool
  errorClass : ExceptionClass
deriving DecidableEq

/-- `_write_outcome`. -/
def writeOutcomeOf (operation : TransferOperation) (outcome : WriteOutcome) : WriteOutcome :=
  if operation = .put then outcome else .notApplicable

def ExceptionClass.fault : ExceptionClass → TransportFaultKind
  | .invalidUrl => .invalidUrl
  | .unsupportedProtocol => .unsupportedProtocol
  | .poolTimeout => .poolTimeout
  | .connectTimeout => .connectTimeout
  | .connectError => .connectError
  | .writeTimeout => .writeTimeout
  | .readTimeout => .readTimeout
  | .writeError => .writeError
  | .readError => .readError
  | .remoteProtocolError => .remoteProtocol
  | .other => .unknown

def classifyException (error : RaisedException) (operation : TransferOperation) :
    FaultClassification :=
  if error.hasCertificateError then
    ⟨.tlsCertificate, .permanent, writeOutcomeOf operation .notWritten⟩
  else
    let kind := error.errorClass.fault
    match error.errorClass with
    | .invalidUrl | .unsupportedProtocol => ⟨kind, .permanent, writeOutcomeOf operation .notWritten⟩
    | .poolTimeout | .connectTimeout | .connectError =>
        ⟨kind, .transient, writeOutcomeOf operation .notWritten⟩
    | .writeTimeout | .readTimeout | .writeError | .readError | .remoteProtocolError =>
        ⟨kind, .transient, writeOutcomeOf operation .ambiguous⟩
    | .other => ⟨kind, .permanent, writeOutcomeOf operation .ambiguous⟩

def transientStatuses : List Nat := [429, 500, 502, 503, 504]
def expiredStatus : Nat := 403

def classifyStatus (status : Nat) (operation : TransferOperation) : FaultClassification :=
  let retry : RetryClassification :=
    if status = expiredStatus ∧ (operation = .get ∨ operation = .put) then .expiredCandidate
    else if status ∈ transientStatuses then .transient
    else .permanent
  let outcome : WriteOutcome :=
    if operation ≠ .put then .notApplicable
    else if 400 ≤ status ∧ status < 500 then .notWritten
    else .ambiguous
  ⟨.httpStatus, retry, outcome⟩

/-! ## Requests -/

/-- What the client makes of a request: a status with a body, or an exception. -/
inductive HttpAnswer (B : Type) where
  | response (status : Nat) (body : B)
  | raised (error : RaisedException)
deriving DecidableEq

structure PresignedUrl where
  verb : Text
  path : Text
  url : Text
deriving DecidableEq

structure FetchedObject where
  body : Bytes
  etag : Text
deriving DecidableEq

structure PutResult where
  etag : Text
  outcome : WriteOutcome
deriving DecidableEq

/-- The exceptions that a request ends with. -/
inductive TransferFault where
  | boundary (error : TransferBoundaryError)
  | objectTooLarge
  | authRefresh
  | writerCredential
deriving DecidableEq

/-- The sync state on the disk, and the origins that are not asked again. -/
structure PushDisk where
  persisted : SyncState
  trippedOrigins : List Text

/-- What a push does for a path. -/
inductive PushEvent where
  | put (path url : Text) (payload : Bytes) (answer : HttpAnswer Text)
  | remint (path : Text)
  | fetched (path : Text) (found : FetchedObject)
deriving DecidableEq

/-- What the surroundings answer at each tick. An unreadable row of a presign body is `none`, and
so is a body without rows; a manifest row has the path that it names, if any; a download ends
with its body and etag, `none` for one that is too large. -/
structure PushAnswers where
  hasToken : Nat → Bool
  refreshed : Nat → Bool
  writerReady : Nat → Bool
  presign : Nat → HttpAnswer (Option (List (Option PresignedUrl)))
  manifestPages : Nat → Nat
  manifest : Nat → HttpAnswer (Option (List (Option Text)))
  download : Nat → HttpAnswer (Option (Bytes × Text))
  upload : Nat → HttpAnswer Text
  readFile : Nat → Option Bytes
  saved : Nat → Bool
  now : Nat → Text

/-- What a push takes from libraries and from its configuration. -/
structure PushRules where
  apiUrl : Text
  canonicalOrigin : Text → Text
  sha256Hex : Bytes → Text

inductive PushStop where
  | raised (fault : TransferFault)
  | saveFailed
deriving DecidableEq

abbrev PushCall := Session.Call PushDisk PushEvent PushStop

variable (rules : PushRules) (answers : PushAnswers)

def trip (url : Text) : PushCall PUnit := do
  let disk ← Session.readDisk
  Session.replaceDisk
    { disk with trippedOrigins := rules.canonicalOrigin url :: disk.trippedOrigins }

/-- The error of an origin that is not asked again. -/
def originAborted (url : Text) (operation : TransferOperation) : TransferBoundaryError :=
  ⟨operation, rules.canonicalOrigin url, .originAborted, .permanent,
    writeOutcomeOf operation .notWritten, none⟩

def guardOrigin (url : Text) (operation : TransferOperation) :
    PushCall (Except TransferFault PUnit) := do
  let disk ← Session.readDisk
  if rules.canonicalOrigin url ∈ disk.trippedOrigins then
    return .error (.boundary (originAborted rules url operation))
  else
    return .ok ⟨⟩

/-- The error of an exception. -/
def exceptionError (url : Text) (operation : TransferOperation) (raised : RaisedException) :
    TransferBoundaryError :=
  let classification := classifyException raised operation
  ⟨operation, rules.canonicalOrigin url, classification.kind, classification.retry,
    classification.writeOutcome, none⟩

/-- `boundary_error`: an untrusted certificate trips the origin. -/
def boundaryError {A : Type} (url : Text) (operation : TransferOperation)
    (raised : RaisedException) : PushCall (Except TransferFault A) := do
  let error := exceptionError rules url operation raised
  Session.onlyIf (error.kind = .tlsCertificate) (trip rules url)
  return .error (.boundary error)

/-- Raise the error, and trip the origin if the error aborts it. -/
def raiseTripping {A : Type} (url : Text) (error : TransferBoundaryError) :
    PushCall (Except TransferFault A) := do
  Session.onlyIf (error.abortsOrigin = true) (trip rules url)
  return .error (.boundary error)

/-- The error of a status. -/
def statusFailure (url : Text) (operation : TransferOperation) (status : Nat) :
    TransferBoundaryError :=
  let classification := classifyStatus status operation
  ⟨operation, rules.canonicalOrigin url, classification.kind, classification.retry,
    classification.writeOutcome, some status⟩

/-- `_status_error`. -/
def statusError {A : Type} (url : Text) (operation : TransferOperation) (status : Nat) :
    PushCall (Except TransferFault A) :=
  raiseTripping rules url (statusFailure rules url operation status)

/-- `_invalid_response`. -/
def invalidResponse {A : Type} (url : Text) (operation : TransferOperation) (status : Nat) :
    PushCall (Except TransferFault A) :=
  raiseTripping rules url ⟨operation, rules.canonicalOrigin url, .invalidResponse, .permanent,
    writeOutcomeOf operation .ambiguous, some status⟩

/-- `_get`, `_post`, `_put`: one request to an origin that may be asked. -/
def sendRequest {B : Type} (url : Text) (operation : TransferOperation)
    (answer : PushCall (HttpAnswer B)) : PushCall (Except TransferFault (Nat × B)) :=
  Session.orFail (guardOrigin rules url operation) fun _ => do
    match ← answer with
    | .raised error => boundaryError rules url operation error
    | .response status body => return .ok (status, body)

/-- `with_token_refresh`. -/
def withTokenRefresh {B : Type} (request : PushCall (Except TransferFault (Nat × B))) :
    PushCall (Except TransferFault (Nat × B)) := do
  if ← Session.ask answers.hasToken then
    Session.orFail request fun response => do
      if response.1 ≠ 401 then
        return .ok response
      else if ← Session.ask answers.refreshed then
        request
      else
        return .error .authRefresh
  else
    return .error .authRefresh

def presignBatchLimit : Nat := 200
def presignEndpoint : Text := rules.apiUrl ++ "/sync/presign".toList
def manifestEndpoint : Text := rules.apiUrl ++ "/sync/manifest".toList

/-- The rows of one answer of the service. -/
def serviceRows {Row : Type} (url : Text) (operation : TransferOperation)
    (answer : Nat → HttpAnswer (Option (List Row))) : PushCall (Except TransferFault (List Row)) :=
  Session.orFail (withTokenRefresh answers (sendRequest rules url operation (Session.ask answer)))
    fun response =>
      if response.1 ≠ 200 then statusError rules url operation response.1
      else
        match response.2 with
        | none => invalidResponse rules url operation response.1
        | some rows => return .ok rows

/-- The requests of `request_presigned_urls`, a batch at a time. -/
def presignBatches : List (List Text) → PushCall (Except TransferFault (List (Option PresignedUrl)))
  | [] => return .ok []
  | _ :: batches =>
      Session.orFail (serviceRows rules answers (presignEndpoint rules) .presign answers.presign)
        fun urls => Session.orFail (presignBatches batches) fun more => return .ok (urls ++ more)

def putVerb : Text := "PUT".toList
def getVerb : Text := "GET".toList

def requestPresignedUrls (verb : Text) (paths : List Text) :
    PushCall (Except TransferFault (List (Option PresignedUrl))) := do
  if paths = [] then
    return .ok []
  else if verb ≠ putVerb then
    presignBatches rules answers (paths.toChunks presignBatchLimit)
  else if ← Session.ask answers.writerReady then
    presignBatches rules answers (paths.toChunks presignBatchLimit)
  else
    return .error .writerCredential

/-- `urls_by_path`: the last readable row for a path counts. -/
def urlsByPath (entries : List (Option PresignedUrl)) (verb : Text) : Table Text Text :=
  entries.foldl (fun usable entry =>
    match entry with
    | none => usable
    | some parsed => if parsed.verb = verb then usable.put parsed.path parsed.url else usable) .empty

def manifestPage : PushCall (Except TransferFault (List (Option Text))) :=
  serviceRows rules answers (manifestEndpoint rules) .manifest answers.manifest

/-- The loop of `fetch_manifest`: so many pages lead to another one, and the page after them to
none. -/
def manifestFrom : Nat → PushCall (Except TransferFault (List (Option Text)))
  | 0 => manifestPage rules answers
  | pages + 1 =>
      Session.orFail (manifestPage rules answers) fun files =>
        Session.orFail (manifestFrom pages) fun more => return .ok (files ++ more)

def fetchManifest : PushCall (Except TransferFault (List (Option Text))) := do
  manifestFrom rules answers (← Session.ask answers.manifestPages)

/-- `fetch_via_presigned_url`. -/
def fetchViaPresignedUrl (path url : Text) : PushCall (Except TransferFault FetchedObject) :=
  Session.orFail (sendRequest rules url .get (Session.ask answers.download)) fun response => do
    if response.1 ≠ 200 then
      statusError rules url .get response.1
    else
      match response.2 with
      | none => return .error .objectTooLarge
      | some (body, etag) =>
          Session.emit (.fetched path ⟨body, strip etag⟩)
          return .ok ⟨body, strip etag⟩

/-- What the client does with an upload, for the record. -/
def sendUpload (path url : Text) (payload : Bytes) : PushCall (HttpAnswer Text) := do
  let answer ← Session.ask answers.upload
  Session.emit (.put path url payload answer)
  return answer

def putResult (etag : Text) : PutResult :=
  ⟨strip etag, if strip etag ≠ [] then .verified else .writtenUnverified⟩

/-- `put_via_presigned_url`. -/
def putViaPresignedUrl (path url : Text) (payload : Bytes) :
    PushCall (Except TransferFault PutResult) :=
  Session.orFail (sendRequest rules url .put (sendUpload answers path url payload)) fun response =>
    if ¬ (200 ≤ response.1 ∧ response.1 < 300) then statusError rules url .put response.1
    else return .ok (putResult response.2)

/-! ## What the requests do -/

/-- The answers that prove an upload was not written: no connection was made, or the store refused
the request. -/
def NotWritten : HttpAnswer Text → Prop
  | .raised error => error.hasCertificateError = true ∨
      error.errorClass ∈ [.invalidUrl, .unsupportedProtocol, .poolTimeout, .connectTimeout,
        .connectError]
  | .response status _ => 400 ≤ status ∧ status < 500

instance (answer : HttpAnswer Text) : Decidable (NotWritten answer) :=
  match answer with
  | .raised _ => inferInstanceAs (Decidable (_ ∨ _))
  | .response _ _ => inferInstanceAs (Decidable (_ ∧ _))

/-- A request that leaves the sync state and the log of a push as they were. -/
abbrev IsSilent {A : Type} (x : PushCall A) : Prop :=
  Session.Silent PushDisk.persisted x

open Session (Silent Adds)

variable {rules answers} {A B : Type}

theorem silent_trip (url : Text) : IsSilent (trip rules url) :=
  Silent.changeDisk fun _ => rfl

theorem adds_boundaryError (url : Text) (operation : TransferOperation)
    (raised : RaisedException) :
    Adds PushDisk.persisted (boundaryError rules url operation raised : PushCall (Except TransferFault A))
      fun outcome log => log = [] ∧
        outcome = .error (.boundary (exceptionError rules url operation raised)) :=
  Silent.bind_adds (Silent.onlyIf (silent_trip url)) fun _ => Adds.pure ⟨rfl, rfl⟩

theorem adds_raiseTripping (url : Text) (error : TransferBoundaryError) :
    Adds PushDisk.persisted (raiseTripping rules url error : PushCall (Except TransferFault A))
      fun outcome log => log = [] ∧ outcome = .error (.boundary error) :=
  Silent.bind_adds (Silent.onlyIf (silent_trip url)) fun _ => Adds.pure ⟨rfl, rfl⟩

theorem silent_raiseTripping (url : Text) (error : TransferBoundaryError) :
    IsSilent (raiseTripping rules url error : PushCall (Except TransferFault A)) :=
  Adds.weaken (adds_raiseTripping url error) fun _ _ h => h.1

/-- What a request to an origin ends with, given the answer. -/
def requestOutcome (rules : PushRules) (url : Text) (operation : TransferOperation) :
    HttpAnswer B → Except TransferFault (Nat × B)
  | .raised error => .error (.boundary (exceptionError rules url operation error))
  | .response status body => .ok (status, body)

/-- A request that is not aborted ends as its answer says. -/
theorem adds_sendRequest (url : Text) (operation : TransferOperation)
    {answer : PushCall (HttpAnswer B)} {N : HttpAnswer B → List PushEvent → Prop}
    (hanswer : Adds PushDisk.persisted answer N) :
    Adds PushDisk.persisted (sendRequest rules url operation answer) fun outcome log =>
      (log = [] ∧ outcome = .error (.boundary (originAborted rules url operation))) ∨
        ∃ found, N found log ∧ outcome = requestOutcome rules url operation found := by
  have hguard : Adds PushDisk.persisted (guardOrigin rules url operation) fun outcome log =>
      log = [] ∧ ∀ failure, outcome = .error failure →
        failure = .boundary (originAborted rules url operation) := by
    refine Silent.bind_adds Silent.readDisk fun disk => ?_
    split
    · refine Adds.pure ⟨rfl, fun failure h => ?_⟩
      injection h with h
      exact h.symm
    · exact Adds.pure ⟨rfl, fun failure h => by cases h⟩
  refine Adds.orFail hguard ?_ fun _ front hfront => ?_
  · rintro failure log ⟨hlog, hfailure⟩
    exact Or.inl ⟨hlog, by rw [hfailure failure rfl]⟩
  · rw [hfront.1]
    refine Adds.bind hanswer fun found added hadded => ?_
    cases found with
    | raised error =>
        refine Adds.weaken (adds_boundaryError url operation error) ?_
        rintro outcome log ⟨rfl, houtcome⟩
        rw [List.append_nil]
        exact Or.inr ⟨.raised error, hadded, houtcome⟩
    | response status body =>
        refine Adds.pure ?_
        rw [List.append_nil]
        exact Or.inr ⟨.response status body, hadded, rfl⟩

theorem silent_sendRequest (url : Text) (operation : TransferOperation)
    {answer : PushCall (HttpAnswer B)} (hanswer : IsSilent answer) :
    IsSilent (sendRequest rules url operation answer) := by
  refine Adds.weaken (adds_sendRequest url operation hanswer) ?_
  rintro outcome log (⟨hlog, -⟩ | ⟨found, hlog, -⟩)
  · exact hlog
  · exact hlog

theorem silent_withTokenRefresh {request : PushCall (Except TransferFault (Nat × B))}
    (hrequest : IsSilent request) : IsSilent (withTokenRefresh answers request) := by
  refine Silent.bind (Adds.ask fun _ => rfl) fun hasToken => ?_
  split
  · refine Silent.orFail hrequest fun response => ?_
    split
    · exact Adds.pure rfl
    · refine Silent.bind (Adds.ask fun _ => rfl) fun refreshed => ?_
      split
      · exact hrequest
      · exact Adds.pure rfl
  · exact Adds.pure rfl

theorem silent_serviceRows {Row : Type} (url : Text) (operation : TransferOperation)
    (answer : Nat → HttpAnswer (Option (List Row))) :
    IsSilent (serviceRows rules answers url operation answer) := by
  have hrequest : IsSilent (sendRequest rules url operation (Session.ask answer)) :=
    silent_sendRequest url operation (Adds.ask fun _ => rfl)
  refine Silent.orFail (silent_withTokenRefresh hrequest) fun response => ?_
  split
  · exact silent_raiseTripping url _
  · split
    · exact silent_raiseTripping url _
    · exact Adds.pure rfl

theorem silent_presignBatches (batches : List (List Text)) :
    IsSilent (presignBatches rules answers batches) := by
  induction batches with
  | nil => exact Adds.pure rfl
  | cons batch rest ih =>
      exact Silent.orFail (silent_serviceRows _ _ _) fun urls =>
        Silent.orFail ih fun more => Adds.pure rfl

theorem silent_requestPresignedUrls (verb : Text) (paths : List Text) :
    IsSilent (requestPresignedUrls rules answers verb paths) := by
  unfold requestPresignedUrls
  split
  · exact Adds.pure rfl
  · split
    · exact silent_presignBatches _
    · refine Silent.bind (Adds.ask fun _ => rfl) fun ready => ?_
      split
      · exact silent_presignBatches _
      · exact Adds.pure rfl

theorem silent_manifestFrom (pages : Nat) : IsSilent (manifestFrom rules answers pages) := by
  induction pages with
  | zero => exact silent_serviceRows _ _ _
  | succ pages ih =>
      exact Silent.orFail (silent_serviceRows _ _ _) fun files =>
        Silent.orFail ih fun more => Adds.pure rfl

theorem silent_fetchManifest : IsSilent (fetchManifest rules answers) :=
  Silent.bind (Adds.ask fun _ => rfl) fun pages => silent_manifestFrom pages

/-- A download adds at most what it found. -/
theorem adds_fetchViaPresignedUrl (path url : Text) :
    Adds PushDisk.persisted (fetchViaPresignedUrl rules answers path url) fun outcome log =>
      match outcome with
      | .ok found => log = [.fetched path found]
      | .error _ => log = [] := by
  have hrequest : IsSilent (sendRequest rules url .get (Session.ask answers.download)) :=
    silent_sendRequest url .get (Adds.ask fun _ => rfl)
  refine Adds.orFail hrequest (fun _ _ h => h) fun response front hfront => ?_
  rw [hfront]
  split
  · refine Adds.weaken (adds_raiseTripping url _) ?_
    rintro outcome log ⟨hlog, rfl⟩
    exact hlog
  · split
    · exact Adds.pure rfl
    · refine Adds.bind Adds.emit fun _ added hadded => Adds.pure ?_
      rw [hadded]
      rfl

/-- What an upload that was sent ends with, given the answer. -/
def uploadOutcome (rules : PushRules) (url : Text) :
    HttpAnswer Text → Except TransferFault PutResult
  | .raised error => .error (.boundary (exceptionError rules url .put error))
  | .response status etag =>
      if ¬ (200 ≤ status ∧ status < 300) then
        .error (.boundary (statusFailure rules url .put status))
      else .ok (putResult etag)

/-- An upload is sent once, unless the origin is aborted. -/
theorem adds_putViaPresignedUrl (path url : Text) (payload : Bytes) :
    Adds PushDisk.persisted (putViaPresignedUrl rules answers path url payload)
      fun outcome log =>
        (log = [] ∧ outcome = .error (.boundary (originAborted rules url .put))) ∨
          ∃ answer, log = [.put path url payload answer] ∧
            outcome = uploadOutcome rules url answer := by
  have hsend : Adds PushDisk.persisted (sendUpload answers path url payload)
      fun answer log => log = [.put path url payload answer] := by
    refine Silent.bind_adds (Adds.ask fun _ => rfl) fun answer => ?_
    refine Adds.bind Adds.emit fun _ added hadded => Adds.pure ?_
    rw [hadded]
    rfl
  refine Adds.orFail (adds_sendRequest url .put hsend) ?_ fun response front hfront => ?_
  · rintro failure log (⟨hlog, houtcome⟩ | ⟨answer, hlog, houtcome⟩)
    · exact Or.inl ⟨hlog, by rw [Except.error.inj houtcome]⟩
    · cases answer with
      | response status etag => cases houtcome
      | raised error =>
          exact Or.inr ⟨.raised error, hlog, by rw [Except.error.inj houtcome]; rfl⟩
  · rcases hfront with ⟨-, houtcome⟩ | ⟨answer, rfl, houtcome⟩
    · cases houtcome
    · cases answer with
      | raised error => cases houtcome
      | response status etag =>
          rw [Except.ok.inj houtcome]
          by_cases hstatus : 200 ≤ status ∧ status < 300
          · rw [if_neg (not_not_intro hstatus)]
            refine Adds.pure (Or.inr ⟨.response status etag, rfl, ?_⟩)
            rw [uploadOutcome, if_neg (not_not_intro hstatus)]
          · rw [if_pos hstatus]
            refine Adds.weaken (adds_raiseTripping url _) ?_
            rintro outcome log ⟨rfl, houtcome⟩
            refine Or.inr ⟨.response status etag, rfl, ?_⟩
            rw [houtcome, uploadOutcome, if_pos hstatus]

theorem notWritten_of_exception {error : RaisedException}
    (h : (classifyException error .put).writeOutcome = .notWritten) :
    NotWritten (.raised error) := by
  obtain ⟨hasCertificateError, errorClass⟩ := error
  cases hasCertificateError with
  | true => exact Or.inl rfl
  | false =>
      refine Or.inr ?_
      revert h
      cases errorClass <;> decide

theorem notWritten_of_status {status : Nat} (etag : Text)
    (h : (classifyStatus status .put).writeOutcome = .notWritten) :
    NotWritten (.response status etag) := by
  unfold classifyStatus at h
  dsimp only at h
  rw [if_neg (not_not_intro rfl)] at h
  split_ifs at h with hrange
  exact hrange

/-- An error that says so proves that the upload was not written. -/
theorem notWritten_of_uploadOutcome {url : Text} {answer : HttpAnswer Text}
    {error : TransferBoundaryError} (h : uploadOutcome rules url answer = .error (.boundary error))
    (hnot : error.writeOutcome = .notWritten) : NotWritten answer := by
  cases answer with
  | raised raised =>
      injection h with h
      injection h with h
      rw [← h] at hnot
      exact notWritten_of_exception hnot
  | response status etag =>
      rw [uploadOutcome] at h
      split_ifs at h with hstatus
      injection h with h
      injection h with h
      rw [← h] at hnot
      exact notWritten_of_status etag hnot

/-- A result is that of an answer in which the store took the bytes. -/
theorem written_of_uploadOutcome {url : Text} {answer : HttpAnswer Text} {result : PutResult}
    (h : uploadOutcome rules url answer = .ok result) :
    ∃ status etag, answer = .response status etag ∧ 200 ≤ status ∧ status < 300 ∧
      result = putResult etag := by
  cases answer with
  | raised raised => cases h
  | response status etag =>
      rw [uploadOutcome] at h
      split_ifs at h with hstatus
      exact ⟨status, etag, rfl, hstatus.1, hstatus.2, (Except.ok.inj h).symm⟩

end Sync
end Nauro
