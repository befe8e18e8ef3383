import Nauro.Sync.PushPlan
import Nauro.Sync.Transport

/-!
# A push

The candidates of a plan are uploaded one after the other. An upload is tried again only when the
failure proves that nothing was written; one of which nothing is known is looked up. Each verified
upload is recorded at once, and the report says of each path what became of it.
-/

namespace Nauro
namespace Sync

open Foundation Nauro.Core

variable (rules : PushRules) (answers : PushAnswers)

/-! ## One upload -/

/-- `_PUT_MAX_ATTEMPTS`. -/
def putMaxAttempts : Nat := 4

def TransferBoundaryError.isExpired (error : TransferBoundaryError) : Bool :=
  error.retry = .expiredCandidate && error.writeOutcome = .notWritten

def TransferBoundaryError.mayRetry (error : TransferBoundaryError) : Bool :=
  error.retry = .transient && error.writeOutcome = .notWritten

/-- The attempts of one budget, with so many left after the next one. What becomes of an expired
URL depends on the budget. -/
def putBudget (path : Text) (payload : Bytes)
    (onExpired : TransferBoundaryError → PushCall (Except TransferFault PutResult)) :
    (left : Nat) → (url : Text) → PushCall (Except TransferFault PutResult)
  | 0, url => do
      match ← putViaPresignedUrl rules answers path url payload with
      | .error (.boundary error) =>
          if error.isExpired then onExpired error else return .error (.boundary error)
      | outcome => return outcome
  | left + 1, url => do
      match ← putViaPresignedUrl rules answers path url payload with
      | .error (.boundary error) =>
          if error.isExpired then onExpired error
          else if error.mayRetry then putBudget path payload onExpired left url
          else return .error (.boundary error)
      | outcome => return outcome

/-- The second budget, with a new URL. -/
def putReminted (path : Text) (payload : Bytes) (error : TransferBoundaryError) :
    PushCall (Except TransferFault PutResult) := do
  Session.emit (.remint path)
  Session.orFail (requestPresignedUrls rules answers putVerb [path]) fun rows =>
    match (urlsByPath rows putVerb).get? path with
    | none => return .error (.boundary error)
    | some replacement =>
        putBudget rules answers path payload (fun error => return .error (.boundary error))
          (putMaxAttempts - 1) replacement

/-- `_put_frozen`. -/
def putFrozen (path initialUrl : Text) (payload : Bytes) :
    PushCall (Except TransferFault PutResult) :=
  putBudget rules answers path payload (putReminted rules answers path payload)
    (putMaxAttempts - 1) initialUrl

/-! ## What became of it -/

inductive ReconcileOutcome where
  | verified (etag : Text)
  | divergent
  | pending
deriving DecidableEq

/-- What `_reconcile` looks up. -/
def lookUp (path : Text) : PushCall (Except TransferFault (Option FetchedObject)) :=
  Session.orFail (fetchManifest rules answers) fun manifest =>
    if some path ∉ manifest then return .ok none
    else
      Session.orFail (requestPresignedUrls rules answers getVerb [path]) fun rows =>
        match (urlsByPath rows getVerb).get? path with
        | none => return .ok none
        | some url =>
            Session.orFail (fetchViaPresignedUrl rules answers path url) fun found =>
              return .ok (some found)

/-- `_reconcile`. -/
def reconcile (path payloadSha : Text) : PushCall ReconcileOutcome := do
  match ← lookUp rules answers path with
  | .error _ => return .pending
  | .ok none => return .pending
  | .ok (some found) =>
      if found.etag = [] then return .pending
      else if rules.sha256Hex found.body ≠ payloadSha then return .divergent
      else return .verified found.etag

/-- `_checkpoint`: the state in memory is changed, and saved if that succeeds. -/
def checkpoint (state : SyncState) (path payloadSha etag : Text) : PushCall (Option SyncState) := do
  let next := state.updateFile path payloadSha etag (← Session.ask answers.now)
  if ← Session.ask answers.saved then
    let disk ← Session.readDisk
    Session.replaceDisk { disk with persisted := next }
    return some next
  else
    return none

/-! ## The loop -/

/-- Where a path is listed, and whether the loop goes on. -/
inductive PathOutcome where
  | verified (state : SyncState)
  | missingUrl
  | failed
  | ambiguous
  | originAborted
  | checkpointFailed
deriving DecidableEq

/-- The path is verified once the state that says so is saved. -/
def recordVerified (state : SyncState) (path payloadSha etag : Text) : PushCall PathOutcome := do
  match ← checkpoint answers state path payloadSha etag with
  | some next => return .verified next
  | none => return .checkpointFailed

/-- The path is recorded if a look at the store verifies it. -/
def recordReconciled (state : SyncState) (path payloadSha : Text) : PushCall PathOutcome := do
  match ← reconcile rules answers path payloadSha with
  | .verified etag => recordVerified answers state path payloadSha etag
  | .divergent => return .failed
  | .pending => return .ambiguous

/-- What is done about a path whose upload has ended. A missing writer credential ends the push. -/
def settlePut (state : SyncState) (path payloadSha : Text) :
    Except TransferFault PutResult → PushCall PathOutcome
  | .error (.boundary error) =>
      if error.abortsOrigin then return .originAborted
      else if error.writeOutcome = .ambiguous then
        recordReconciled rules answers state path payloadSha
      else return .failed
  | .error .authRefresh => return .failed
  | .error .writerCredential => throw (.raised .writerCredential)
  | .error .objectTooLarge => throw (.raised .objectTooLarge)
  | .ok result =>
      if result.outcome = .writtenUnverified then
        recordReconciled rules answers state path payloadSha
      else recordVerified answers state path payloadSha result.etag

/-- One round of the loop. -/
def pushOne (urls : Table Text Text) (state : SyncState) (candidate : PushCandidate) :
    PushCall PathOutcome := do
  let path := candidate.relativePath
  match urls.get? path with
  | none => return .missingUrl
  | some [] => return .missingUrl
  | some url =>
      match ← Session.ask answers.readFile with
      | none => return .failed
      | some payload =>
          let outcome ← putFrozen rules answers path url payload
          settlePut rules answers state path (rules.sha256Hex payload) outcome

/-- One truthful partition of the paths selected for upload. -/
structure PushReport where
  planned : List Text
  verified : List Text
  missingUrls : List Text
  failed : List Text
  ambiguous : List Text
  originAborted : List Text
deriving DecidableEq

/-- The paths that the report lists, each as often as it does. -/
def PushReport.listed (report : PushReport) : List Text :=
  report.verified ++ report.missingUrls ++ report.failed ++ report.ambiguous ++
    report.originAborted

def emptyReport : PushReport := ⟨[], [], [], [], [], []⟩

/-- The loop over the candidates; the report is that of the rest of them. -/
def pushEach (urls : Table Text Text) (state : SyncState) :
    List PushCandidate → PushCall PushReport
  | [] => return emptyReport
  | candidate :: rest => do
      let path := candidate.relativePath
      match ← pushOne rules answers urls state candidate with
      | .checkpointFailed =>
          return { emptyReport with failed := (candidate :: rest).map PushCandidate.relativePath }
      | .verified next =>
          let report ← pushEach urls next rest
          return { report with verified := path :: report.verified }
      | .missingUrl =>
          let report ← pushEach urls state rest
          return { report with missingUrls := path :: report.missingUrls }
      | .failed =>
          let report ← pushEach urls state rest
          return { report with failed := path :: report.failed }
      | .ambiguous =>
          let report ← pushEach urls state rest
          return { report with ambiguous := path :: report.ambiguous }
      | .originAborted =>
          let report ← pushEach urls state rest
          return { report with originAborted := path :: report.originAborted }

/-- The report of a push that got no URLs: a fault of the service aborts it, any other fails. -/
def unmintedReport (planned : List Text) : TransferFault → PushCall PushReport
  | .authRefresh => throw (.raised .authRefresh)
  | .boundary error =>
      if error.abortsOrigin then
        return { emptyReport with planned := planned, originAborted := planned }
      else return { emptyReport with planned := planned, failed := planned }
  | _ => return { emptyReport with planned := planned, failed := planned }

/-- `_push_changed_files_locked` from the plan on. -/
def runPlan (state : SyncState) (plan : PushPlan) : PushCall PushReport := do
  let planned := plan.candidates.map PushCandidate.relativePath
  if plan.candidates = [] then
    if ← Session.ask answers.saved then
      let disk ← Session.readDisk
      Session.replaceDisk { disk with persisted := state }
      return { emptyReport with planned := planned }
    else throw .saveFailed
  else
    match ← requestPresignedUrls rules answers putVerb planned with
    | .error fault => unmintedReport planned fault
    | .ok rows =>
        let report ← pushEach rules answers (urlsByPath rows putVerb) state plan.candidates
        return { report with planned := planned }

/-- `_push_changed_files_locked`. -/
def pushChangedFilesLocked (tables : SyncTables) (tree : StoreTree) : PushCall PushReport := do
  let disk ← Session.readDisk
  runPlan rules answers disk.persisted (planPush tables rules.sha256Hex disk.persisted tree)

end Sync
end Nauro
