import Nauro.Core.Parsing
import Nauro.Foundation.Session
import Nauro.Foundation.Table
import Nauro.Sync.RecordFile
import Nauro.Sync.SyncPaths
import Nauro.Sync.SyncState

/-!
# Restoring a project from the cloud

A restore downloads the files of a manifest into a staging folder beside the destination and
moves the folder onto the destination when it is complete. A record beside the staging folder
says what each staged file held, so that a later run may keep it. A run may be cut off at any
of its steps; staging and record stay for the next run, whose manifest may be another.
-/

namespace Nauro
namespace Client

open Foundation Foundation.Session Nauro.Core Nauro.Sync

/-! ## The manifest -/

structure ManifestEntry where
  path : Text
  etag : Text
  size : Option Nat
  sha256 : Option Text
deriving DecidableEq

/-- `Path(raw).parts` of a relative path. -/
def pathParts (raw : Text) : List Text :=
  (raw.splitOn '/').filter fun component => component ≠ [] ∧ component ≠ ['.']

/-- `Path(raw).as_posix()` of a relative path. -/
def asPosix (raw : Text) : Text :=
  if pathParts raw = [] then ['.'] else List.intercalate ['/'] (pathParts raw)

/-- A nonempty POSIX path that stays within the store. -/
def isManifestPath (raw : Text) : Bool :=
  !raw.isEmpty && !raw.contains '\\' && raw.head? != some '/' &&
    !(pathParts raw).contains "..".toList && asPosix raw == raw

def md5HexDigits : Nat := 32

/-- The entity tag as a content hash, when it can be one. -/
def contentMd5 (tables : SyncTables) (rawEtag : Text) : Option Text :=
  let value := lower tables.toUnicodeTables (Trim.trim (· = '"') rawEtag)
  if value.length != md5HexDigits || !value.all isLowerHex then none else some value

/-- Which check of the manifest a body failed. -/
inductive IntegrityDefect where
  | size
  | contentHash
  | hash
deriving DecidableEq

structure StagedFile where
  etag : Text
  sha256 : Text
deriving DecidableEq

/-- The staged files that a later run may trust. -/
abbrev StagingLedger := Table Text StagedFile

/-- The files of a folder by path; folders that hold no file are not kept. -/
abbrev Tree := Table Text Bytes

/-- What a restore takes from libraries: digests, the reader and the writer of its record, the
writer of the sync state, and the verdict of the doctor on a tree. -/
structure RestoreRules (File : Type) where
  tables : SyncTables
  md5Hex : Bytes → Text
  sha256Hex : Bytes → Text
  loadLedger? : File → Option StagingLedger
  dumpLedger : StagingLedger → File
  dumpState : SyncState → Bytes
  isClean : Tree → Bool

variable {File : Type} (rules : RestoreRules File)

/-- The first check that a body fails; a check whose field is absent or unusable is passed. -/
def contentDefect (content : Bytes) (entry : ManifestEntry) : Option IntegrityDefect :=
  if entry.size.any fun size => content.length != size then some .size
  else if (contentMd5 rules.tables entry.etag).any fun md5 => rules.md5Hex content != md5 then
    some .contentHash
  else if entry.sha256.any fun sha256 => rules.sha256Hex content != sha256 then some .hash
  else none

/-! ## Folders -/

/-- What occupies a path. -/
inductive Place where
  | absent
  /-- A link, a junction, or an entry that cannot be inspected. -/
  | link
  | file
  | folder (tree : Tree)
deriving DecidableEq

def Place.isLink : Place → Bool
  | .link => true
  | _ => false

def Place.tree : Place → Tree
  | .folder tree => tree
  | _ => .empty

/-- `_destination_is_available`: nothing, or a folder with nothing in it. -/
def Place.isAvailable : Place → Bool
  | .absent => true
  | .folder tree => tree.entries.isEmpty
  | _ => false

/-- What a restore works on: the destination, and the staging folder and its record beside it. -/
structure RestoreDisk (File : Type) where
  destination : Place
  staging : Place
  ledger : Option File

def RestoreDisk.withStaged (disk : RestoreDisk File) (tree : Tree) : RestoreDisk File :=
  { disk with staging := .folder tree }

inductive RestoreError where
  | unusableDestination
  | linkAtDestination
  | nonemptyDestination
  | migrationInProgress
  | busy
  | manifestFetch
  | invalidManifest
  | duplicatePath (path : Text)
  | emptyCloudRecord
  | stagingUnavailable
  | controlState
  | auditFailed
  | download (path : Text)
  | defect (defect : IntegrityDefect) (path : Text)
  | unstageable (path : Text)
  | ledgerWrite
  | incompleteRecord
  | stateWrite
  | installFailed
  /-- The run was cut off. -/
  | stopped
deriving DecidableEq

inductive RestoreEvent where
  /-- A staged file of an earlier run is kept. -/
  | kept (path : Text) (content : Bytes)
  /-- A downloaded file is staged. -/
  | accepted (path : Text) (content : Bytes)
  /-- The install step begins. -/
  | installing
deriving DecidableEq

abbrev RestoreCall (File α : Type) := Call (RestoreDisk File) RestoreEvent RestoreError α

/-- What answers a run: where it is cut off, which calls of the system fail, the server, the
random tokens and half-written contents of temporary files, and the clock. -/
structure RestoreWorld where
  cut : Nat → Bool
  fails : Nat → Bool
  /-- The destination is absolute and, unless it is the default home, canonical. -/
  usable : Bool
  manifest : Option (List ManifestEntry)
  body : Nat → Option Bytes
  token : Nat → Nat
  halfWritten : Nat → Bytes
  now : Text

/-! ## Entries that are installed -/

/-- The entries with an ordinary path, in the order of the manifest. Reserved entries are passed
over; unsafe ones are counted. A path that comes twice is an error. -/
def admitEntries : List Text → Table Text ManifestEntry → Nat → List ManifestEntry →
    Except RestoreError (Table Text ManifestEntry × Nat)
  | _, entries, skipped, [] => .ok (entries, skipped)
  | seen, entries, skipped, entry :: rest =>
      if seen.contains entry.path then .error (.duplicatePath entry.path)
      else
        match classifySyncPath rules.tables entry.path with
        | .reservedControl => admitEntries (entry.path :: seen) entries skipped rest
        | .unsafePath _ => admitEntries (entry.path :: seen) entries (skipped + 1) rest
        | .ordinary =>
            admitEntries (entry.path :: seen) (entries.put entry.path entry) skipped rest

def admittedEntries (manifest : Option (List ManifestEntry)) :
    Except RestoreError (Table Text ManifestEntry × Nat) :=
  match manifest with
  | none => .error .manifestFetch
  | some rows =>
      if rows.all fun entry => isManifestPath entry.path then
        admitEntries rules [] .empty 0 rows
      else .error .invalidManifest

/-! ## Steps -/

variable (world : RestoreWorld)

/-- A call of the system that may fail. -/
def mayFail (error : RestoreError) : RestoreCall File PUnit := do
  let failed ← ask world.fails
  ensure (failed = false) error

def staged : RestoreCall File Tree := do
  return (← readDisk).staging.tree

def putStaged (tree : Tree) : RestoreCall File PUnit := do
  replaceDisk ((← readDisk).withStaged tree)

/-- Remove one staged file. -/
def unlinkStaged (path : Text) (error : RestoreError) : RestoreCall File PUnit := do
  point world.cut .stopped
  mayFail world error
  putStaged ((← staged).erase path)

def hexDigit (n : Nat) : Char :=
  "0123456789abcdef".toList.getD (n % 16) '0'

/-- `secrets.token_hex(8)`. -/
def tokenHex (n : Nat) : Text :=
  (List.range 16).map fun i => hexDigit (n / 16 ^ i)

/-- The name of a temporary sibling. -/
def tmpName (name token : Text) : Text :=
  '.' :: (name ++ '.' :: (token ++ ".tmp".toList))

/-- The temporary sibling of a path. -/
def tmpSibling (path token : Text) : Text :=
  let components := path.splitOn '/'
  List.intercalate ['/'] (components.dropLast ++ [tmpName (components.getLastD []) token])

/-- `atomic_write_bytes` of a staged file: a temporary sibling is written and then put in place.
A token that is taken is drawn again, so a world that draws a free one answers for the draw. -/
def writeStaged (path : Text) (content : Bytes) (error : RestoreError) :
    RestoreCall File PUnit := do
  point world.cut .stopped
  let drawn ← ask world.token
  let half ← ask world.halfWritten
  let tmp := tmpSibling path (tokenHex drawn)
  let tree ← staged
  ensure (tree.get? tmp = none) .stopped
  putStaged (tree.put tmp half)
  point world.cut .stopped
  let failed ← ask world.fails
  if failed then do
    putStaged ((← staged).erase tmp)
    throw error
  else putStaged (((← staged).erase tmp).put path content)

/-- Write the record beside the staging folder at once. -/
def saveLedger (ledger : StagingLedger) : RestoreCall File StagingLedger := do
  point world.cut .stopped
  mayFail world .ledgerWrite
  replaceDisk { (← readDisk) with ledger := some (rules.dumpLedger ledger) }
  return ledger

/-- Remove the files of the staging folder one by one, and the folder when it is empty; a file
that cannot be removed is left. -/
def discardStaging : RestoreCall File PUnit := do
  (← staged).keys.forM fun path => do
    point world.cut .stopped
    let failed ← ask world.fails
    onlyIf (failed = false) do putStaged ((← staged).erase path)
  point world.cut .stopped
  let failed ← ask world.fails
  let disk ← readDisk
  onlyIf (failed = false ∧ disk.staging.tree.entries.isEmpty = true)
    (replaceDisk { disk with staging := .absent })

/-- Remove the record, if that can be done. -/
def discardLedger : RestoreCall File PUnit := do
  point world.cut .stopped
  let failed ← ask world.fails
  onlyIf (failed = false) do replaceDisk { (← readDisk) with ledger := none }

def discardRestoreState : RestoreCall File PUnit := do
  discardStaging world
  discardLedger world

/-! ## Opening the staging folder -/

/-- A file at the staging path is discarded, a link is refused. -/
def openStaging : RestoreCall File PUnit := do
  let disk ← readDisk
  ensure (disk.staging.isLink = false) .stagingUnavailable
  point world.cut .stopped
  mayFail world .stagingUnavailable
  replaceDisk (disk.withStaged disk.staging.tree)

/-- Whether a staged path is in one of the two control entries. -/
def inControl (path : Text) : Bool :=
  let first := (path.splitOn '/').headD []
  first == replicaControlRootName || first == replicaControlLockName

def removeControl : RestoreCall File PUnit := do
  (← staged).keys.forM fun path =>
    onlyIf (inControl path = true) (unlinkStaged world path .controlState)

/-- A record that cannot be read counts as empty. -/
def readLedger (file : Option File) : StagingLedger :=
  (file.bind rules.loadLedger?).getD .empty

def openStagingArea : RestoreCall File StagingLedger := do
  openStaging world
  removeControl world
  let disk ← readDisk
  let unreadable ← ask world.fails
  return if unreadable then .empty else readLedger rules disk.ledger

/-! ## The audit -/

/-- Whether the record and the manifest vouch for a staged file. -/
def stillGood (ledger : StagingLedger) (entry : ManifestEntry) (path : Text) (content : Bytes) :
    Bool :=
  match ledger.get? path with
  | none => false
  | some record =>
      record.etag == entry.etag && rules.sha256Hex content == record.sha256 &&
        contentDefect rules content entry == none

/-- Keep a staged file or remove it. -/
def auditFile (entries : Table Text ManifestEntry) (ledger : StagingLedger) (kept : List Text)
    (file : Text × Bytes) : RestoreCall File (List Text) := do
  match walkClass rules.tables file.1, entries.get? file.1 with
  | .reservedControl, _ => return kept
  | .ordinary, some entry => do
      let unreadable ← ask world.fails
      if unreadable = false ∧ stillGood rules ledger entry file.1 file.2 = true then do
        emit (.kept file.1 file.2)
        return kept ++ [file.1]
      else do
        unlinkStaged world file.1 .auditFailed
        return kept
  | _, _ => do
      unlinkStaged world file.1 .auditFailed
      return kept

/-- The staged paths that are kept; every other staged file is removed. -/
def audit (entries : Table Text ManifestEntry) (ledger : StagingLedger) :
    RestoreCall File (List Text) := do
  (← staged).entries.foldlM (auditFile rules world entries ledger) []

/-- The rows of the record for the files that are kept. -/
def keptRows (ledger : StagingLedger) (kept : List Text) : StagingLedger :=
  .ofPairs (ledger.entries.filter fun row => kept.contains row.1)

/-! ## Downloads -/

/-- Whether one path is a folder on the way to the other. -/
def isAbove (path other : Text) : Bool :=
  (path ++ ['/']).isPrefixOf other

/-- Whether a staged file stands where the path needs a folder, or the other way round. -/
def isBlocked (tree : Tree) (path : Text) : Bool :=
  tree.keys.any fun other => isAbove other path || isAbove path other

/-- Land one downloaded file and record what it is. -/
def accept (ledger : StagingLedger) (path : Text) (entry : ManifestEntry) (content : Bytes) :
    RestoreCall File StagingLedger := do
  ensure (classifySyncPath rules.tables path = .ordinary ∧ isBlocked (← staged) path = false)
    (.unstageable path)
  writeStaged world path content (.unstageable path)
  emit (.accepted path content)
  saveLedger rules world
    (ledger.put path { etag := entry.etag, sha256 := rules.sha256Hex content })

/-- Download one file. Minting its URL is part of what the server answers. -/
def downloadFile (ledger : StagingLedger) (row : Text × ManifestEntry) :
    RestoreCall File StagingLedger := do
  point world.cut .stopped
  match ← ask world.body with
  | none => throw (.download row.1)
  | some content =>
      match contentDefect rules content row.2 with
      | some defect => throw (.defect defect row.1)
      | none => accept rules world ledger row.1 row.2 content

/-- Download every file that is not staged. -/
def downloadPending (entries : Table Text ManifestEntry) (kept : List Text)
    (ledger : StagingLedger) : RestoreCall File StagingLedger :=
  (entries.entries.filter fun row => !kept.contains row.1).foldlM (downloadFile rules world) ledger

/-! ## The install -/

def projectMd : Text := "project.md".toList

/-- The tree is a store that the doctor finds clean. -/
def isRestoredStore (tree : Tree) : Bool :=
  (tree.get? projectMd).isSome && tree.keys.any (isAbove decisionsDir) && rules.isClean tree

/-- The assembled record is checked; a bad one is not worth resuming. -/
def validateRestoredStore : RestoreCall File PUnit := do
  let tree ← staged
  if isRestoredStore rules tree then return ⟨⟩
  else do
    discardRestoreState world
    throw .incompleteRecord

def syncStateFile : Text := ".sync-state.json".toList

/-- The sync state of the files that the record lists. -/
def stateOf (now : Text) (ledger : StagingLedger) : SyncState where
  files := .ofPairs (ledger.entries.map fun row =>
    (row.1, { localSha256 := row.2.sha256, remoteEtag := row.2.etag, lastSync := now }))
  lastFullSync := now

/-- Write the sync state into the staging folder. -/
def seedSyncState (ledger : StagingLedger) : RestoreCall File PUnit := do
  ensure (isBlocked (← staged) syncStateFile = false) .stateWrite
  writeStaged world syncStateFile (rules.dumpState (stateOf world.now ledger)) .stateWrite

/-- Move the staging folder onto the destination, which has to be absent or empty. -/
def installStagedStore : RestoreCall File PUnit := do
  point world.cut .stopped
  emit .installing
  let disk ← readDisk
  ensure (disk.destination.isAvailable = true) .nonemptyDestination
  replaceDisk { disk with destination := .absent }
  point world.cut .stopped
  mayFail world .installFailed
  let disk ← readDisk
  replaceDisk { disk with destination := disk.staging, staging := .absent }

/-! ## A run -/

/-- The part of a run under the lock, when the destination is still free. -/
def restoreInto : RestoreCall File PUnit := do
  match admittedEntries rules world.manifest with
  | .error error => throw error
  | .ok (entries, _) =>
      if entries.entries.isEmpty then do
        discardRestoreState world
        throw .emptyCloudRecord
      else do
        let ledger ← openStagingArea rules world
        let kept ← audit rules world entries ledger
        let ledger ← downloadPending rules world entries kept (keptRows ledger kept)
        validateRestoredStore rules world
        seedSyncState rules world ledger
        installStagedStore world
        discardLedger world

/-- Another restore may have completed the record while this one waited for the lock. -/
def alreadyRestored (destination : Place) : RestoreCall File PUnit := do
  discardRestoreState world
  ensure (isRestoredStore rules destination.tree = true) .nonemptyDestination

/-- Restore a complete remote record into an absent or empty destination. -/
def restoreCloudStore : RestoreCall File PUnit := do
  ensure (world.usable = true) .unusableDestination
  let disk ← readDisk
  ensure (disk.destination.isLink = false) .linkAtDestination
  ensure (disk.destination.isAvailable = true) .nonemptyDestination
  mayFail world .migrationInProgress
  point world.cut .stopped
  mayFail world .busy
  let held ← readDisk
  if held.destination.isAvailable then restoreInto rules world
  else alreadyRestored rules world held.destination

/-! ## Sequences of runs -/

/-- What happens to the disk: a run, or damage to the staging folder and its record. -/
inductive Episode (File : Type) where
  | run (world : RestoreWorld)
  | damage (staging : Tree) (ledger : Option File)

def Episode.call : Episode File → RestoreCall File PUnit
  | .run world => restoreCloudStore rules world
  | .damage staging ledger => do
      replaceDisk { (← readDisk) with staging := .folder staging, ledger := ledger }

/-- A disk on which no restore has run. -/
def freshDisk (destination : Place) : RestoreDisk File where
  destination := destination
  staging := .absent
  ledger := none

/-- The disk after some episodes, and what happened in each. -/
def reached (destination : Place) (episodes : List (Episode File)) :
    RestoreDisk File × List (List RestoreEvent) :=
  runCalls (freshDisk destination) (episodes.map (Episode.call rules))

/-- What a run makes of the disk, and how it ends. -/
def outcomeOf (found : RestoreDisk File) :
    Except RestoreError PUnit × Session (RestoreDisk File) RestoreEvent :=
  Effect.exec (restoreCloudStore rules world) { disk := found, trace := [], tick := 0 }

end Client
end Nauro
