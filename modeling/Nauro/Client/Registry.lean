import Nauro.Core.Provenance
import Nauro.Foundation.Table

/-!
# The project registry

The registry maps project ids to entries. Its writers edit one entry at a time; the strict
reader, used to bind a repository to its project, accepts or rejects the registry as a whole.
What the writers ask of the file system is answered by a `Disk`.
-/

namespace Nauro
namespace Client

open Foundation Nauro.Core

inductive Mode where
  | localMode
  | cloudMode
deriving DecidableEq

/-- One entry of the registry; `none` is a field that is not set. -/
structure RegistryEntry where
  name : Text
  mode : Mode
  repoPaths : List Text
  serverUrl : Option Text
  storePath : Option Text
deriving DecidableEq

abbrev Registry := Table Text RegistryEntry

inductive BindingReason where
  | connectedRecordMissing
  | connectedRecordInvalid
  | connectedBindingConflict
deriving DecidableEq

/-- The exceptions of the writers. -/
inductive RegistryError where
  | invalidName
  | serverUrlRequired
  | alreadyRegistered (projectId : Text)
  | notFound (projectId : Text)
  | outsideProjects (projectId : Text)
  | destinationExists (store : Text)
  | binding (reason : BindingReason)
deriving DecidableEq

def refuseIf (condition : Bool) (error : RegistryError) : Except RegistryError Unit :=
  if condition then .error error else .ok ()

def orRefuse {A : Type} (value : Option A) (error : RegistryError) : Except RegistryError A :=
  value.elim (.error error) .ok

/-! ## Values -/

def maxProjectNameLength : Nat := 100

/-- The stripped project name, unless it is empty, too long, or has a separator, two dots or a
character that cannot be printed. -/
def validateProjectName (printable : Char → Bool) (name : Text) : Option Text :=
  let stripped := strip name
  if stripped.isEmpty || maxProjectNameLength < stripped.length || stripped.contains '/' ||
      stripped.contains '\\' || containsText "..".toList stripped || !stripped.all printable then
    none
  else some stripped

/-- A text that is present and not empty. -/
def isTruthy (value : Option Text) : Bool :=
  value.any fun text => !text.isEmpty

/-- A text that is present and not blank. -/
def isNonblank (value : Option Text) : Bool :=
  value.any fun text => !(strip text).isEmpty

/-- Cloud entries require a nonempty server URL. -/
def RegistryEntry.check (entry : RegistryEntry) : Bool :=
  entry.mode == .localMode || isNonblank entry.serverUrl

def validateRegistryEntry (entry : RegistryEntry) : Except RegistryError RegistryEntry :=
  if entry.check then .ok entry else .error (.binding .connectedRecordInvalid)

def crockford : Text := "0123456789ABCDEFGHJKMNPQRSTVWXYZ".toList

/-- The digit of five bits. -/
def crockfordDigit (n : Nat) : Char :=
  crockford.getD (n % 32) '0'

/-- The digits of a number in base 32, the lowest first. -/
def crockfordDigits : Nat → Nat → Text
  | 0, _ => []
  | count + 1, value => crockfordDigit value :: crockfordDigits count (value / 32)

/-- 48 bits of a timestamp in milliseconds and 80 random bits, in 26 digits. -/
def generateUlid (timestampMs randomness : Nat) : Text :=
  (crockfordDigits 26 (timestampMs % 2 ^ 48 * 2 ^ 80 + randomness % 2 ^ 80)).reverse

/-! ## What the file system answers -/

structure Disk where
  isAbsolute : Text → Bool
  /-- `str(Path(value))`. -/
  spelled : Text → Text
  /-- `Path(value).resolve()`. -/
  resolve : Text → Text
  /-- `path.name`. -/
  baseName : Text → Text
  /-- `path.with_name(name)`. -/
  withName : Text → Text → Text
  hasSymlinkComponent : Text → Bool
  exists? : Text → Bool
  isDir : Text → Bool
  /-- Whether a component of a store is a symbolic link. -/
  hasLinkedParts : Text → Bool
  hasGenerationMarker : Text → Bool
  hasStoreParts : Text → Bool
  /-- The store of an id under the projects directory, unless it leads outside. -/
  defaultStore : Text → Option Text

variable (disk : Disk)

def getStorePath (projectId : Text) : Except RegistryError Text :=
  orRefuse (disk.defaultStore projectId) (.outsideProjects projectId)

def validateStoreStructure (store : Text) (requireStore strictStore : Bool) :
    Except RegistryError Text :=
  if !disk.exists? store then
    if requireStore then .error (.binding .connectedRecordMissing) else .ok store
  else if !disk.isDir store || disk.hasLinkedParts store then
    .error (.binding .connectedRecordInvalid)
  else if strictStore && !disk.hasGenerationMarker store && !disk.hasStoreParts store then
    .error (.binding .connectedRecordInvalid)
  else .ok store

def validateRegisteredStorePath (projectId store : Text) (requireStore strictStore : Bool) :
    Except RegistryError Text := do
  refuseIf
    (!disk.isAbsolute store || disk.resolve store != store || disk.hasSymlinkComponent store ||
      disk.baseName store != projectId)
    (.binding .connectedRecordInvalid)
  let default ← getStorePath disk projectId
  refuseIf (store != default && disk.exists? default) (.binding .connectedBindingConflict)
  validateStoreStructure disk store requireStore strictStore

/-- The registered store path, if there is one; a blank one is an error. -/
def boundStorePath (entry : RegistryEntry) : Except RegistryError (Option Text) :=
  match entry.storePath with
  | none => .ok none
  | some store =>
      if (strip store).isEmpty then .error (.binding .connectedRecordInvalid)
      else .ok (some (disk.spelled store))

/-- The store an entry leads to; the default home keeps a tolerance for missing parts. -/
def resolveRegisteredStorePath (projectId : Text) (entry : RegistryEntry)
    (requireStore : Bool) : Except RegistryError Text := do
  match ← boundStorePath disk entry with
  | none => validateStoreStructure disk (← getStorePath disk projectId) requireStore false
  | some store => validateRegisteredStorePath disk projectId store requireStore true

/-! ## Writers -/

variable (printable : Char → Bool)

/-- The id that is given, or the minted one. -/
def registeredId (projectId : Option Text) (minted : Text) : Text :=
  (projectId.filter fun id => !id.isEmpty).getD minted

/-- Only a cloud project keeps a server. -/
def serverOf (mode : Mode) (serverUrl : Option Text) : Option Text :=
  if mode = .cloudMode then serverUrl else none

/-- Add a project. The id is minted when none is given. -/
def registerProject (registry : Registry) (name : Text) (repoPaths : List Text) (mode : Mode)
    (projectId : Option Text) (minted : Text) (serverUrl : Option Text) :
    Except RegistryError Registry := do
  let name ← orRefuse (validateProjectName printable name) .invalidName
  refuseIf (mode == .cloudMode && !isTruthy serverUrl) .serverUrlRequired
  let pid := registeredId projectId minted
  refuseIf (registry.get? pid).isSome (.alreadyRegistered pid)
  let _ ← getStorePath disk pid
  return registry.put pid
    { name := name
      mode := mode
      repoPaths := repoPaths.map disk.resolve
      serverUrl := serverOf mode serverUrl
      storePath := none }

/-- The store that an entry leads to, as far as it can be told; a conflict is passed on. -/
def currentStore (projectId : Text) (entry : RegistryEntry) :
    Except RegistryError (Option Text) :=
  match resolveRegisteredStorePath disk projectId entry false with
  | .error (.binding .connectedBindingConflict) => .error (.binding .connectedBindingConflict)
  | .error _ => .ok none
  | .ok current => .ok (some current)

/-- The entry of a project, when it agrees with the binding and its own store does not stand in
the way. -/
def agreeingEntry (raw : RegistryEntry) (projectId name : Text) (mode : Mode) (store : Text)
    (serverUrl : Option Text) (updateName : Bool) : Except RegistryError RegistryEntry := do
  let existing ← validateRegistryEntry raw
  refuseIf (existing.mode != mode || (existing.name != name && !updateName))
    (.binding .connectedBindingConflict)
  refuseIf (mode == .cloudMode && existing.serverUrl != serverUrl)
    (.binding .connectedBindingConflict)
  let current ← currentStore disk projectId existing
  refuseIf (current.any fun path => path != store && disk.exists? path)
    (.binding .connectedBindingConflict)
  return { existing with name := if updateName then name else existing.name }

/-- The entry that a binding starts from: the one that is there or a fresh one. -/
def bindingEntry (registry : Registry) (projectId name : Text) (mode : Mode)
    (store : Text) (serverUrl : Option Text) (updateName : Bool) :
    Except RegistryError RegistryEntry :=
  match registry.get? projectId with
  | none =>
      .ok { name := name, mode := mode, repoPaths := [], serverUrl := none, storePath := none }
  | some raw => agreeingEntry disk raw projectId name mode store serverUrl updateName

/-- Add a path to a list that does not have it. -/
def appendPath (paths : List Text) (path : Text) : List Text :=
  if paths.contains path then paths else paths ++ [path]

/-- The default home keeps its tolerance; any other store is checked in full. -/
def checkedStore (projectId default storePath : Text) : Except RegistryError Text :=
  if storePath = default then validateStoreStructure disk storePath true false
  else validateRegisteredStorePath disk projectId storePath true true

/-- Bind an existing store to a project, creating the entry if needed. -/
def bindProjectStore (registry : Registry) (projectId name : Text) (mode : Mode)
    (repoPath storePath : Text) (serverUrl : Option Text) (updateName : Bool) :
    Except RegistryError Registry := do
  let name ← orRefuse (validateProjectName printable name) .invalidName
  refuseIf (mode == .cloudMode && !isTruthy serverUrl) .serverUrlRequired
  let default ← getStorePath disk projectId
  let store ← checkedStore disk projectId default storePath
  let entry ← bindingEntry disk registry projectId name mode store serverUrl updateName
  return registry.put projectId
    { entry with
      repoPaths := appendPath entry.repoPaths (disk.resolve repoPath)
      serverUrl := serverOf mode serverUrl
      storePath := if store = default then none else some store }

/-- Add a repo path to an existing project. -/
def addRepo (registry : Registry) (projectId repoPath : Text) :
    Except RegistryError Registry := do
  let entry ← orRefuse (registry.get? projectId) (.notFound projectId)
  return registry.put projectId
    { entry with repoPaths := appendPath entry.repoPaths (disk.resolve repoPath) }

/-- Remove one repo path from a project, leaving the entry. -/
def removeRepo (registry : Registry) (projectId repoPath : Text) : Registry :=
  match registry.get? projectId with
  | none => registry
  | some entry => registry.put projectId { entry with repoPaths := entry.repoPaths.erase repoPath }

/-- Remove the entry of a project. -/
def removeProject (registry : Registry) (projectId : Text) : Registry :=
  registry.erase projectId

/-- The entry after a change of mode or server, checked again. -/
def rekeyedEntry (existing : RegistryEntry) (mode : Option Mode) (serverUrl : Option Text) :
    Except RegistryError RegistryEntry := do
  let updatedMode := mode.getD existing.mode
  let updatedServerUrl := serverUrl.or existing.serverUrl
  refuseIf (updatedMode == .cloudMode && !isTruthy updatedServerUrl) .serverUrlRequired
  validateRegistryEntry
    { existing with mode := updatedMode, serverUrl := serverOf updatedMode updatedServerUrl }

/-- The store of the project to re-key, which has to be there when it moves. -/
def storeToRekey (oldId : Text) (bound : Option Text) (renameStore : Bool) :
    Except RegistryError Text :=
  match bound with
  | none => do validateStoreStructure disk (← getStorePath disk oldId) renameStore true
  | some store => validateRegisteredStorePath disk oldId store renameStore true

/-- Re-key a project, with its repo paths; the store moves when it is asked for and there. -/
def renameProjectId (registry : Registry) (oldId newId : Text) (mode : Option Mode)
    (serverUrl : Option Text) (renameStore : Bool) : Except RegistryError Registry := do
  let raw ← orRefuse (registry.get? oldId) (.notFound oldId)
  refuseIf (newId != oldId && (registry.get? newId).isSome) (.alreadyRegistered newId)
  let existing ← validateRegistryEntry raw
  let bound ← boundStorePath disk existing
  let oldStore ← storeToRekey disk oldId bound renameStore
  let entry ← rekeyedEntry existing mode serverUrl
  let newDefault ← getStorePath disk newId
  let newStore := if bound.isNone then newDefault else disk.withName oldStore newId
  refuseIf (bound.isSome && disk.exists? newDefault) (.binding .connectedBindingConflict)
  refuseIf (renameStore && oldId != newId && disk.exists? oldStore && disk.exists? newStore)
    (.destinationExists newStore)
  return (registry.erase oldId).put newId
    { entry with storePath := if bound.isSome then some newStore else none }

/-! ## The strict reader -/

/-- A repo path that is its own canonical spelling. -/
def isCanonicalPath (value : Text) : Bool :=
  !value.isEmpty && disk.isAbsolute value && disk.spelled value == value &&
    disk.resolve value == value

/-- A call of a writer. -/
inductive RegistryCall where
  | register (name : Text) (repoPaths : List Text) (mode : Mode) (projectId : Option Text)
      (timestampMs randomness : Nat) (serverUrl : Option Text)
  | bind (projectId name : Text) (mode : Mode) (repoPath storePath : Text)
      (serverUrl : Option Text) (updateName : Bool)
  | addRepo (projectId repoPath : Text)
  | removeRepo (projectId repoPath : Text)
  | removeProject (projectId : Text)
  | rename (oldId newId : Text) (mode : Option Mode) (serverUrl : Option Text)
      (renameStore : Bool)
deriving DecidableEq

def RegistryCall.apply (call : RegistryCall) (registry : Registry) :
    Except RegistryError Registry :=
  match call with
  | .register name repoPaths mode projectId timestampMs randomness serverUrl =>
      registerProject disk printable registry name repoPaths mode projectId
        (generateUlid timestampMs randomness) serverUrl
  | .bind projectId name mode repoPath storePath serverUrl updateName =>
      bindProjectStore disk printable registry projectId name mode repoPath storePath serverUrl
        updateName
  | .addRepo projectId repoPath => Client.addRepo disk registry projectId repoPath
  | .removeRepo projectId repoPath => .ok (Client.removeRepo registry projectId repoPath)
  | .removeProject projectId => .ok (Client.removeProject registry projectId)
  | .rename oldId newId mode serverUrl renameStore =>
      renameProjectId disk registry oldId newId mode serverUrl renameStore

/-- The registry after successful calls in turn. Each call finds the file system in a state of
its own. -/
def run (registry : Registry) (calls : List (RegistryCall × Disk)) :
    Except RegistryError Registry :=
  calls.foldlM (fun registry call => call.1.apply call.2 printable registry) registry

end Client
end Nauro
