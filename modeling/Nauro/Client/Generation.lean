import Nauro.Client.Registry
import Nauro.Sync.RecordFile

/-!
# Authority over a replica

A store of a hosted project may be a replica of one verified generation. A marker in the store
selects generation authority for every account; an account has a pointer, which names the
generation installed for it, and a carrier, the authorization it was installed under. Pointer
and carrier belong together when they name one generation and one installation.
-/

namespace Nauro
namespace Client

open Foundation Nauro.Core Nauro.Sync

/-! ## Fields -/

structure Ulid where
  text : Text
  valid : isUlid text = true

theorem Ulid.text_inj {value other : Ulid} : value.text = other.text ↔ value = other := by
  cases value
  cases other
  simp

instance : DecidableEq Ulid := fun _ _ => decidable_of_iff _ Ulid.text_inj

def Ulid.ofText? (text : Text) : Option Ulid :=
  if h : isUlid text = true then some ⟨text, h⟩ else none

theorem Ulid.ofText?_text (id : Ulid) : Ulid.ofText? id.text = some id := by
  unfold Ulid.ofText?
  rw [dif_pos id.valid]

structure Digest where
  text : Text
  valid : isDigest text = true

theorem Digest.text_inj {value other : Digest} : value.text = other.text ↔ value = other := by
  cases value
  cases other
  simp

instance : DecidableEq Digest := fun _ _ => decidable_of_iff _ Digest.text_inj

def Digest.ofText? (text : Text) : Option Digest :=
  if h : isDigest text = true then some ⟨text, h⟩ else none

structure Timestamp where
  text : Text
  valid : isUtcTimestamp text = true

theorem Timestamp.text_inj {value other : Timestamp} : value.text = other.text ↔ value = other := by
  cases value
  cases other
  simp

instance : DecidableEq Timestamp := fun _ _ => decidable_of_iff _ Timestamp.text_inj

/-- `StrictInt` with `ge=1`. -/
abbrev FormatVersion := { version : Nat // 1 ≤ version }

def hostedStoreFormatVersion : FormatVersion := ⟨1, Nat.le_refl 1⟩

inductive ProjectionClass where
  | viewer
  | contributorPlus
deriving DecidableEq

inductive GenerationError where
  | generationControlCorrupt
  | clientUpgradeRequired
  | replicaActorMismatch
  | refreshRequired
  | generationRootDiverged
  | controlPublicationFailed
  | durabilityUnavailable
  | generationVerificationFailed
  | refreshEvidenceInvalid
  /-- A killed process, a path that fails its checks, or a file that cannot be read. -/
  | stopped
deriving DecidableEq

/-! ## Records -/

structure ProjectionIdentity where
  projectId : Ulid
  storeFormatVersion : FormatVersion
  generationId : Ulid
  manifestDigest : Digest
  committedAt : Timestamp
  installedForUserId : Ulid
  projectionClass : ProjectionClass
  projectionScopeId : Digest
deriving DecidableEq

structure GenerationAuthorityMarker where
  projectId : Ulid
  storeFormatVersion : FormatVersion
deriving DecidableEq

structure InstalledAuthorizationView extends ProjectionIdentity where
  installedStateId : Ulid
deriving DecidableEq

structure InstalledGenerationPointer extends InstalledAuthorizationView where
  installedAt : Timestamp
deriving DecidableEq

structure ResolvedProjectBinding where
  storePath : Text
  projectId : Ulid
  displayName : Text
  mode : Mode
  serverUrl : Option Text
deriving DecidableEq

/-- A projection of the bound hosted project, in the format this client supports. -/
structure GenerationProjectionTarget where
  binding : ResolvedProjectBinding
  identity : ProjectionIdentity
  hosted : binding.mode = .cloudMode
  sameProject : identity.projectId = binding.projectId
  supported : identity.storeFormatVersion = hostedStoreFormatVersion
deriving DecidableEq

def GenerationProjectionTarget.user (target : GenerationProjectionTarget) : Ulid :=
  target.identity.installedForUserId

/-- What a manifest says of its generation. -/
structure GenerationManifest where
  projectId : Ulid
  storeFormatVersion : FormatVersion
  generationId : Ulid
  committedAt : Timestamp
  projectionClass : ProjectionClass
  projectionScopeId : Digest
deriving DecidableEq

/-- What the manifest of a projection must say. -/
def ProjectionIdentity.bound (identity : ProjectionIdentity) : GenerationManifest where
  projectId := identity.projectId
  storeFormatVersion := identity.storeFormatVersion
  generationId := identity.generationId
  committedAt := identity.committedAt
  projectionClass := identity.projectionClass
  projectionScopeId := identity.projectionScopeId

/-! ## Files -/

/-- The writer of the canonical file of a record, and its strict reader. -/
structure Codec (Record File : Type) where
  dump : Record → File
  load? : File → Option Record

/-- The reader undoes the writer. -/
structure Codec.Lawful {Record File : Type} (codec : Codec Record File) : Prop where
  load?_dump : ∀ record, codec.load? (codec.dump record) = some record

theorem Codec.Lawful.injective {Record File : Type} {codec : Codec Record File}
    (h : codec.Lawful) : Function.Injective codec.dump := by
  intro record other heq
  have hload := h.load?_dump record
  rw [heq, h.load?_dump] at hload
  exact (Option.some.inj hload).symm

structure ControlFormat (File : Type) where
  marker : Codec GenerationAuthorityMarker File
  view : Codec InstalledAuthorizationView File
  pointer : Codec InstalledGenerationPointer File

structure ControlFormat.Lawful {File : Type} (format : ControlFormat File) : Prop where
  marker : format.marker.Lawful
  view : format.view.Lawful
  pointer : format.pointer.Lawful

/-- The files of one account. -/
structure ActorFiles (File : Type) where
  carrier : Option File
  pointer : Option File
  refreshIntent : Option File
  refreshHistory : Digest → Option File

/-- The control files of a store. -/
structure ControlDisk (File : Type) where
  marker : Option File
  actors : Ulid → ActorFiles File

variable {File : Type}

namespace ControlDisk

def carrier (disk : ControlDisk File) (user : Ulid) : Option File :=
  (disk.actors user).carrier

def pointer (disk : ControlDisk File) (user : Ulid) : Option File :=
  (disk.actors user).pointer

def refreshIntent (disk : ControlDisk File) (user : Ulid) : Option File :=
  (disk.actors user).refreshIntent

def withActor (disk : ControlDisk File) (user : Ulid)
    (change : ActorFiles File → ActorFiles File) : ControlDisk File :=
  { disk with actors := Function.update disk.actors user (change (disk.actors user)) }

def withMarker (disk : ControlDisk File) (file : File) : ControlDisk File :=
  { disk with marker := some file }

def withCarrier (disk : ControlDisk File) (user : Ulid) (file : File) : ControlDisk File :=
  disk.withActor user fun files => { files with carrier := some file }

def withPointer (disk : ControlDisk File) (user : Ulid) (file : File) : ControlDisk File :=
  disk.withActor user fun files => { files with pointer := some file }

def withIntent (disk : ControlDisk File) (user : Ulid) (file : File) : ControlDisk File :=
  disk.withActor user fun files => { files with refreshIntent := some file }

def withArchived (disk : ControlDisk File) (user : Ulid) (digest : Digest) (file : File) :
    ControlDisk File :=
  disk.withActor user fun files =>
    { files with refreshHistory := Function.update files.refreshHistory digest (some file) }

variable {disk : ControlDisk File} {user other : Ulid} {file : File}
  {change : ActorFiles File → ActorFiles File}

@[simp] theorem withActor_marker : (disk.withActor user change).marker = disk.marker := rfl

@[simp] theorem withActor_self :
    (disk.withActor user change).actors user = change (disk.actors user) :=
  Function.update_self ..

theorem withActor_of_ne (h : other ≠ user) :
    (disk.withActor user change).actors other = disk.actors other :=
  Function.update_of_ne h ..

@[simp] theorem withMarker_marker : (disk.withMarker file).marker = some file := rfl

@[simp] theorem withMarker_actors : (disk.withMarker file).actors = disk.actors := rfl

@[simp] theorem withMarker_carrier : (disk.withMarker file).carrier user = disk.carrier user := rfl

@[simp] theorem withMarker_pointer : (disk.withMarker file).pointer user = disk.pointer user := rfl

@[simp] theorem withCarrier_marker : (disk.withCarrier user file).marker = disk.marker := rfl

@[simp] theorem withPointer_marker : (disk.withPointer user file).marker = disk.marker := rfl

@[simp] theorem withCarrier_carrier : (disk.withCarrier user file).carrier user = some file := by
  simp [withCarrier, carrier]

@[simp] theorem withCarrier_pointer :
    (disk.withCarrier user file).pointer user = disk.pointer user := by
  simp [withCarrier, pointer]

@[simp] theorem withPointer_carrier :
    (disk.withPointer user file).carrier user = disk.carrier user := by
  simp [withPointer, carrier]

@[simp] theorem withPointer_pointer : (disk.withPointer user file).pointer user = some file := by
  simp [withPointer, pointer]

end ControlDisk

/-! ## Selection -/

inductive ProjectAuthority where
  | flat (binding : ResolvedProjectBinding)
  | generation (binding : ResolvedProjectBinding) (marker : GenerationAuthorityMarker)
      (pointer : InstalledGenerationPointer)
deriving DecidableEq

structure PendingGenerationAuthority where
  binding : ResolvedProjectBinding
  marker : GenerationAuthorityMarker
  activeUserId : Ulid

variable (format : ControlFormat File)

/-- The authority that a marker leaves pending; without a marker the store is flat. -/
def selectMarkerAuthority (binding : ResolvedProjectBinding) (markerJson : Option File)
    (activeUserId : Option Text) : Except GenerationError (Option PendingGenerationAuthority) :=
  match markerJson with
  | none => .ok none
  | some raw =>
      if binding.mode ≠ .cloudMode then .error .generationControlCorrupt
      else
        match format.marker.load? raw with
        | none => .error .generationControlCorrupt
        | some marker =>
            if marker.projectId ≠ binding.projectId then .error .generationControlCorrupt
            else if marker.storeFormatVersion ≠ hostedStoreFormatVersion then
              .error .clientUpgradeRequired
            else
              match activeUserId.bind Ulid.ofText? with
              | none => .error .replicaActorMismatch
              | some user => .ok (some ⟨binding, marker, user⟩)

def selectGenerationPointer (pending : PendingGenerationAuthority) (pointerJson : Option File)
    (activeProjectionScopeId : Option Text) : Except GenerationError ProjectAuthority :=
  match pointerJson with
  | none => .error .refreshRequired
  | some raw =>
      match format.pointer.load? raw with
      | none => .error .generationControlCorrupt
      | some pointer =>
          if pointer.projectId ≠ pending.marker.projectId ∨
              pointer.projectId ≠ pending.binding.projectId then .error .generationControlCorrupt
          else if pointer.storeFormatVersion ≠ pending.marker.storeFormatVersion then
            .error .generationControlCorrupt
          else if pending.activeUserId ≠ pointer.installedForUserId then
            .error .replicaActorMismatch
          else if activeProjectionScopeId.bind Digest.ofText? ≠ some pointer.projectionScopeId then
            .error .refreshRequired
          else .ok (.generation pending.binding pending.marker pointer)

/-- Select flat or generation authority. -/
def selectProjectAuthority (binding : ResolvedProjectBinding) (markerJson pointerJson : Option File)
    (activeUserId activeProjectionScopeId : Option Text) :
    Except GenerationError ProjectAuthority :=
  match selectMarkerAuthority format binding markerJson activeUserId with
  | .error error => .error error
  | .ok none => .ok (.flat binding)
  | .ok (some pending) => selectGenerationPointer format pending pointerJson activeProjectionScopeId

/-- `locked_replica_control_snapshot`: the authority a reader finds on the disk. -/
def snapshotAuthority (disk : ControlDisk File) (binding : ResolvedProjectBinding)
    (activeUserId activeProjectionScopeId : Option Text) :
    Except GenerationError ProjectAuthority :=
  if binding.mode = .localMode then .ok (.flat binding)
  else
    match selectMarkerAuthority format binding disk.marker activeUserId with
    | .error error => .error error
    | .ok none => .ok (.flat binding)
    | .ok (some pending) =>
        selectGenerationPointer format pending (disk.pointer pending.activeUserId)
          activeProjectionScopeId

/-- Without a marker every reader selects the flat store. -/
theorem snapshotAuthority_of_unmarked {disk : ControlDisk File} (h : disk.marker = none)
    (binding : ResolvedProjectBinding) (activeUserId activeProjectionScopeId : Option Text) :
    snapshotAuthority format disk binding activeUserId activeProjectionScopeId =
      .ok (.flat binding) := by
  unfold snapshotAuthority
  rw [h]
  split <;> rfl

/-! ## Controls of a target -/

variable [DecidableEq File]

/-- `_parse_authorization_view`: only canonical bytes are read. -/
def parseAuthorizationView (raw : File) : Except GenerationError InstalledAuthorizationView :=
  match format.view.load? raw with
  | none => .error .generationControlCorrupt
  | some view => if raw ≠ format.view.dump view then .error .generationControlCorrupt else .ok view

def parseExactPointer (raw : File) : Except GenerationError InstalledGenerationPointer :=
  match format.pointer.load? raw with
  | none => .error .generationControlCorrupt
  | some pointer =>
      if raw ≠ format.pointer.dump pointer then .error .generationControlCorrupt else .ok pointer

variable {format}

theorem parseAuthorizationView_dump (hformat : format.Lawful) (view : InstalledAuthorizationView) :
    parseAuthorizationView format (format.view.dump view) = .ok view := by
  unfold parseAuthorizationView
  rw [hformat.view.load?_dump]
  exact if_neg (not_not_intro rfl)

theorem parseExactPointer_dump (hformat : format.Lawful) (pointer : InstalledGenerationPointer) :
    parseExactPointer format (format.pointer.dump pointer) = .ok pointer := by
  unfold parseExactPointer
  rw [hformat.pointer.load?_dump]
  exact if_neg (not_not_intro rfl)

/-- A file that is read is the file that is written. -/
theorem eq_dump_of_parseAuthorizationView {raw : File} {view : InstalledAuthorizationView}
    (h : parseAuthorizationView format raw = .ok view) : raw = format.view.dump view := by
  unfold parseAuthorizationView at h
  split at h
  · cases h
  · split at h
    · cases h
    · rename_i hraw
      cases h
      exact not_not.mp hraw

theorem eq_dump_of_parseExactPointer {raw : File} {pointer : InstalledGenerationPointer}
    (h : parseExactPointer format raw = .ok pointer) : raw = format.pointer.dump pointer := by
  unfold parseExactPointer at h
  split at h
  · cases h
  · split at h
    · cases h
    · rename_i hraw
      cases h
      exact not_not.mp hraw

variable (target : GenerationProjectionTarget)

def expectedMarker : GenerationAuthorityMarker where
  projectId := target.identity.projectId
  storeFormatVersion := target.identity.storeFormatVersion

/-- `_NON_ACTOR_FIELDS` of a record: what its manifest says, and the manifest's digest. -/
def ProjectionIdentity.nonActorFields (identity : ProjectionIdentity) :
    GenerationManifest × Digest :=
  (identity.bound, identity.manifestDigest)

theorem ProjectionIdentity.eq_of_fields {identity other : ProjectionIdentity}
    (huser : identity.installedForUserId = other.installedForUserId)
    (hfields : identity.nonActorFields = other.nonActorFields) : identity = other := by
  cases identity
  cases other
  simp only [nonActorFields, bound, Prod.mk.injEq, GenerationManifest.mk.injEq] at hfields
  obtain ⟨⟨rfl, rfl, rfl, rfl, rfl, rfl⟩, rfl⟩ := hfields
  cases huser
  rfl

/-- Whether the carrier is the target's; in a marked store another one is refused. -/
def validateCarrier (activeActor : Ulid) (markerJson : Option File)
    (carrier : InstalledAuthorizationView) : Except GenerationError Bool :=
  if carrier.installedForUserId ≠ activeActor ∨ carrier.installedForUserId ≠ target.user then
    .error .replicaActorMismatch
  else if carrier.nonActorFields = target.identity.nonActorFields then .ok true
  else if markerJson.isSome then .error .refreshRequired
  else .ok false

/-- Whether carrier and pointer are a pair of the target's; in a marked store others are refused. -/
def validateControlPair (activeActor : Ulid) (markerJson : Option File)
    (carrier : InstalledAuthorizationView) (pointer : InstalledGenerationPointer) :
    Except GenerationError Bool :=
  match validateCarrier target activeActor markerJson carrier with
  | .error error => .error error
  | .ok carrierExact =>
      if pointer.installedForUserId ≠ activeActor ∨ pointer.installedForUserId ≠ target.user ∨
          pointer.installedForUserId ≠ carrier.installedForUserId then
        if markerJson.isSome then .error .replicaActorMismatch else .ok false
      else if carrierExact ∧ pointer.nonActorFields = target.identity.nonActorFields ∧
          target.identity.nonActorFields = carrier.nonActorFields ∧
          pointer.installedStateId = carrier.installedStateId then .ok true
      else if markerJson.isSome then .error .refreshRequired
      else .ok false

def buildCarrier (activeActor : Ulid) (committedAt : Timestamp) (installedStateId : Ulid) :
    InstalledAuthorizationView :=
  { target.identity with
    installedForUserId := activeActor
    committedAt := committedAt
    installedStateId := installedStateId }

def buildPointer (activeActor : Ulid) (committedAt installedAt : Timestamp)
    (installedStateId : Ulid) : InstalledGenerationPointer :=
  { target.identity with
    installedForUserId := activeActor
    committedAt := committedAt
    installedAt := installedAt
    installedStateId := installedStateId }

variable (format)

/-- The marker and pointer of a marked store as the target's authority. -/
def selectExact (markerJson : File) (pointerJson : Option File) :
    Except GenerationError ProjectAuthority :=
  match selectProjectAuthority format target.binding (some markerJson) pointerJson
      (some target.user.text) (some target.identity.projectionScopeId.text) with
  | .error error => .error error
  | .ok (.flat _) => .error .controlPublicationFailed
  | .ok (.generation binding marker pointer) =>
      if markerJson ≠ format.marker.dump marker ∨
          pointerJson ≠ some (format.pointer.dump pointer) then .error .generationControlCorrupt
      else if pointer.toProjectionIdentity ≠ target.identity then .error .controlPublicationFailed
      else .ok (.generation binding marker pointer)

/-- `_read_active_marker`: a marked store's marker, spelled as it is written. -/
def readActiveMarker (markerJson : File) : Except GenerationError Unit :=
  match selectMarkerAuthority format target.binding (some markerJson) (some target.user.text) with
  | .error error => .error error
  | .ok none => .error .generationControlCorrupt
  | .ok (some selected) =>
      if markerJson ≠ format.marker.dump selected.marker then .error .generationControlCorrupt
      else .ok ()

def requirePublishedCarrier (activeActor : Ulid) (raw intended : File) :
    Except GenerationError InstalledAuthorizationView :=
  match parseAuthorizationView format raw with
  | .error error => .error error
  | .ok carrier =>
      match validateCarrier target activeActor (none : Option File) carrier with
      | .error error => .error error
      | .ok exact =>
          if raw ≠ intended ∨ exact = false then .error .controlPublicationFailed else .ok carrier

variable (File) in
def requirePublishedPair (activeActor : Ulid) (carrier : InstalledAuthorizationView)
    (pointer : InstalledGenerationPointer) : Except GenerationError Unit :=
  if carrier.installedForUserId ≠ activeActor ∨ pointer.installedForUserId ≠ activeActor ∨
      target.user ≠ activeActor then .error .replicaActorMismatch
  else
    match validateControlPair target activeActor (none : Option File) carrier pointer with
    | .error error => .error error
    | .ok exact => if exact then .ok () else .error .controlPublicationFailed

end Client
end Nauro
