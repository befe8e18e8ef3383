import Nauro.Client.Generation
import Nauro.Foundation.Session

/-!
# Publishing the controls of an installed generation

A publication gives a store that has no marker its first generation: under the control lock it
writes the carrier of the installed root's account, then the account's pointer, then the marker.
Each file is read back, the root is audited before the marker and after it, and what an earlier
publication left is used again where it is exact. A run may be killed at any step.
-/

namespace Nauro
namespace Client

open Foundation Foundation.Session Nauro.Core

/-! ## Surroundings -/

/-- How one durable write ends. -/
inductive WriteOutcome where
  | done
  /-- The write raised, before or after the file was replaced. -/
  | raised (written : Bool)
  /-- The platform refused to make the write durable. -/
  | unavailable (written : Bool)
deriving DecidableEq

def WriteOutcome.written : WriteOutcome → Bool
  | .done => true
  | .raised written => written
  | .unavailable written => written

def WriteOutcome.isUnavailable : WriteOutcome → Bool
  | .unavailable _ => true
  | _ => false

/-- What a run finds around it, asked anew at each of its steps. -/
structure PublicationWorld where
  /-- The process is killed, a path fails its checks, or the lock or a file cannot be had. -/
  cut : Nat → Bool
  activeUserId : Nat → Option Text
  /-- Whether the run belongs to a transfer session, which checks the authorized target too. -/
  session : Bool
  authorizedTarget : Nat → Option GenerationProjectionTarget
  /-- The manifest of the installed root, when the root passes its audit. -/
  manifest : Nat → Option GenerationManifest
  write : Nat → WriteOutcome
  newUlid : Nat → Ulid
  now : Nat → Timestamp

/-- What a run has done. -/
inductive PublicationEvent where
  | audited (identity : ProjectionIdentity)
  | wroteCarrier (user : Ulid)
  | wrotePointer (user : Ulid)
  | wroteMarker (identity : ProjectionIdentity)
deriving DecidableEq

variable {File : Type} [DecidableEq File]

abbrev PublicationCall (File α : Type) :=
  Call (ControlDisk File) PublicationEvent GenerationError α

variable (format : ControlFormat File) (world : PublicationWorld)
  (target : GenerationProjectionTarget)

/-! ## Steps -/

/-- `require_actor`: the account of the target is active, and in a session the target is still
the authorized one. -/
def requireActor : PublicationCall File PUnit := do
  point world.cut .stopped
  let active ← ask world.activeUserId
  ensure (active = some target.user.text) .replicaActorMismatch
  onlyIf (world.session = true) (do
    let current ← ask world.authorizedTarget
    ensure (current = some target) .refreshRequired)

def readControlFile (file : ControlDisk File → Option File) :
    PublicationCall File (Option File) := do
  point world.cut .stopped
  return file (← readDisk)

/-- `_audit_installed_root`: the time of the commit that the manifest tells. -/
def auditInstalledRoot : PublicationCall File Timestamp := do
  point world.cut .stopped
  let audited ← ask world.manifest
  let manifest ← Effect.ofOption .generationRootDiverged audited
  ensure (manifest = target.identity.bound) .generationRootDiverged
  emit (.audited target.identity)
  return manifest.committedAt

/-- `durable_write_bytes`, with what the callers do of its exceptions: whether it raised. -/
def durableWrite (update : ControlDisk File → ControlDisk File) (event : PublicationEvent) :
    PublicationCall File Bool := do
  point world.cut .stopped
  let outcome ← ask world.write
  onlyIf (outcome.written = true) (do
    let disk ← readDisk
    replaceDisk (update disk)
    emit event)
  point world.cut .stopped
  ensure (outcome.isUnavailable = false) .durabilityUnavailable
  return outcome != .done

def writeCarrier (activeActor : Ulid) (prior : Option File) (intended : File) :
    PublicationCall File InstalledAuthorizationView := do
  point world.cut .stopped
  let present ← readControlFile world (·.carrier target.user)
  ensure (present = prior) .controlPublicationFailed
  let marker ← readControlFile world (·.marker)
  ensure (marker = none) .controlPublicationFailed
  let _ ← Effect.ofExcept (requirePublishedCarrier format target activeActor intended intended)
  requireActor world target
  let failed ← durableWrite world (·.withCarrier target.user intended) (.wroteCarrier target.user)
  let observed ← readControlFile world (·.carrier target.user)
  ensure (observed = some intended) .controlPublicationFailed
  let carrier ←
    Effect.ofExcept (requirePublishedCarrier format target activeActor intended intended)
  onlyIf (failed = true) (requireActor world target)
  return carrier

def writePointer (activeActor : Ulid) (carrierBytes : File) (prior : Option File)
    (intended : File) : PublicationCall File InstalledGenerationPointer := do
  point world.cut .stopped
  let observedCarrier ← readControlFile world (·.carrier target.user)
  ensure (observedCarrier = some carrierBytes) .controlPublicationFailed
  let carrier ←
    Effect.ofExcept (requirePublishedCarrier format target activeActor carrierBytes carrierBytes)
  let present ← readControlFile world (·.pointer target.user)
  ensure (present = prior) .controlPublicationFailed
  let marker ← readControlFile world (·.marker)
  ensure (marker = none) .controlPublicationFailed
  let intendedPointer ← Effect.ofExcept (parseExactPointer format intended)
  Effect.ofExcept (requirePublishedPair File target activeActor carrier intendedPointer)
  requireActor world target
  let failed ← durableWrite world (·.withPointer target.user intended) (.wrotePointer target.user)
  let observedCarrier ← readControlFile world (·.carrier target.user)
  let observedPointer ← readControlFile world (·.pointer target.user)
  ensure (observedPointer = some intended) .controlPublicationFailed
  let observedCarrier ← Effect.ofOption .controlPublicationFailed observedCarrier
  let carrier ←
    Effect.ofExcept (requirePublishedCarrier format target activeActor observedCarrier carrierBytes)
  let pointer ← Effect.ofExcept (parseExactPointer format intended)
  Effect.ofExcept (requirePublishedPair File target activeActor carrier pointer)
  onlyIf (failed = true) (requireActor world target)
  return pointer

/-! ## A store with its marker -/

/-- The controls of a marked store, which must be the target's to the byte. -/
def activeSelection (activeActor : Ulid) (markerJson : File) :
    PublicationCall File (ProjectAuthority × File × File) := do
  Effect.ofExcept (readActiveMarker format target markerJson)
  let carrierJson ← readControlFile world (·.carrier target.user)
  let carrierJson ← Effect.ofOption .refreshRequired carrierJson
  let carrier ← Effect.ofExcept (parseAuthorizationView format carrierJson)
  let _ ← Effect.ofExcept (validateCarrier target activeActor (some markerJson) carrier)
  let pointerJson ← readControlFile world (·.pointer target.user)
  let pointerJson ← Effect.ofOption .refreshRequired pointerJson
  let pointer ← Effect.ofExcept (parseExactPointer format pointerJson)
  let _ ← Effect.ofExcept (validateControlPair target activeActor (some markerJson) carrier pointer)
  let authority ← Effect.ofExcept (selectExact format target markerJson (some pointerJson))
  return (authority, carrierJson, pointerJson)

/-! ## A store without a marker -/

def readCarrier : Option File → Except GenerationError (Option InstalledAuthorizationView)
  | none => .ok none
  | some raw => (parseAuthorizationView format raw).map some

variable (File) in
/-- The carrier an earlier publication left, when it is the target's. -/
def retainedCarrier (activeActor : Ulid) :
    Option InstalledAuthorizationView → Except GenerationError (Option InstalledAuthorizationView)
  | none => .ok none
  | some carrier =>
      (validateCarrier target activeActor (none : Option File) carrier).map fun exact =>
        if exact then some carrier else none

/-- The pointer an earlier publication left, when it pairs with the carrier that it left. -/
def retainedPointer (activeActor : Ulid) :
    Option InstalledAuthorizationView → Option File →
      Except GenerationError (Option InstalledGenerationPointer)
  | some carrier, some raw =>
      match parseExactPointer format raw with
      | .error _ => .ok none
      | .ok candidate =>
          (validateControlPair target activeActor (none : Option File) carrier candidate).map
            fun exact => if exact then some candidate else none
  | _, _ => .ok none

/-- The carrier that the pointer is to pair with, its file, and the time of an installation
that began here. -/
def settleCarrier (activeActor : Ulid) (committedAt : Timestamp) (carrierJson : Option File) :
    Option InstalledAuthorizationView →
      PublicationCall File (InstalledAuthorizationView × File × Option Timestamp)
  | some carrier => do
      let carrierJson ← Effect.ofOption .controlPublicationFailed carrierJson
      return (carrier, carrierJson, none)
  | none => do
      let installedStateId ← ask world.newUlid
      let installedAt ← ask world.now
      let intended := format.view.dump (buildCarrier target activeActor committedAt installedStateId)
      let carrier ← writeCarrier format world target activeActor carrierJson intended
      return (carrier, intended, some installedAt)

/-- The time of the installation, taken now if it did not begin with the carrier. -/
def installationTime : Option Timestamp → PublicationCall File Timestamp
  | some installedAt => return installedAt
  | none => ask world.now

/-- The file of the pointer that pairs with the carrier. -/
def settlePointer (activeActor : Ulid) (committedAt : Timestamp)
    (carrier : InstalledAuthorizationView) (carrierJson : File) (installedAt : Option Timestamp)
    (pointerJson : Option File) : Option InstalledGenerationPointer → PublicationCall File File
  | some pointer => return format.pointer.dump pointer
  | none => do
      let installedAt ← installationTime world installedAt
      let intended := format.pointer.dump
        (buildPointer target activeActor committedAt installedAt carrier.installedStateId)
      let _ ← writePointer format world target activeActor carrierJson pointerJson intended
      return intended

/-- The last part of a publication: with the pair in place and audited, the marker. -/
def publishMarker (activeActor : Ulid) (carrierJson pointerBytes : File) :
    PublicationCall File ProjectAuthority := do
  point world.cut .stopped
  let observedCarrier ← readControlFile world (·.carrier target.user)
  let observedPointer ← readControlFile world (·.pointer target.user)
  ensure (observedCarrier = some carrierJson ∧ observedPointer = some pointerBytes)
    .controlPublicationFailed
  let carrier ←
    Effect.ofExcept (requirePublishedCarrier format target activeActor carrierJson carrierJson)
  let pointer ← Effect.ofExcept (parseExactPointer format pointerBytes)
  Effect.ofExcept (requirePublishedPair File target activeActor carrier pointer)
  let _ ← auditInstalledRoot world target
  let marker ← readControlFile world (·.marker)
  ensure (marker = none) .controlPublicationFailed
  requireActor world target
  let markerBytes := format.marker.dump (expectedMarker target)
  let _ ← durableWrite world (·.withMarker markerBytes) (.wroteMarker target.identity)
  let observedMarker ← readControlFile world (·.marker)
  ensure (observedMarker = some markerBytes) .controlPublicationFailed
  let verified ← activeSelection format world target activeActor markerBytes
  ensure (verified.2 = (carrierJson, pointerBytes)) .controlPublicationFailed
  let _ ← auditInstalledRoot world target
  return verified.1

def publishUnmarked (activeActor : Ulid) : PublicationCall File ProjectAuthority := do
  let carrierJson ← readControlFile world (·.carrier target.user)
  let carrier ← Effect.ofExcept (readCarrier format carrierJson)
  ensure (∀ view ∈ carrier, view.installedForUserId = activeActor ∧
    view.installedForUserId = target.user) .replicaActorMismatch
  let committedAt ← auditInstalledRoot world target
  let retained ← Effect.ofExcept (retainedCarrier File target activeActor carrier)
  let pointerJson ← readControlFile world (·.pointer target.user)
  let pointer ← Effect.ofExcept (retainedPointer format target activeActor retained pointerJson)
  let settled ← settleCarrier format world target activeActor committedAt carrierJson retained
  let pointerBytes ← settlePointer format world target activeActor committedAt settled.1
    settled.2.1 settled.2.2 pointerJson pointer
  publishMarker format world target activeActor settled.2.1 pointerBytes

/-- A store that has its marker is only checked. -/
def publishUnder (activeActor : Ulid) : Option File → PublicationCall File ProjectAuthority
  | some markerJson => do
      let verified ← activeSelection format world target activeActor markerJson
      let _ ← auditInstalledRoot world target
      return verified.1
  | none => publishUnmarked format world target activeActor

/-- `_publish_generation_control`. -/
def publishGenerationControl : PublicationCall File ProjectAuthority := do
  requireActor world target
  point world.cut .stopped
  let pending ← Effect.ofExcept (selectMarkerAuthority format target.binding
    (some (format.marker.dump (expectedMarker target))) (some target.user.text))
  let _ ← Effect.ofOption .controlPublicationFailed pending
  point world.cut .stopped
  let intent ← readControlFile world (·.refreshIntent target.user)
  ensure (intent = none) .refreshRequired
  let marker ← readControlFile world (·.marker)
  let verified ← publishUnder format world target target.user marker
  requireActor world target
  return verified

end Client
end Nauro
