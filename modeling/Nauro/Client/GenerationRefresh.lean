import Nauro.Client.RefreshIntent
import Nauro.Foundation.Session

/-!
# Refreshing a generation

A refresh moves an account of a published store to another generation. It is prepared from the
controls and the intent it finds, and committed under the control lock: the older intent is
archived, the new one is written, then the carrier, then the pointer. A commit that was cut off
is resumed by the next one to the same target, and a commit to another target takes over from
it. A generation is admitted only when both controls are those of the intent's target.
-/

namespace Nauro
namespace Client
namespace Refresh

open Foundation Foundation.Session Nauro.Core

/-- What a call finds around it, asked anew at each of its steps. -/
structure World where
  /-- The process is killed, a path or file fails its checks, or the lock cannot be had. -/
  cut : Nat → Bool
  activeUserId : Nat → Option Text
  /-- Whether the installed root of the target passes its audit. -/
  audited : Nat → GenerationProjectionTarget → Bool
  /-- The target the server authorizes. -/
  observed : Nat → Option GenerationProjectionTarget
  /-- The target of the projection the server delivers. -/
  acquired : Nat → Option GenerationProjectionTarget
  newUlid : Nat → Ulid
  now : Nat → Timestamp

/-- What a commit starts from: the verified projection, and the files that were found. -/
structure Prepared (File : Type) where
  target : GenerationProjectionTarget
  marker : File
  pointer : File
  carrier : File
  priorIntent : Option File
deriving DecidableEq

variable {File : Type} [DecidableEq File]

abbrev RefreshCall (File α : Type) := Call (ControlDisk File) Empty GenerationError α

variable (format : RefreshFormat File) (world : World) (actor : Ulid)

/-! ## Steps -/

def requireActor : RefreshCall File PUnit := do
  point world.cut .stopped
  let active ← ask world.activeUserId
  ensure (active = some actor.text) .replicaActorMismatch

/-- `_locked`: the control lock is held, and the actor active. -/
def enter : RefreshCall File PUnit := do
  point world.cut .stopped
  requireActor world actor

/-- Files are read; no other writer holds the lock meanwhile. -/
def inspect {α : Type} (read : ControlDisk File → Except GenerationError α) :
    RefreshCall File α := do
  point world.cut .stopped
  Effect.ofExcept (read (← readDisk))

def readControls : RefreshCall File (File × File × File) :=
  inspect world (controlsOf · actor)

def readIntent : RefreshCall File (Option File) :=
  inspect world fun disk => .ok (disk.refreshIntent actor)

def readRetained : RefreshCall File (File × RefreshIntent File) :=
  inspect world (retainedIntent format · actor)

def classifyControls (intent : RefreshIntent File) : RefreshCall File RefreshControlState := do
  let controls ← readControls world actor
  Effect.ofExcept (intent.classify format controls.1 controls.2.1 controls.2.2)

/-- `_sync_target`: the installed root is audited and made durable. -/
def syncTarget (target : GenerationProjectionTarget) : RefreshCall File PUnit := do
  point world.cut .stopped
  let audited ← ask fun tick => world.audited tick target
  ensure (audited = true) .generationRootDiverged

/-- One atomic replacement, read back. -/
def durableReplace (update : ControlDisk File → ControlDisk File)
    (file : ControlDisk File → Option File) (raw : File) : RefreshCall File PUnit := do
  point world.cut .stopped
  replaceDisk (update (← readDisk))
  let replaced ← inspect world fun disk => .ok (file disk)
  ensure (replaced = some raw) .refreshEvidenceInvalid

/-- The predecessor is archived under its digest; an archive is never replaced. -/
def preservePredecessor (digest : Digest) (raw : File) : RefreshCall File PUnit := do
  ensure (format.digest raw = digest) .refreshEvidenceInvalid
  let existing ← inspect world fun disk => .ok ((disk.actors actor).refreshHistory digest)
  onlyIf (existing = none) (do replaceDisk ((← readDisk).withArchived actor digest raw))
  let archived ← inspect world fun disk => .ok ((disk.actors actor).refreshHistory digest)
  ensure (archived = some raw) .refreshEvidenceInvalid
  point world.cut .stopped

/-! ## Targets -/

/-- `_target`: the target an intent leads to. -/
def targetOf (binding : ResolvedProjectBinding) (intent : RefreshIntent File) :
    Except GenerationError GenerationProjectionTarget :=
  match evidencePointer format intent.targetPointerJson with
  | .error error => .error error
  | .ok pointer =>
      if h : binding.mode = .cloudMode ∧ pointer.projectId = binding.projectId ∧
          pointer.storeFormatVersion = hostedStoreFormatVersion then
        .ok ⟨binding, pointer.toProjectionIdentity, h.1, h.2.1, h.2.2⟩
      else .error .generationVerificationFailed

def sameReplicaScope (first second : GenerationProjectionTarget) : Bool :=
  first.binding = second.binding ∧ first.identity.projectId = second.identity.projectId ∧
    first.user = second.user ∧
    first.identity.projectionScopeId = second.identity.projectionScopeId ∧
    first.identity.projectionClass = second.identity.projectionClass ∧
    first.identity.storeFormatVersion = second.identity.storeFormatVersion

/-! ## Preparation -/

/-- What an explicit bootstrap starts from: a pair of the binding, and no intent. -/
def bootstrapBase (binding : ResolvedProjectBinding) :
    RefreshCall File ((File × File × File) × Option File × Option GenerationProjectionTarget) := do
  enter world actor
  let controls ← readControls world actor
  let raw ← readIntent world actor
  ensure (raw = none) .refreshRequired
  let pointer ← Effect.ofExcept (refreshControlPair format controls.2.1 controls.2.2)
  ensure (pointer.installedForUserId = actor ∧ pointer.projectId = binding.projectId)
    .refreshEvidenceInvalid
  return (controls, none, none)

/-- The target of a completed refresh. -/
def installedTarget (binding : ResolvedProjectBinding) (intent : RefreshIntent File) :
    RefreshControlState → Except GenerationError (Option GenerationProjectionTarget)
  | .targetPresent => (targetOf format binding intent).map some
  | _ => .ok none

/-- What any later refresh starts from: the controls, the intent, and the target when the
intent has been completed. -/
def retainedBase (binding : ResolvedProjectBinding) :
    RefreshCall File ((File × File × File) × Option File × Option GenerationProjectionTarget) := do
  enter world actor
  let controls ← readControls world actor
  let found ← readRetained format world actor
  let state ← Effect.ofExcept (found.2.classify format controls.1 controls.2.1 controls.2.2)
  let installed ← Effect.ofExcept (installedTarget format binding found.2 state)
  return (controls, some found.1, installed)

/-- `_capture_prepared`: the installed root is captured while nothing has changed. -/
def capturePrepared (controls : File × File × File) (raw : Option File)
    (target : GenerationProjectionTarget) : RefreshCall File PUnit := do
  enter world actor
  let before ← readControls world actor
  let found ← readRetained format world actor
  ensure (before = controls ∧ some found.1 = raw) .refreshEvidenceInvalid
  syncTarget world target
  requireActor world actor
  let after ← readControls world actor
  let found ← readRetained format world actor
  ensure (after = controls ∧ some found.1 = raw) .refreshEvidenceInvalid

/-- The target of the projection that is to be installed: one that was acquired before, what is
installed already when it is still authorized, or what the server delivers. -/
def acquire (binding : ResolvedProjectBinding)
    (base : (File × File × File) × Option File × Option GenerationProjectionTarget) :
    Option GenerationProjectionTarget → RefreshCall File GenerationProjectionTarget
  | some target => do
      ensure (target.binding = binding ∧ target.user = actor) .refreshEvidenceInvalid
      requireActor world actor
      let current ← ask world.observed
      requireActor world actor
      ensure (current = some target) .refreshRequired
      return target
  | none => do
      ensure (∀ installed ∈ base.2.2, installed.user = actor) .refreshEvidenceInvalid
      match base.2.2 with
      | none => do
          let acquired ← ask world.acquired
          Effect.ofOption .stopped acquired
      | some installed => do
          let observed ← ask world.observed
          let observed ← Effect.ofOption .stopped observed
          onlyIf (sameReplicaScope installed observed = true)
            (capturePrepared format world actor base.1 base.2.1 installed)
          if observed = installed then return installed
          else do
            let acquired ← ask world.acquired
            Effect.ofOption .stopped acquired

/-- `_prepare`. -/
def prepare (binding : ResolvedProjectBinding) (bootstrap : Bool)
    (acquired : Option GenerationProjectionTarget) : RefreshCall File (Prepared File) := do
  let base ←
    if bootstrap then bootstrapBase format world actor binding
    else retainedBase format world actor binding
  let target ← acquire format world actor binding base acquired
  return ⟨target, base.1.1, base.1.2.1, base.1.2.2, base.2.1⟩

/-! ## Completion -/

/-- The intent is the retained one, and both controls are those of its target. -/
def requirePresent (intent : RefreshIntent File) (raw : File) (error : GenerationError) :
    RefreshCall File PUnit := do
  let found ← readRetained format world actor
  let state ← classifyControls format world actor intent
  ensure (found.1 = raw ∧ state = .targetPresent) error

/-- `_complete`: the generation of the target is served. -/
def complete (intent : RefreshIntent File) (target : GenerationProjectionTarget) :
    RefreshCall File GenerationProjectionTarget := do
  let retained ← Effect.ofExcept (targetOf format target.binding intent)
  ensure (target = retained) .refreshEvidenceInvalid
  let raw ← Effect.ofExcept (encodeIntent format intent)
  requirePresent format world actor intent raw .refreshRequired
  syncTarget world target
  requirePresent format world actor intent raw .refreshEvidenceInvalid
  syncTarget world target
  requirePresent format world actor intent raw .refreshEvidenceInvalid
  return target

/-! ## Commits -/

def publishCarrier (intent : RefreshIntent File) :
    RefreshControlState → RefreshCall File RefreshControlState
  | .basePresent => do
      requireActor world actor
      durableReplace world (·.withCarrier actor intent.targetAuthorizationJson) (·.carrier actor)
        intent.targetAuthorizationJson
      classifyControls format world actor intent
  | state => return state

def publishPointer (intent : RefreshIntent File) : RefreshControlState → RefreshCall File PUnit
  | .carrierPublished => do
      requireActor world actor
      durableReplace world (·.withPointer actor intent.targetPointerJson) (·.pointer actor)
        intent.targetPointerJson
  | _ => return ⟨⟩

/-- `_resume`: from any of its stages on, the intent is led to its target. -/
def resume (intent : RefreshIntent File) (target : GenerationProjectionTarget) :
    RefreshCall File GenerationProjectionTarget := do
  syncTarget world target
  let found ← readRetained format world actor
  let raw ← Effect.ofExcept (encodeIntent format intent)
  ensure (found.1 = raw) .refreshEvidenceInvalid
  let state ← classifyControls format world actor intent
  let state ← publishCarrier format world actor intent state
  publishPointer world actor intent state
  complete format world actor intent target

/-- The fields of `_new_intent`. -/
def intentFor (prepared : Prepared File) (stateId : Ulid) (now : Timestamp) :
    RefreshIntent File where
  kind := if prepared.priorIntent = none then .refresh else .reconcile
  markerJson := prepared.marker
  basePointerJson := prepared.pointer
  baseAuthorizationJson := prepared.carrier
  targetPointerJson := format.pointer.dump (buildPointer prepared.target prepared.target.user
    prepared.target.identity.committedAt now stateId)
  targetAuthorizationJson := format.view.dump (buildCarrier prepared.target prepared.target.user
    prepared.target.identity.committedAt stateId)
  predecessorDigest := prepared.priorIntent.map format.digest

/-- The predecessor of the new intent, if there is one, is archived. -/
def archivePredecessor (intent : RefreshIntent File) : Option File → RefreshCall File PUnit
  | none => return ⟨⟩
  | some prior => do
      Effect.ofExcept (requirePredecessor format intent prior)
      preservePredecessor format world actor (format.digest prior) prior

/-- A new intent is written and led to its target. -/
def beginRefresh (prepared : Prepared File) : RefreshCall File GenerationProjectionTarget := do
  let stateId ← ask world.newUlid
  let now ← ask world.now
  let intent := intentFor format prepared stateId now
  Effect.ofExcept (intent.validate format)
  archivePredecessor format world actor intent prepared.priorIntent
  let raw ← Effect.ofExcept (encodeIntent format intent)
  durableReplace world (·.withIntent actor raw) (·.refreshIntent actor) raw
  resume format world actor intent prepared.target

/-- The retained intent, when it leads to the target. -/
def sameTarget (target : GenerationProjectionTarget) (intent : RefreshIntent File) :
    Except GenerationError (Option (RefreshIntent File)) :=
  (targetOf format target.binding intent).map fun retained =>
    if retained = target then some intent else none

/-- The controls are those that were prepared from. -/
def requirePrepared (prepared : Prepared File) : RefreshCall File PUnit := do
  let controls ← readControls world actor
  ensure (controls = (prepared.marker, prepared.pointer, prepared.carrier))
    .refreshEvidenceInvalid

/-- The retained intent of a commit that has one, when it leads to the commit's target. -/
def retainedFor (prepared : Prepared File) :
    Option File → RefreshCall File (Option (RefreshIntent File))
  | none => return none
  | some _ => do
      let found ← readRetained format world actor
      Effect.ofExcept (sameTarget format prepared.target found.2)

/-- The second part of a commit: with the root installed, an intent is resumed or begun. -/
def publish (prepared : Prepared File) : RefreshCall File GenerationProjectionTarget := do
  point world.cut .stopped
  enter world actor
  requirePrepared world actor prepared
  let raw ← readIntent world actor
  ensure (raw = prepared.priorIntent) .refreshEvidenceInvalid
  syncTarget world prepared.target
  let prior ← retainedFor format world actor prepared prepared.priorIntent
  match prior with
  | some intent => resume format world actor intent prepared.target
  | none => beginRefresh format world actor prepared

/-- The first part of a commit that has a prior intent: the intent, when it has been completed
for the same target. -/
def completedFor (prepared : Prepared File) :
    Option File → RefreshCall File (Option (RefreshIntent File))
  | none => return none
  | some prior => do
      enter world actor
      requirePrepared world actor prepared
      let found ← readRetained format world actor
      ensure (found.1 = prior) .refreshEvidenceInvalid
      let same ← Effect.ofExcept (sameTarget format prepared.target found.2)
      let state ← Effect.ofExcept
        (found.2.classify format prepared.marker prepared.pointer prepared.carrier)
      return same.filter fun _ => state = .targetPresent

/-- `commit_generation_refresh`. -/
def commitGenerationRefresh (prepared : Prepared File) :
    RefreshCall File GenerationProjectionTarget := do
  point world.cut .stopped
  let completed ← completedFor format world prepared.target.user prepared prepared.priorIntent
  match completed with
  | some intent => complete format world prepared.target.user intent prepared.target
  | none => publish format world prepared.target.user prepared

/-- `admit_generation_store`. -/
def admitGenerationStore (binding : ResolvedProjectBinding) :
    RefreshCall File GenerationProjectionTarget := do
  enter world actor
  let found ← readRetained format world actor
  let state ← classifyControls format world actor found.2
  ensure (state = .targetPresent) .refreshRequired
  let target ← Effect.ofExcept (targetOf format binding found.2)
  syncTarget world target
  complete format world actor found.2 target

end Refresh
end Client
end Nauro
