import Nauro.Client.Generation
import Nauro.Foundation.Effect

/-!
# Refresh intents

An account moves from one generation to another under an intent, which is written before the
controls change: it holds the controls it starts from and the pair it leads to. An intent that
takes over from another names it by digest, and the older one is kept in an archive.
-/

namespace Nauro
namespace Client

open Foundation Nauro.Core Nauro.Sync

/-- Go on only if the condition holds. -/
def refuseUnless (condition : Prop) [Decidable condition] (error : GenerationError) :
    Except GenerationError Unit :=
  if condition then .ok () else .error error

theorem refuseUnless_eq_ok_iff {condition : Prop} [Decidable condition] {error : GenerationError}
    {u : Unit} : refuseUnless condition error = .ok u ↔ condition := by
  unfold refuseUnless
  split <;> simp_all

def maxControlBytes : Nat := 16 * 1024

def maxIntentBytes : Nat := 128 * 1024

inductive RefreshKind where
  | refresh
  | reconcile
deriving DecidableEq

structure RefreshIntent (File : Type) where
  kind : RefreshKind
  markerJson : File
  basePointerJson : File
  baseAuthorizationJson : File
  targetPointerJson : File
  targetAuthorizationJson : File
  predecessorDigest : Option Digest
deriving DecidableEq

/-- How far the controls have come. -/
inductive RefreshControlState where
  | basePresent
  | carrierPublished
  | targetPresent
  | conflict
deriving DecidableEq

/-- The files of intents beside those of the controls: the digest of a file, the digest of the
JSON of an intent, the JSON of an intent next to its digest, and the strict reader of such
files. -/
structure RefreshFormat (File : Type) extends ControlFormat File where
  size : File → Nat
  digest : File → Digest
  payloadDigest : RefreshIntent File → Digest
  dumpIntent : RefreshIntent File → Digest → File
  loadIntent? : File → Option (RefreshIntent File × Digest)

variable {File : Type} [DecidableEq File] (format : RefreshFormat File)

/-! ## Evidence -/

/-- `_pointer`: a bounded canonical pointer. -/
def evidencePointer (raw : File) : Except GenerationError InstalledGenerationPointer :=
  if format.size raw = 0 ∨ maxControlBytes < format.size raw then .error .refreshEvidenceInvalid
  else
    match format.pointer.load? raw with
    | none => .error .generationControlCorrupt
    | some pointer =>
        if format.pointer.dump pointer ≠ raw then .error .refreshEvidenceInvalid else .ok pointer

/-- `_carrier`: a bounded canonical carrier. -/
def evidenceCarrier (raw : File) : Except GenerationError InstalledAuthorizationView :=
  if format.size raw = 0 ∨ maxControlBytes < format.size raw then .error .refreshEvidenceInvalid
  else parseAuthorizationView format.toControlFormat raw

/-- A canonical marker. -/
def evidenceMarker (raw : File) : Except GenerationError GenerationAuthorityMarker :=
  match format.marker.load? raw with
  | none => .error .generationControlCorrupt
  | some marker =>
      if format.marker.dump marker ≠ raw then .error .refreshEvidenceInvalid else .ok marker

/-- `RefreshControlPair`: the pointer of a pair. -/
def refreshControlPair (pointerJson authorizationJson : File) :
    Except GenerationError InstalledGenerationPointer := do
  let pointer ← evidencePointer format pointerJson
  let carrier ← evidenceCarrier format authorizationJson
  refuseUnless (pointer.toInstalledAuthorizationView = carrier) .refreshEvidenceInvalid
  return pointer

/-! ## Intents -/

/-- A record of the project and format of the marker, and of the account. -/
def GenerationAuthorityMarker.Binds (marker : GenerationAuthorityMarker) (user : Ulid)
    (record : ProjectionIdentity) : Prop :=
  record.projectId = marker.projectId ∧
    record.storeFormatVersion = marker.storeFormatVersion ∧ record.installedForUserId = user

instance (marker : GenerationAuthorityMarker) (user : Ulid) (record : ProjectionIdentity) :
    Decidable (marker.Binds user record) :=
  inferInstanceAs (Decidable (_ ∧ _ ∧ _))

/-- `validate_transition`. -/
def RefreshIntent.validate (intent : RefreshIntent File) : Except GenerationError Unit := do
  let marker ← evidenceMarker format intent.markerJson
  let before ← evidencePointer format intent.basePointerJson
  let priorView ← evidenceCarrier format intent.baseAuthorizationJson
  let after ←
    refreshControlPair format intent.targetPointerJson intent.targetAuthorizationJson
  refuseUnless (marker.Binds before.installedForUserId before.toProjectionIdentity ∧
    marker.Binds before.installedForUserId priorView.toProjectionIdentity ∧
    marker.Binds before.installedForUserId after.toProjectionIdentity) .refreshEvidenceInvalid
  refuseUnless (after.installedStateId ≠ before.installedStateId ∧
    after.installedStateId ≠ priorView.installedStateId) .refreshEvidenceInvalid
  match intent.kind with
  | .refresh => do
      let _ ← refreshControlPair format intent.basePointerJson intent.baseAuthorizationJson
  | .reconcile => refuseUnless (intent.predecessorDigest ≠ none) .refreshEvidenceInvalid

/-- The state of controls that were read. -/
def RefreshIntent.stateOf (intent : RefreshIntent File) (marker pointer carrier : File) :
    RefreshControlState :=
  if marker ≠ intent.markerJson then .conflict
  else if pointer = intent.basePointerJson ∧ carrier = intent.baseAuthorizationJson then
    .basePresent
  else if pointer = intent.basePointerJson ∧ carrier = intent.targetAuthorizationJson then
    .carrierPublished
  else if pointer = intent.targetPointerJson ∧ carrier = intent.targetAuthorizationJson then
    .targetPresent
  else .conflict

def RefreshIntent.classify (intent : RefreshIntent File) (marker pointer carrier : File) :
    Except GenerationError RefreshControlState := do
  let _ ← evidencePointer format pointer
  let _ ← evidenceCarrier format carrier
  let _ ← evidenceMarker format marker
  return intent.stateOf marker pointer carrier

def encodeIntent (intent : RefreshIntent File) : Except GenerationError File := do
  intent.validate format
  let raw := format.dumpIntent intent (format.payloadDigest intent)
  refuseUnless (format.size raw ≤ maxIntentBytes) .refreshEvidenceInvalid
  return raw

/-- An intent is read only from the file that it is written to. -/
def decodeIntent (raw : File) : Except GenerationError (RefreshIntent File) :=
  if maxIntentBytes < format.size raw then .error .refreshEvidenceInvalid
  else
    match format.loadIntent? raw with
    | none => .error .refreshEvidenceInvalid
    | some (intent, _) =>
        match encodeIntent format intent with
        | .error _ => .error .refreshEvidenceInvalid
        | .ok encoded => if encoded ≠ raw then .error .refreshEvidenceInvalid else .ok intent

/-- The intent takes over from the one of the file. -/
def requirePredecessor (intent : RefreshIntent File) (raw : File) :
    Except GenerationError Unit := do
  refuseUnless (intent.predecessorDigest = some (format.digest raw)) .refreshEvidenceInvalid
  let prior ← decodeIntent format raw
  let state ← prior.classify format intent.markerJson intent.basePointerJson
    intent.baseAuthorizationJson
  refuseUnless (state ≠ .conflict ∧ (intent.kind = .refresh → state = .targetPresent))
    .refreshEvidenceInvalid
  let after ← evidencePointer format intent.targetPointerJson
  let priorAfter ← evidencePointer format prior.targetPointerJson
  refuseUnless (after.installedStateId ≠ priorAfter.installedStateId) .refreshEvidenceInvalid

/-! ## Retained intents -/

/-- `_controls`: marker, pointer and carrier, all present. -/
def controlsOf (disk : ControlDisk File) (actor : Ulid) :
    Except GenerationError (File × File × File) :=
  match disk.marker, disk.pointer actor, disk.carrier actor with
  | some marker, some pointer, some carrier => .ok (marker, pointer, carrier)
  | _, _, _ => .error .refreshEvidenceInvalid

/-- The predecessor that the intent names is archived, and is its predecessor. -/
def requireArchived (disk : ControlDisk File) (actor : Ulid) (intent : RefreshIntent File) :
    Except GenerationError Unit :=
  match intent.predecessorDigest with
  | none => .ok ()
  | some digest =>
      match (disk.actors actor).refreshHistory digest with
      | none => .error .refreshEvidenceInvalid
      | some archived => requirePredecessor format intent archived

/-- `_intent`: the file of the account's intent, and the intent. -/
def retainedIntent (disk : ControlDisk File) (actor : Ulid) :
    Except GenerationError (File × RefreshIntent File) :=
  match disk.refreshIntent actor with
  | none => .error .refreshRequired
  | some raw => do
      let intent ← decodeIntent format raw
      requireArchived format disk actor intent
      let (marker, pointer, carrier) ← controlsOf disk actor
      let state ← intent.classify format marker pointer carrier
      refuseUnless (state ≠ .conflict) .refreshEvidenceInvalid
      return (raw, intent)

/-! ## Laws of the format -/

/-- Readers undo writers, and the records of the hosted format fit. -/
structure RefreshFormat.Lawful (format : RefreshFormat File) : Prop where
  controls : format.toControlFormat.Lawful
  loadIntent?_dump : ∀ intent digest,
    format.loadIntent? (format.dumpIntent intent digest) = some (intent, digest)
  size_pointer : ∀ pointer, pointer.storeFormatVersion = hostedStoreFormatVersion →
    0 < format.size (format.pointer.dump pointer) ∧
      format.size (format.pointer.dump pointer) ≤ maxControlBytes
  size_view : ∀ view, view.storeFormatVersion = hostedStoreFormatVersion →
    0 < format.size (format.view.dump view) ∧
      format.size (format.view.dump view) ≤ maxControlBytes
  size_intent : ∀ (intent : RefreshIntent File) marker before priorView after afterView,
    marker.storeFormatVersion = hostedStoreFormatVersion →
    before.storeFormatVersion = hostedStoreFormatVersion →
    priorView.storeFormatVersion = hostedStoreFormatVersion →
    after.storeFormatVersion = hostedStoreFormatVersion →
    afterView.storeFormatVersion = hostedStoreFormatVersion →
    intent.markerJson = format.marker.dump marker →
    intent.basePointerJson = format.pointer.dump before →
    intent.baseAuthorizationJson = format.view.dump priorView →
    intent.targetPointerJson = format.pointer.dump after →
    intent.targetAuthorizationJson = format.view.dump afterView →
    format.size (format.dumpIntent intent (format.payloadDigest intent)) ≤ maxIntentBytes

variable {format}

theorem decodeIntent_of_encodeIntent (hformat : format.Lawful) {intent : RefreshIntent File}
    {raw : File} (h : encodeIntent format intent = .ok raw) :
    decodeIntent format raw = .ok intent := by
  obtain ⟨_, -, hrest⟩ := bind_eq_ok_iff.mp h
  obtain ⟨_, hsize, hraw⟩ := bind_eq_ok_iff.mp hrest
  cases hraw
  unfold decodeIntent
  rw [if_neg (Nat.not_lt.mpr (refuseUnless_eq_ok_iff.mp hsize)), hformat.loadIntent?_dump]
  simp [h]

theorem encodeIntent_of_decodeIntent {intent : RefreshIntent File} {raw : File}
    (h : decodeIntent format raw = .ok intent) : encodeIntent format intent = .ok raw := by
  unfold decodeIntent at h
  split at h
  · cases h
  · split at h
    · cases h
    · split at h
      · cases h
      · rename_i encoded hencoded
        split at h
        · cases h
        · rename_i hsame
          cases h
          rw [hencoded, not_not.mp hsame]

theorem validate_of_encodeIntent {intent : RefreshIntent File} {raw : File}
    (h : encodeIntent format intent = .ok raw) : intent.validate format = .ok () := by
  obtain ⟨_, hvalid, -⟩ := bind_eq_ok_iff.mp h
  exact hvalid

/-! ## Evidence that is read -/

theorem eq_dump_of_evidencePointer {raw : File} {pointer : InstalledGenerationPointer}
    (h : evidencePointer format raw = .ok pointer) : raw = format.pointer.dump pointer := by
  unfold evidencePointer at h
  split at h
  · cases h
  · split at h
    · cases h
    · split at h
      · cases h
      · rename_i hraw
        cases h
        exact (not_not.mp hraw).symm

theorem eq_dump_of_evidenceCarrier {raw : File} {view : InstalledAuthorizationView}
    (h : evidenceCarrier format raw = .ok view) : raw = format.view.dump view := by
  unfold evidenceCarrier at h
  split at h
  · cases h
  · exact eq_dump_of_parseAuthorizationView h

theorem eq_dump_of_evidenceMarker {raw : File} {marker : GenerationAuthorityMarker}
    (h : evidenceMarker format raw = .ok marker) : raw = format.marker.dump marker := by
  unfold evidenceMarker at h
  split at h
  · cases h
  · split at h
    · cases h
    · rename_i hraw
      cases h
      exact (not_not.mp hraw).symm

theorem evidencePointer_dump (hformat : format.Lawful) {pointer : InstalledGenerationPointer}
    (h : pointer.storeFormatVersion = hostedStoreFormatVersion) :
    evidencePointer format (format.pointer.dump pointer) = .ok pointer := by
  obtain ⟨hnonempty, hbounded⟩ := hformat.size_pointer pointer h
  have hfits : ¬ (format.size (format.pointer.dump pointer) = 0 ∨
      maxControlBytes < format.size (format.pointer.dump pointer)) := by omega
  simp [evidencePointer, hfits, hformat.controls.pointer.load?_dump]

theorem evidenceCarrier_dump (hformat : format.Lawful) {view : InstalledAuthorizationView}
    (h : view.storeFormatVersion = hostedStoreFormatVersion) :
    evidenceCarrier format (format.view.dump view) = .ok view := by
  obtain ⟨hnonempty, hbounded⟩ := hformat.size_view view h
  have hfits : ¬ (format.size (format.view.dump view) = 0 ∨
      maxControlBytes < format.size (format.view.dump view)) := by omega
  unfold evidenceCarrier
  rw [if_neg hfits, parseAuthorizationView_dump hformat.controls]

theorem evidenceMarker_dump (hformat : format.Lawful) (marker : GenerationAuthorityMarker) :
    evidenceMarker format (format.marker.dump marker) = .ok marker := by
  simp [evidenceMarker, hformat.controls.marker.load?_dump]

theorem refreshControlPair_eq_ok_iff {pointerJson authorizationJson : File}
    {pointer : InstalledGenerationPointer} :
    refreshControlPair format pointerJson authorizationJson = .ok pointer ↔
      evidencePointer format pointerJson = .ok pointer ∧
        evidenceCarrier format authorizationJson = .ok pointer.toInstalledAuthorizationView := by
  constructor
  · intro h
    obtain ⟨read, hread, h⟩ := bind_eq_ok_iff.mp h
    obtain ⟨view, hview, h⟩ := bind_eq_ok_iff.mp h
    obtain ⟨_, hpair, h⟩ := bind_eq_ok_iff.mp h
    cases h
    exact ⟨hread, by rw [hview, refuseUnless_eq_ok_iff.mp hpair]⟩
  · rintro ⟨hpointer, hview⟩
    unfold refreshControlPair
    rw [hpointer]
    refine bind_eq_ok_iff.mpr ⟨pointer, rfl, ?_⟩
    refine bind_eq_ok_iff.mpr ⟨_, hview, ?_⟩
    exact bind_eq_ok_iff.mpr ⟨⟨⟩, refuseUnless_eq_ok_iff.mpr rfl, rfl⟩

/-! ## Transitions -/

/-- The records of an intent that may be written. -/
structure Transition (format : RefreshFormat File) (intent : RefreshIntent File)
    (marker : GenerationAuthorityMarker) (before : InstalledGenerationPointer)
    (priorView : InstalledAuthorizationView) (after : InstalledGenerationPointer) : Prop where
  readMarker : evidenceMarker format intent.markerJson = .ok marker
  readBefore : evidencePointer format intent.basePointerJson = .ok before
  readPriorView : evidenceCarrier format intent.baseAuthorizationJson = .ok priorView
  readAfter : evidencePointer format intent.targetPointerJson = .ok after
  readAfterView : evidenceCarrier format intent.targetAuthorizationJson =
    .ok after.toInstalledAuthorizationView
  binds : ∀ record ∈ [before.toProjectionIdentity, priorView.toProjectionIdentity,
    after.toProjectionIdentity], marker.Binds before.installedForUserId record
  fresh : after.installedStateId ≠ before.installedStateId
  freshView : after.installedStateId ≠ priorView.installedStateId
  ofRefresh : intent.kind = .refresh → before.toInstalledAuthorizationView = priorView
  ofReconcile : intent.kind = .reconcile → intent.predecessorDigest ≠ none

theorem validate_eq_ok_iff {intent : RefreshIntent File} :
    intent.validate format = .ok () ↔
      ∃ marker before priorView after, Transition format intent marker before priorView after := by
  constructor
  · intro h
    obtain ⟨marker, hmarker, h⟩ := bind_eq_ok_iff.mp h
    obtain ⟨before, hbefore, h⟩ := bind_eq_ok_iff.mp h
    obtain ⟨priorView, hpriorView, h⟩ := bind_eq_ok_iff.mp h
    obtain ⟨after, hafter, h⟩ := bind_eq_ok_iff.mp h
    obtain ⟨_, hbinds, h⟩ := bind_eq_ok_iff.mp h
    obtain ⟨_, hfresh, h⟩ := bind_eq_ok_iff.mp h
    have hpair := refreshControlPair_eq_ok_iff.mp hafter
    have hbound := refuseUnless_eq_ok_iff.mp hbinds
    have hnew := refuseUnless_eq_ok_iff.mp hfresh
    refine ⟨marker, before, priorView, after, hmarker, hbefore, hpriorView, hpair.1, hpair.2,
      by simpa using hbound, hnew.1, hnew.2, fun hkind => ?_, fun hkind => ?_⟩
    · rw [hkind] at h
      obtain ⟨other, hother, -⟩ := bind_eq_ok_iff.mp h
      obtain ⟨hpointer, hview⟩ := refreshControlPair_eq_ok_iff.mp hother
      rw [hbefore] at hpointer
      rw [hpriorView] at hview
      cases hpointer
      exact (Except.ok.inj hview).symm
    · rw [hkind] at h
      exact refuseUnless_eq_ok_iff.mp h
  · rintro ⟨marker, before, priorView, after, h⟩
    refine bind_eq_ok_iff.mpr ⟨marker, h.readMarker, ?_⟩
    refine bind_eq_ok_iff.mpr ⟨before, h.readBefore, ?_⟩
    refine bind_eq_ok_iff.mpr ⟨priorView, h.readPriorView, ?_⟩
    refine bind_eq_ok_iff.mpr
      ⟨after, refreshControlPair_eq_ok_iff.mpr ⟨h.readAfter, h.readAfterView⟩, ?_⟩
    refine bind_eq_ok_iff.mpr
      ⟨⟨⟩, refuseUnless_eq_ok_iff.mpr (by simpa using h.binds), ?_⟩
    refine bind_eq_ok_iff.mpr ⟨⟨⟩, refuseUnless_eq_ok_iff.mpr ⟨h.fresh, h.freshView⟩, ?_⟩
    cases hkind : intent.kind with
    | refresh =>
        refine bind_eq_ok_iff.mpr
          ⟨before, refreshControlPair_eq_ok_iff.mpr ⟨h.readBefore, ?_⟩, rfl⟩
        rw [h.readPriorView, h.ofRefresh hkind]
    | reconcile => exact refuseUnless_eq_ok_iff.mpr (h.ofReconcile hkind)

/-- The states of the controls that an intent leads through. -/
inductive RefreshStage where
  | base
  | carrier
  | target
deriving DecidableEq

def RefreshStage.state : RefreshStage → RefreshControlState
  | .base => .basePresent
  | .carrier => .carrierPublished
  | .target => .targetPresent

def RefreshIntent.pointerAt (intent : RefreshIntent File) : RefreshStage → File
  | .target => intent.targetPointerJson
  | _ => intent.basePointerJson

def RefreshIntent.carrierAt (intent : RefreshIntent File) : RefreshStage → File
  | .base => intent.baseAuthorizationJson
  | _ => intent.targetAuthorizationJson

variable {intent : RefreshIntent File} {marker : GenerationAuthorityMarker}
  {before after : InstalledGenerationPointer} {priorView : InstalledAuthorizationView}

/-- An intent tells its stages apart. -/
theorem Transition.stateOf_at (h : Transition format intent marker before priorView after)
    (stage : RefreshStage) :
    intent.stateOf intent.markerJson (intent.pointerAt stage) (intent.carrierAt stage) =
      stage.state := by
  have hpointer : intent.targetPointerJson ≠ intent.basePointerJson := by
    intro heq
    have hsame := h.readAfter
    rw [heq, h.readBefore] at hsame
    cases hsame
    exact h.fresh rfl
  have hcarrier : intent.targetAuthorizationJson ≠ intent.baseAuthorizationJson := by
    intro heq
    have hsame := h.readAfterView
    rw [heq, h.readPriorView] at hsame
    exact h.freshView (congrArg InstalledAuthorizationView.installedStateId
      (Except.ok.inj hsame)).symm
  cases stage <;>
    simp [RefreshIntent.stateOf, RefreshIntent.pointerAt, RefreshIntent.carrierAt,
      RefreshStage.state, hpointer, hcarrier]

theorem Transition.classify_at (h : Transition format intent marker before priorView after)
    (stage : RefreshStage) :
    intent.classify format intent.markerJson (intent.pointerAt stage) (intent.carrierAt stage) =
      .ok stage.state := by
  have hpointer : ∃ pointer, evidencePointer format (intent.pointerAt stage) = .ok pointer := by
    cases stage with
    | target => exact ⟨after, h.readAfter⟩
    | _ => exact ⟨before, h.readBefore⟩
  have hcarrier : ∃ view, evidenceCarrier format (intent.carrierAt stage) = .ok view := by
    cases stage with
    | base => exact ⟨priorView, h.readPriorView⟩
    | _ => exact ⟨_, h.readAfterView⟩
  obtain ⟨pointer, hpointer⟩ := hpointer
  obtain ⟨view, hcarrier⟩ := hcarrier
  refine bind_eq_ok_iff.mpr ⟨pointer, hpointer, bind_eq_ok_iff.mpr ⟨view, hcarrier,
    bind_eq_ok_iff.mpr ⟨marker, h.readMarker, ?_⟩⟩⟩
  exact congrArg Except.ok (h.stateOf_at stage)

/-- Controls that do not conflict with an intent are those of one of its stages. -/
theorem stage_of_classify {markerJson pointerJson carrierJson : File}
    {state : RefreshControlState}
    (h : intent.classify format markerJson pointerJson carrierJson = .ok state)
    (hstate : state ≠ .conflict) :
    markerJson = intent.markerJson ∧ ∃ stage : RefreshStage, state = stage.state ∧
      pointerJson = intent.pointerAt stage ∧ carrierJson = intent.carrierAt stage := by
  obtain ⟨_, -, h⟩ := bind_eq_ok_iff.mp h
  obtain ⟨_, -, h⟩ := bind_eq_ok_iff.mp h
  obtain ⟨_, -, h⟩ := bind_eq_ok_iff.mp h
  cases h
  unfold RefreshIntent.stateOf at hstate ⊢
  split at hstate
  · exact absurd rfl hstate
  · rename_i hmarker
    refine ⟨not_not.mp hmarker, ?_⟩
    rw [if_neg hmarker]
    split at hstate
    · rename_i hbase
      exact ⟨.base, if_pos hbase, hbase.1, hbase.2⟩
    · rename_i hbase
      rw [if_neg hbase]
      split at hstate
      · rename_i hcarrier
        exact ⟨.carrier, if_pos hcarrier, hcarrier.1, hcarrier.2⟩
      · rename_i hcarrier
        rw [if_neg hcarrier]
        split at hstate
        · rename_i htarget
          exact ⟨.target, if_pos htarget, htarget.1, htarget.2⟩
        · exact absurd rfl hstate

end Client
end Nauro
