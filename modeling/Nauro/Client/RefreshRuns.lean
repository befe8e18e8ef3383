import Nauro.Client.RefreshSteps

/-!
# Refreshes are crash-safe

Every write of a commit keeps the retained intent readable, its predecessor archived and the
controls at one of its stages, so that whatever a run of commits leaves can be led on.

* `refresh_safe` — whole runs.
-/

namespace Nauro
namespace Client
namespace Refresh

open Foundation Foundation.Session Nauro.Core

variable {File : Type} [DecidableEq File] {format : RefreshFormat File} {world : World}
  {actor : Ulid} {disk : ControlDisk File} {raw : File} {intent : RefreshIntent File}
  {stage : RefreshStage}

/-! ## The invariant -/

/-- The account's controls are records of the marker's project and of the account. -/
structure Bound (format : RefreshFormat File) (actor : Ulid) (marker : GenerationAuthorityMarker)
    (before : InstalledGenerationPointer) (priorView : InstalledAuthorizationView)
    (controls : File × File × File) : Prop where
  markerFile : controls.1 = format.marker.dump marker
  readPointer : evidencePointer format controls.2.1 = .ok before
  readCarrier : evidenceCarrier format controls.2.2 = .ok priorView
  bindsPointer : marker.Binds actor before.toProjectionIdentity
  bindsCarrier : marker.Binds actor priorView.toProjectionIdentity

/-- The intent is one of the account. -/
def Owned (format : RefreshFormat File) (actor : Ulid) (intent : RefreshIntent File) : Prop :=
  ∀ before, evidencePointer format intent.basePointerJson = .ok before →
    before.installedForUserId = actor

/-- The store has the marker, and the account has either a pair of its own and no intent, or an
intent of its own that stands over its controls. -/
def Invariant (format : RefreshFormat File) (actor : Ulid) (marker : GenerationAuthorityMarker)
    (disk : ControlDisk File) : Prop :=
  disk.marker = some (format.marker.dump marker) ∧
    ((disk.refreshIntent actor = none ∧ ∃ controls before, controlsOf disk actor = .ok controls ∧
        Bound format actor marker before before.toInstalledAuthorizationView controls) ∨
      ∃ raw intent stage, Retained format actor raw intent stage disk ∧
        Owned format actor intent)

variable {marker : GenerationAuthorityMarker}

/-- An owned intent binds its records to the account. -/
theorem Retained.owned (hformat : format.Lawful)
    (h : Retained format actor raw intent stage disk)
    (hmarker : disk.marker = some (format.marker.dump marker))
    (howned : Owned format actor intent) :
    ∃ before priorView after, Transition format intent marker before priorView after ∧
      before.installedForUserId = actor := by
  obtain ⟨other, before, priorView, after, htransition⟩ := h.transition
  have hfile : intent.markerJson = format.marker.dump marker :=
    Option.some.inj (h.markerFile.symm.trans hmarker)
  have hsame : other = marker := by
    have hread := htransition.readMarker
    rw [hfile, evidenceMarker_dump hformat] at hread
    exact (Except.ok.inj hread).symm
  rw [hsame] at htransition
  exact ⟨before, priorView, after, htransition, howned before htransition.readBefore⟩

/-- The controls of each stage of an owned intent are the account's. -/
theorem Retained.bound (hformat : format.Lawful)
    (h : Retained format actor raw intent stage disk)
    (hmarker : disk.marker = some (format.marker.dump marker))
    (howned : Owned format actor intent) :
    ∃ before priorView, Bound format actor marker before priorView
      (intent.markerJson, intent.pointerAt stage, intent.carrierAt stage) := by
  obtain ⟨before, priorView, after, htransition, rfl⟩ := h.owned hformat hmarker howned
  have hfile : intent.markerJson = format.marker.dump marker :=
    Option.some.inj (h.markerFile.symm.trans hmarker)
  have hbefore := htransition.binds before.toProjectionIdentity (by simp)
  have hprior := htransition.binds priorView.toProjectionIdentity (by simp)
  have hafter := htransition.binds after.toProjectionIdentity (by simp)
  cases stage with
  | base => exact ⟨before, priorView, hfile, htransition.readBefore, htransition.readPriorView,
      hbefore, hprior⟩
  | carrier => exact ⟨before, _, hfile, htransition.readBefore, htransition.readAfterView,
      hbefore, hafter⟩
  | target => exact ⟨after, _, hfile, htransition.readAfter, htransition.readAfterView,
      hafter, hafter⟩

theorem Invariant.controls (hformat : format.Lawful) (h : Invariant format actor marker disk) :
    ∃ controls before priorView, controlsOf disk actor = .ok controls ∧
      Bound format actor marker before priorView controls ∧
      (disk.refreshIntent actor = none → before.toInstalledAuthorizationView = priorView) := by
  obtain ⟨hmarker, ⟨hnone, controls, before, hcontrols, hbound⟩ | ⟨raw, intent, stage, hretained,
    howned⟩⟩ := h
  · exact ⟨controls, before, _, hcontrols, hbound, fun _ => rfl⟩
  · obtain ⟨before, priorView, hbound⟩ := hretained.bound hformat hmarker howned
    refine ⟨_, before, priorView, hretained.controlsOf, hbound, fun hnone => ?_⟩
    rw [hretained.intentFile] at hnone
    cases hnone

/-! ## New intents -/

/-- The commit was prepared from what the disk holds. -/
structure Matches (actor : Ulid) (prepared : Prepared File) (disk : ControlDisk File) : Prop where
  controls : controlsOf disk actor = .ok (prepared.marker, prepared.pointer, prepared.carrier)
  intent : disk.refreshIntent actor = prepared.priorIntent

/-- The target is one of the store's project, for the account. -/
structure Admissible (actor : Ulid) (marker : GenerationAuthorityMarker)
    (target : GenerationProjectionTarget) : Prop where
  user : target.user = actor
  project : target.identity.projectId = marker.projectId

/-- The id has not been used by the controls or the intent of the account. -/
structure Fresh (format : RefreshFormat File) (actor : Ulid) (disk : ControlDisk File)
    (stateId : Ulid) : Prop where
  pointer : ∀ pointerJson before, disk.pointer actor = some pointerJson →
    evidencePointer format pointerJson = .ok before → stateId ≠ before.installedStateId
  carrier : ∀ carrierJson priorView, disk.carrier actor = some carrierJson →
    evidenceCarrier format carrierJson = .ok priorView → stateId ≠ priorView.installedStateId
  intent : ∀ raw intent after, disk.refreshIntent actor = some raw →
    decodeIntent format raw = .ok intent →
    evidencePointer format intent.targetPointerJson = .ok after →
    stateId ≠ after.installedStateId

variable {prepared : Prepared File} {target : GenerationProjectionTarget} {stateId : Ulid}
  {now : Timestamp}

/-- A new intent with a fresh id may be written. -/
theorem transition_intentFor (hformat : format.Lawful)
    (hversion : marker.storeFormatVersion = hostedStoreFormatVersion)
    (h : Invariant format actor marker disk) (hmatches : Matches actor prepared disk)
    (htarget : Admissible actor marker prepared.target) (hfresh : Fresh format actor disk stateId) :
    ∃ before priorView, Transition format (intentFor format prepared stateId now) marker before
      priorView (buildPointer prepared.target prepared.target.user
        prepared.target.identity.committedAt now stateId) := by
  obtain ⟨controls, before, priorView, hcontrols, hbound, hpair⟩ := h.controls hformat
  rw [hmatches.controls] at hcontrols
  cases hcontrols
  obtain ⟨-, hpointerFile, hcarrierFile⟩ := controlsOf_eq_ok_iff.mp hmatches.controls
  have hmarker := hbound.markerFile
  have hafterVersion := prepared.target.supported
  refine ⟨before, priorView, ?_⟩
  exact {
    readMarker := by
      show evidenceMarker format prepared.marker = .ok marker
      rw [show prepared.marker = format.marker.dump marker from hmarker]
      exact evidenceMarker_dump hformat marker
    readBefore := hbound.readPointer
    readPriorView := hbound.readCarrier
    readAfter := evidencePointer_dump hformat hafterVersion
    readAfterView := evidenceCarrier_dump hformat hafterVersion
    binds := by
      have huser : before.installedForUserId = actor := hbound.bindsPointer.2.2
      rw [huser]
      intro record hrecord
      simp only [List.mem_cons, List.not_mem_nil, or_false] at hrecord
      rcases hrecord with rfl | rfl | rfl
      · exact hbound.bindsPointer
      · exact hbound.bindsCarrier
      · exact ⟨htarget.project, hafterVersion.trans hversion.symm, htarget.user⟩
    fresh := hfresh.pointer _ _ hpointerFile hbound.readPointer
    freshView := hfresh.carrier _ _ hcarrierFile hbound.readCarrier
    ofRefresh := by
      intro hkind
      refine hpair ?_
      rw [hmatches.intent]
      by_contra hprior
      simp [intentFor, hprior] at hkind
    ofReconcile := by
      intro hkind hnone
      simp [intentFor] at hkind hnone
      exact hkind hnone }

/-- A new intent that may be written has a file. -/
theorem encodeIntent_intentFor (hformat : format.Lawful)
    (hversion : marker.storeFormatVersion = hostedStoreFormatVersion)
    {before : InstalledGenerationPointer} {priorView : InstalledAuthorizationView}
    (h : Transition format (intentFor format prepared stateId now) marker before priorView
      (buildPointer prepared.target prepared.target.user prepared.target.identity.committedAt now
        stateId)) :
    ∃ raw, encodeIntent format (intentFor format prepared stateId now) = .ok raw := by
  have hbefore := h.binds before.toProjectionIdentity (by simp)
  have hprior := h.binds priorView.toProjectionIdentity (by simp)
  have hsize := hformat.size_intent _ marker before priorView _ _ hversion
    (hbefore.2.1.trans hversion) (hprior.2.1.trans hversion) prepared.target.supported
    prepared.target.supported (eq_dump_of_evidenceMarker h.readMarker)
    (eq_dump_of_evidencePointer h.readBefore) (eq_dump_of_evidenceCarrier h.readPriorView)
    rfl rfl
  exact ⟨_, bind_eq_ok_iff.mpr ⟨⟨⟩, validate_eq_ok_iff.mpr ⟨_, _, _, _, h⟩,
    bind_eq_ok_iff.mpr ⟨⟨⟩, refuseUnless_eq_ok_iff.mpr hsize, rfl⟩⟩⟩

theorem leadsTo_intentFor (hformat : format.Lawful) :
    LeadsTo format prepared.target (intentFor format prepared stateId now) := by
  have hread : evidencePointer format (intentFor format prepared stateId now).targetPointerJson =
      .ok (buildPointer prepared.target prepared.target.user
        prepared.target.identity.committedAt now stateId) :=
    evidencePointer_dump hformat prepared.target.supported
  unfold LeadsTo targetOf
  rw [hread]
  exact dif_pos ⟨prepared.target.hosted, prepared.target.sameProject, prepared.target.supported⟩

/-- A new intent with a fresh id takes over from the retained one. -/
theorem requirePredecessor_intentFor (hformat : format.Lawful)
    (hretained : Retained format actor raw intent stage disk)
    (hmatches : Matches actor prepared disk) (hprior : prepared.priorIntent = some raw)
    (hfresh : Fresh format actor disk stateId) :
    requirePredecessor format (intentFor format prepared stateId now) raw = .ok () := by
  obtain ⟨other, before, priorView, after, htransition⟩ := hretained.transition
  have hcontrols := hmatches.controls
  rw [hretained.controlsOf] at hcontrols
  have hfiles := Except.ok.inj hcontrols
  simp only [Prod.mk.injEq] at hfiles
  obtain ⟨hmarker, hpointer, hcarrier⟩ := hfiles
  have hclassify : intent.classify format prepared.marker prepared.pointer prepared.carrier =
      .ok stage.state := by
    rw [← hmarker, ← hpointer, ← hcarrier]
    exact hretained.classify
  refine bind_eq_ok_iff.mpr ⟨⟨⟩, refuseUnless_eq_ok_iff.mpr (by simp [intentFor, hprior]), ?_⟩
  refine bind_eq_ok_iff.mpr ⟨intent, hretained.decoded, ?_⟩
  refine bind_eq_ok_iff.mpr ⟨stage.state, hclassify, ?_⟩
  refine bind_eq_ok_iff.mpr ⟨⟨⟩, refuseUnless_eq_ok_iff.mpr ⟨state_ne_conflict stage, ?_⟩, ?_⟩
  · intro hkind
    simp [intentFor, hprior] at hkind
  refine bind_eq_ok_iff.mpr
    ⟨_, evidencePointer_dump hformat prepared.target.supported, ?_⟩
  refine bind_eq_ok_iff.mpr ⟨after, htransition.readAfter, refuseUnless_eq_ok_iff.mpr ?_⟩
  exact hfresh.intent raw intent after hretained.intentFile hretained.decoded
    htransition.readAfter

/-! ## Archives -/

theorem Invariant.withArchived {digest : Digest} {file : File}
    (h : Invariant format actor marker disk)
    (hfree : (disk.actors actor).refreshHistory digest = none) :
    Invariant format actor marker (disk.withArchived actor digest file) := by
  obtain ⟨hmarker, ⟨hnone, controls, before, hcontrols, hbound⟩ | ⟨raw, intent, stage, hretained,
    howned⟩⟩ := h
  · refine ⟨hmarker, .inl ⟨?_, controls, before, ?_, hbound⟩⟩
    · simpa [ControlDisk.withArchived, ControlDisk.refreshIntent] using hnone
    · rw [controlsOf_eq_ok_iff] at hcontrols ⊢
      simpa [ControlDisk.withArchived, ControlDisk.pointer, ControlDisk.carrier] using hcontrols
  · exact ⟨hmarker, .inr ⟨raw, intent, stage, hretained.withArchived hfree, howned⟩⟩

omit [DecidableEq File] in
theorem Matches.withArchived {digest : Digest} {file : File}
    (h : Matches actor prepared disk) :
    Matches actor prepared (disk.withArchived actor digest file) where
  controls := by
    have hcontrols := h.controls
    rw [controlsOf_eq_ok_iff] at hcontrols ⊢
    simpa [ControlDisk.withArchived, ControlDisk.pointer, ControlDisk.carrier] using hcontrols
  intent := by
    simpa [ControlDisk.withArchived, ControlDisk.refreshIntent] using h.intent

section Archives

variable {calm : Prop} {d : ControlDisk File} {L : ControlDisk File → List Empty → Prop}

/-- The predecessor is in the archive, where nothing was replaced. -/
theorem preservePredecessor_holds {prior : File}
    (hcalm : calm → Cooperative world actor target ∧
      ((d.actors actor).refreshHistory (format.digest prior) = none ∨
        (d.actors actor).refreshHistory (format.digest prior) = some prior))
    (hbefore : ∀ call, L d call)
    (hafter : (d.actors actor).refreshHistory (format.digest prior) = none →
      ∀ call, L (d.withArchived actor (format.digest prior) prior) call) :
    Holds (fun disk _ => disk = d)
      (preservePredecessor format world actor (format.digest prior) prior)
      (fun _ disk _ => (disk.actors actor).refreshHistory (format.digest prior) = some prior ∧
        (disk = d ∨ (d.actors actor).refreshHistory (format.digest prior) = none ∧
          disk = d.withArchived actor (format.digest prior) prior)) (Unless calm L) := by
  have hcooperative := fun hc => (hcalm hc).1
  have hstop : ∀ disk call, disk = d → L disk call := fun _ call h => h ▸ hbefore call
  refine Holds.ensure_bind rfl ?_
  refine inspect_known hcooperative hstop (fun _ _ h => h) rfl ?_
  cases hslot : (d.actors actor).refreshHistory (format.digest prior) with
  | none =>
      have hwritten : ∀ disk call, disk = d.withArchived actor (format.digest prior) prior →
          L disk call := fun _ call h => h ▸ hafter hslot call
      have hread : ((d.withArchived actor (format.digest prior) prior).actors
          actor).refreshHistory (format.digest prior) = some prior := by
        simp [ControlDisk.withArchived]
      refine Holds.bind (Q := fun _ disk _ =>
        disk = d.withArchived actor (format.digest prior) prior)
        (Holds.onlyIf (fun _ => Holds.bind Holds.readDisk fun found =>
          Holds.replaceDisk fun disk call hp => ?_) fun hskip => absurd rfl hskip) fun _ => ?_
      · rw [hp.2, hp.1]
      refine inspect_known hcooperative hwritten (fun _ _ h => h) rfl ?_
      refine Holds.ensure_bind hread ?_
      refine (Holds.point_unless (fun hc => (hcooperative hc).uncut) hwritten).weaken
        (fun _ _ hp => hp) ?_
      rintro _ disk call rfl
      exact ⟨hread, .inr ⟨rfl, rfl⟩⟩
  | some existing =>
      refine Holds.bind (Q := fun _ disk _ => disk = d) (Holds.onlyIf (fun hdo => ?_)
        fun _ _ _ h => h) fun _ => ?_
      · cases hdo
      refine inspect_known hcooperative hstop (fun _ _ h => h) rfl ?_
      refine Holds.ensure_bind_unless (fun hc => ?_) hstop fun hsame => ?_
      · exact (hcalm hc).2.resolve_left fun hnone => by simp [hslot] at hnone
      refine (Holds.point_unless (fun hc => (hcooperative hc).uncut) hstop).weaken
        (fun _ _ hp => hp) ?_
      rintro _ disk call rfl
      exact ⟨hsame, .inl rfl⟩

/-- The slot of the archive in which the predecessor of a commit is kept is free, or already holds
it. -/
def SlotFor (format : RefreshFormat File) (actor : Ulid) (disk : ControlDisk File)
    (prior : Option File) : Prop :=
  ∀ raw ∈ prior, (disk.actors actor).refreshHistory (format.digest raw) = none ∨
    (disk.actors actor).refreshHistory (format.digest raw) = some raw

theorem Invariant.retained_of_intentFile (h : Invariant format actor marker disk)
    (hraw : disk.refreshIntent actor = some raw) :
    ∃ intent stage, Retained format actor raw intent stage disk ∧ Owned format actor intent := by
  obtain ⟨-, ⟨hnone, -⟩ | ⟨other, intent, stage, hretained, howned⟩⟩ := h
  · rw [hraw] at hnone
    cases hnone
  · have hsame : other = raw := Option.some.inj (hretained.intentFile.symm.trans hraw)
    exact ⟨intent, stage, hsame ▸ hretained, howned⟩

/-- Before a new intent is written, its predecessor is in the archive. -/
theorem archivePredecessor_holds (hformat : format.Lawful)
    (hcalm : calm → Cooperative world actor target ∧ Fresh format actor d stateId ∧
      SlotFor format actor d prepared.priorIntent)
    (hinvariant : Invariant format actor marker d) (hmatches : Matches actor prepared d)
    (hL : ∀ disk call, Invariant format actor marker disk → L disk call) :
    Holds (fun disk _ => disk = d)
      (archivePredecessor format world actor (intentFor format prepared stateId now)
        prepared.priorIntent)
      (fun _ disk _ => Invariant format actor marker disk ∧ Matches actor prepared disk ∧
        requireArchived format disk actor (intentFor format prepared stateId now) = .ok ())
      (Unless calm L) := by
  have hstop : ∀ disk call, disk = d → L disk call := fun _ call h => h ▸ hL d call hinvariant
  cases hprior : prepared.priorIntent with
  | none =>
      refine Holds.pure ?_
      rintro disk call rfl
      refine ⟨hinvariant, hmatches, ?_⟩
      simp [requireArchived, intentFor, hprior]
  | some raw =>
      obtain ⟨intent, stage, hretained, -⟩ :=
        hinvariant.retained_of_intentFile (hmatches.intent.trans hprior)
      refine Holds.ofExcept_bind_unless (fun hc => ⟨⟨⟩,
        requirePredecessor_intentFor hformat hretained hmatches hprior (hcalm hc).2.1⟩) hstop
        fun _ hpredecessor => ?_
      refine (preservePredecessor_holds (fun hc => ⟨(hcalm hc).1, (hcalm hc).2.2 raw hprior⟩)
        (fun call => hL d call hinvariant)
        fun hfree call => hL _ call (hinvariant.withArchived hfree)).weaken (fun _ _ h => h) ?_
      rintro _ disk call ⟨hslot, hdisk⟩
      have harchived : requireArchived format disk actor (intentFor format prepared stateId now) =
          .ok () := by
        have hdigest : (intentFor format prepared stateId now).predecessorDigest =
            some (format.digest raw) := by simp [intentFor, hprior]
        simp only [requireArchived, hdigest, hslot]
        exact hpredecessor
      rcases hdisk with rfl | ⟨hfree, rfl⟩
      · exact ⟨hinvariant, hmatches, harchived⟩
      · exact ⟨hinvariant.withArchived hfree, hmatches.withArchived, harchived⟩

end Archives

/-! ## Commits -/

/-- The account's intent has been led to the target. -/
structure Completed (format : RefreshFormat File) (actor : Ulid)
    (marker : GenerationAuthorityMarker) (target : GenerationProjectionTarget)
    (raw : File) (intent : RefreshIntent File) (disk : ControlDisk File) : Prop where
  retained : Retained format actor raw intent .target disk
  owned : Owned format actor intent
  markerJson : intent.markerJson = format.marker.dump marker
  leads : LeadsTo format target intent

theorem Retained.invariant (h : Retained format actor raw intent stage disk)
    (howned : Owned format actor intent) (hfile : intent.markerJson = format.marker.dump marker) :
    Invariant format actor marker disk :=
  ⟨h.markerFile.trans (congrArg some hfile), .inr ⟨raw, intent, stage, h, howned⟩⟩

/-- A new intent stands over the controls it was prepared from. -/
theorem retained_intentFor (hformat : format.Lawful) (hmatches : Matches actor prepared disk)
    (harchived : requireArchived format disk actor (intentFor format prepared stateId now) = .ok ())
    (hraw : encodeIntent format (intentFor format prepared stateId now) = .ok raw) :
    Retained format actor raw (intentFor format prepared stateId now) .base
      (disk.withIntent actor raw) := by
  obtain ⟨hmarker, hpointer, hcarrier⟩ := controlsOf_eq_ok_iff.mp hmatches.controls
  exact {
    intentFile := by simp [ControlDisk.withIntent, ControlDisk.refreshIntent]
    decoded := decodeIntent_of_encodeIntent hformat hraw
    archived := (requireArchived_congr (by simp [ControlDisk.withIntent])).trans harchived
    markerFile := hmarker
    pointerFile := by
      show (disk.withIntent actor raw).pointer actor = some prepared.pointer
      simpa [ControlDisk.withIntent, ControlDisk.pointer] using hpointer
    carrierFile := by
      show (disk.withIntent actor raw).carrier actor = some prepared.carrier
      simpa [ControlDisk.withIntent, ControlDisk.carrier] using hcarrier }

/-- A new intent is of the account whose controls it was prepared from. -/
theorem owned_intentFor (hformat : format.Lawful) (h : Invariant format actor marker disk)
    (hmatches : Matches actor prepared disk) :
    Owned format actor (intentFor format prepared stateId now) := by
  intro before hbefore
  obtain ⟨controls, found, priorView, hcontrols, hbound, -⟩ := h.controls hformat
  rw [hmatches.controls] at hcontrols
  cases hcontrols
  have hread : evidencePointer format prepared.pointer = .ok found := hbound.readPointer
  have hsame : evidencePointer format prepared.pointer = .ok before := hbefore
  rw [hread] at hsame
  cases hsame
  exact hbound.bindsPointer.2.2

section Commits

variable {calm : Prop} {d : ControlDisk File} {L : ControlDisk File → List Empty → Prop}

/-- From any stage on, an intent of the account is led to its target. -/
theorem resume_completed {target : GenerationProjectionTarget}
    (hcalm : calm → Cooperative world actor target ∧ LeadsTo format target intent)
    (hretained : Retained format actor raw intent stage d) (howned : Owned format actor intent)
    (hfile : intent.markerJson = format.marker.dump marker)
    (hL : ∀ disk call, Invariant format actor marker disk → L disk call) :
    Holds (fun disk _ => disk = d) (resume format world actor intent target)
      (fun served disk _ => served = target ∧
        ∃ raw intent, Completed format actor marker target raw intent disk) (Unless calm L) := by
  refine (resume_holds hcalm hretained fun stage disk call h =>
    hL disk call (h.invariant howned hfile)).weaken (fun _ _ h => h) ?_
  rintro served disk call ⟨hretained, hserved, hleads⟩
  exact ⟨hserved, raw, intent, hretained, howned, hfile, hleads⟩

/-- A new intent is written over the controls it was prepared from, and led to its target. -/
theorem beginRefresh_holds (hformat : format.Lawful)
    (hversion : marker.storeFormatVersion = hostedStoreFormatVersion)
    (hcalm : calm → Cooperative world actor prepared.target ∧
      Admissible actor marker prepared.target ∧
      (∀ tick, Fresh format actor d (world.newUlid tick)) ∧
      SlotFor format actor d prepared.priorIntent)
    (hinvariant : Invariant format actor marker d) (hmatches : Matches actor prepared d)
    (hL : ∀ disk call, Invariant format actor marker disk → L disk call) :
    Holds (fun disk _ => disk = d) (beginRefresh format world actor prepared)
      (fun served disk _ => served = prepared.target ∧
        ∃ raw intent, Completed format actor marker prepared.target raw intent disk)
      (Unless calm L) := by
  have hcooperative := fun hc => (hcalm hc).1
  have hstop : ∀ disk call, disk = d → L disk call := fun _ call h => h ▸ hL d call hinvariant
  unfold beginRefresh
  refine Holds.bind (Holds.ask world.newUlid) fun stateId => ?_
  refine Holds.of_fact (fun _ _ h => h.2) fun hstateId => ?_
  refine Holds.weaken (P := fun disk _ => disk = d) ?_ (fun _ _ h => h.1) fun _ _ _ hq => hq
  have hfresh : calm → Fresh format actor d stateId := by
    intro hc
    obtain ⟨tick, rfl⟩ := hstateId
    exact (hcalm hc).2.2.1 tick
  refine Holds.bind (Holds.ask world.now) fun now => ?_
  refine Holds.weaken (P := fun disk _ => disk = d) ?_ (fun _ _ h => h.1) fun _ _ _ hq => hq
  refine Holds.ofExcept_bind_unless (fun hc => ?_) hstop fun _ _ => ?_
  · obtain ⟨before, priorView, htransition⟩ := transition_intentFor hformat hversion hinvariant
      hmatches (hcalm hc).2.1 (hfresh hc)
    exact ⟨⟨⟩, validate_eq_ok_iff.mpr ⟨_, _, _, _, htransition⟩⟩
  refine Holds.bind (archivePredecessor_holds hformat
    (fun hc => ⟨hcooperative hc, hfresh hc, (hcalm hc).2.2.2⟩) hinvariant hmatches hL) fun _ => ?_
  refine Holds.of_state fun d' _ hd' => ?_
  obtain ⟨hinvariant', hmatches', harchived⟩ := hd'
  have hstop' : ∀ disk call, disk = d' → L disk call := fun _ call h => h ▸ hL d' call hinvariant'
  refine Holds.weaken (P := fun disk _ => disk = d') ?_ (fun _ _ h => h.1) fun _ _ _ hq => hq
  refine Holds.ofExcept_bind_unless (fun hc => ?_) hstop' fun raw hraw => ?_
  · obtain ⟨before, priorView, htransition⟩ := transition_intentFor hformat hversion hinvariant
      hmatches (hcalm hc).2.1 (hfresh hc)
    exact encodeIntent_intentFor hformat hversion htransition
  have hretained := retained_intentFor hformat hmatches' harchived hraw
  have howned : Owned format actor (intentFor format prepared stateId now) :=
    owned_intentFor hformat hinvariant' hmatches'
  have hfile : (intentFor format prepared stateId now).markerJson = format.marker.dump marker := by
    obtain ⟨hmarker, -, -⟩ := controlsOf_eq_ok_iff.mp hmatches'.controls
    exact Option.some.inj (hmarker.symm.trans hinvariant'.1)
  refine Holds.bind (durableReplace_holds hcooperative (fun call => hL d' call hinvariant')
    (fun call => hL _ call (hretained.invariant howned hfile)) hretained.intentFile) fun _ => ?_
  exact resume_completed (fun hc => ⟨hcooperative hc, leadsTo_intentFor hformat⟩) hretained howned
    hfile hL

/-- Nothing refuses the commit: what was prepared is what is found, and it either goes on with the
retained intent or may begin a new one. -/
structure Ready (format : RefreshFormat File) (actor : Ulid) (marker : GenerationAuthorityMarker)
    (world : World) (prepared : Prepared File) (disk : ControlDisk File) : Prop where
  cooperative : Cooperative world actor prepared.target
  found : Matches actor prepared disk
  target : (∃ raw intent stage, Retained format actor raw intent stage disk ∧
      LeadsTo format prepared.target intent) ∨
    Admissible actor marker prepared.target ∧ (∀ tick, Fresh format actor disk (world.newUlid tick)) ∧
      SlotFor format actor disk prepared.priorIntent

/-- The target that a retained intent leads to can be told in any binding of its project. -/
theorem Retained.targetOf (hformat : format.Lawful)
    (hversion : marker.storeFormatVersion = hostedStoreFormatVersion)
    (h : Retained format actor raw intent stage disk)
    (hmarker : disk.marker = some (format.marker.dump marker)) (howned : Owned format actor intent)
    {target : GenerationProjectionTarget} (htarget : Admissible actor marker target) :
    ∃ found, targetOf format target.binding intent = .ok found := by
  obtain ⟨before, priorView, after, htransition, -⟩ := h.owned hformat hmarker howned
  have hbinds := htransition.binds after.toProjectionIdentity (by simp)
  have hproject : after.projectId = target.binding.projectId :=
    hbinds.1.trans (htarget.project.symm.trans target.sameProject)
  unfold Refresh.targetOf
  rw [htransition.readAfter]
  exact ⟨_, dif_pos ⟨target.hosted, hproject, hbinds.2.1.trans hversion⟩⟩

theorem Retained.unique {other : RefreshIntent File} {raw' : File} {stage' : RefreshStage}
    (h : Retained format actor raw intent stage disk)
    (h' : Retained format actor raw' other stage' disk) : other = intent := by
  have hraw : raw' = raw := Option.some.inj (h'.intentFile.symm.trans h.intentFile)
  have hdecoded := h'.decoded
  rw [hraw, h.decoded] at hdecoded
  exact (Except.ok.inj hdecoded).symm

theorem Retained.stage_unique {stage' : RefreshStage} {raw' : File}
    (h : Retained format actor raw intent stage disk)
    (h' : Retained format actor raw' intent stage' disk) : stage = stage' := by
  have hfiles := h.controlsOf
  rw [h'.controlsOf] at hfiles
  simp only [Except.ok.injEq, Prod.mk.injEq] at hfiles
  obtain ⟨-, hpointer, hcarrier⟩ := hfiles
  have hstate := h.classify
  rw [← hpointer, ← hcarrier, h'.classify] at hstate
  cases stage <;> cases stage' <;> first | rfl | cases hstate

/-- The retained intent is gone on with exactly when it leads to the commit's target. -/
theorem sameTarget_holds {P : ControlDisk File → List Empty → Prop} (hformat : format.Lawful)
    (hversion : marker.storeFormatVersion = hostedStoreFormatVersion)
    (hcalm : calm → Ready format actor marker world prepared d)
    (hinvariant : Invariant format actor marker d)
    (hretained : Retained format actor raw intent stage d) (howned : Owned format actor intent)
    (hstop : ∀ disk call, P disk call → L disk call) {β : Type}
    {f : Option (RefreshIntent File) → RefreshCall File β}
    {Q : β → ControlDisk File → List Empty → Prop}
    (hsame : LeadsTo format prepared.target intent → Holds P (f (some intent)) Q (Unless calm L))
    (hother : ¬ LeadsTo format prepared.target intent → Holds P (f none) Q (Unless calm L)) :
    Holds P (Effect.ofExcept (sameTarget format prepared.target intent) >>= f) Q
      (Unless calm L) := by
  have hok : calm → ∃ found, targetOf format prepared.target.binding intent = .ok found := by
    intro hc
    rcases (hcalm hc).target with ⟨raw', other, stage', hretained', hleads⟩ | ⟨htarget, -⟩
    · rw [hretained.unique hretained'] at hleads
      exact ⟨_, hleads⟩
    · exact hretained.targetOf hformat hversion hinvariant.1 howned htarget
  refine Holds.ofExcept_bind_unless (fun hc => ?_) hstop fun same hfound => ?_
  · obtain ⟨found, hfound⟩ := hok hc
    exact ⟨_, by rw [sameTarget, hfound]; rfl⟩
  · cases htarget : targetOf format prepared.target.binding intent with
    | error error =>
        rw [sameTarget, htarget] at hfound
        cases hfound
    | ok found =>
        rw [sameTarget, htarget] at hfound
        cases hfound
        dsimp only
        by_cases hleads : found = prepared.target
        · rw [if_pos hleads]
          exact hsame (hleads ▸ htarget)
        · rw [if_neg hleads]
          refine hother fun h => hleads ?_
          rw [LeadsTo, htarget] at h
          exact Except.ok.inj h

/-- The controls are read, and are those that were prepared from. -/
theorem requirePrepared_bind {P : ControlDisk File → List Empty → Prop} (hformat : format.Lawful)
    (hcalm : calm → Ready format actor marker world prepared d)
    (hinvariant : Invariant format actor marker d)
    (hd : ∀ disk call, P disk call → disk = d) (hstop : ∀ disk call, P disk call → L disk call)
    {β : Type} {f : PUnit → RefreshCall File β} {Q : β → ControlDisk File → List Empty → Prop}
    (h : controlsOf d actor = .ok (prepared.marker, prepared.pointer, prepared.carrier) →
      Holds P (f ⟨⟩) Q (Unless calm L)) :
    Holds P (requirePrepared world actor prepared >>= f) Q (Unless calm L) := by
  obtain ⟨controls, before, priorView, hcontrols, -, -⟩ := hinvariant.controls hformat
  unfold requirePrepared readControls
  rw [bind_assoc]
  refine inspect_known (fun hc => (hcalm hc).cooperative) hstop hd hcontrols ?_
  refine Holds.ensure_bind_unless (fun hc => ?_) hstop fun hsame => h (hsame ▸ hcontrols)
  have hfound := (hcalm hc).found.controls
  rw [hcontrols] at hfound
  exact Except.ok.inj hfound

/-- With the root installed, the retained intent is led to its target or a new one is. -/
theorem publish_holds (hformat : format.Lawful)
    (hversion : marker.storeFormatVersion = hostedStoreFormatVersion)
    (hcalm : calm → Ready format actor marker world prepared d)
    (hinvariant : Invariant format actor marker d)
    (hL : ∀ disk call, Invariant format actor marker disk → L disk call) :
    Holds (fun disk _ => disk = d) (publish format world actor prepared)
      (fun served disk _ => served = prepared.target ∧
        ∃ raw intent, Completed format actor marker prepared.target raw intent disk)
      (Unless calm L) := by
  have hcooperative := fun hc => (hcalm hc).cooperative
  have hstop : ∀ disk call, disk = d → L disk call := fun _ call h => h ▸ hL d call hinvariant
  unfold publish
  refine Holds.bind (Holds.point_unless (fun hc => (hcooperative hc).uncut) hstop) fun _ => ?_
  refine Holds.bind (enter_holds hcooperative hstop) fun _ => ?_
  refine requirePrepared_bind hformat hcalm hinvariant (fun _ _ h => h) hstop fun hcontrols => ?_
  refine inspect_known hcooperative hstop (fun _ _ h => h) rfl ?_
  refine Holds.ensure_bind_unless (fun hc => (hcalm hc).found.intent) hstop fun hprior => ?_
  have hmatches : Matches actor prepared d := ⟨hcontrols, hprior⟩
  refine Holds.bind (syncTarget_holds hcooperative hstop prepared.target) fun _ => ?_
  -- A new intent is begun when none is retained, or when the retained one leads elsewhere.
  have hbegin : (∀ raw intent stage, Retained format actor raw intent stage d →
      ¬ LeadsTo format prepared.target intent) →
      Holds (fun disk _ => disk = d) (beginRefresh format world actor prepared)
        (fun served disk _ => served = prepared.target ∧
          ∃ raw intent, Completed format actor marker prepared.target raw intent disk)
        (Unless calm L) := by
    intro hother
    refine beginRefresh_holds hformat hversion (fun hc => ?_) hinvariant hmatches hL
    refine ⟨hcooperative hc, (hcalm hc).target.resolve_left ?_⟩
    rintro ⟨raw, intent, stage, hretained, hleads⟩
    exact hother raw intent stage hretained hleads
  cases hraw : prepared.priorIntent with
  | none =>
      refine hbegin fun raw intent stage hretained => ?_
      rw [hraw, hretained.intentFile] at hprior
      cases hprior
  | some raw =>
      obtain ⟨intent, stage, hretained, howned⟩ :=
        hinvariant.retained_of_intentFile (hprior.trans hraw)
      have hfile : intent.markerJson = format.marker.dump marker :=
        Option.some.inj (hretained.markerFile.symm.trans hinvariant.1)
      unfold retainedFor readRetained
      rw [bind_assoc]
      refine inspect_known hcooperative hstop (fun _ _ h => h) hretained.retainedIntent ?_
      refine sameTarget_holds hformat hversion hcalm hinvariant hretained howned hstop
        (fun hleads => ?_) fun hother => ?_
      · exact resume_completed (fun hc => ⟨hcooperative hc, hleads⟩) hretained howned hfile hL
      · refine hbegin fun raw' other stage' hretained' => ?_
        rw [hretained.unique hretained']
        exact hother

/-- One commit: whatever was prepared, the account keeps its invariant, and a commit that returned
has led the account to its target. -/
theorem commitGenerationRefresh_holds (hformat : format.Lawful)
    (hversion : marker.storeFormatVersion = hostedStoreFormatVersion)
    (huser : prepared.target.user = actor)
    (hcalm : calm → Ready format actor marker world prepared d)
    (hinvariant : Invariant format actor marker d)
    (hL : ∀ disk call, Invariant format actor marker disk → L disk call) :
    Holds (fun disk _ => disk = d) (commitGenerationRefresh format world prepared)
      (fun served disk _ => served = prepared.target ∧
        ∃ raw intent, Completed format actor marker prepared.target raw intent disk)
      (Unless calm L) := by
  have hcooperative := fun hc => (hcalm hc).cooperative
  have hstop : ∀ disk call, disk = d → L disk call := fun _ call h => h ▸ hL d call hinvariant
  have hpublish := publish_holds hformat hversion hcalm hinvariant hL
  unfold commitGenerationRefresh
  rw [huser]
  refine Holds.bind (Holds.point_unless (fun hc => (hcooperative hc).uncut) hstop) fun _ => ?_
  cases hraw : prepared.priorIntent with
  | none => exact hpublish
  | some prior =>
      unfold completedFor
      simp only [bind_assoc]
      refine Holds.bind (enter_holds hcooperative hstop) fun _ => ?_
      refine requirePrepared_bind hformat hcalm hinvariant (fun _ _ h => h) hstop
        fun hcontrols => ?_
      refine inspect_bind hcooperative hstop (fun _ _ h => h) (fun hc => ?_) fun found hfound => ?_
      · obtain ⟨intent, stage, hretained, -⟩ :=
          hinvariant.retained_of_intentFile ((hcalm hc).found.intent.trans hraw)
        exact ⟨_, hretained.retainedIntent⟩
      obtain ⟨stage, hretained⟩ := retained_of_retainedIntent hfound
      obtain ⟨intent, stage', hretained', howned⟩ :=
        hinvariant.retained_of_intentFile hretained.intentFile
      cases hretained.unique hretained'
      refine Holds.ensure_bind_unless (fun hc => ?_) hstop fun hsame => ?_
      · have hprior := (hcalm hc).found.intent.trans hraw
        exact Option.some.inj (hretained.intentFile.symm.trans hprior)
      have hclassify : found.2.classify format prepared.marker prepared.pointer prepared.carrier =
          .ok stage.state := by
        have hfiles := hretained.controlsOf
        rw [hcontrols] at hfiles
        have hsame := hretained.classify
        simp only [Except.ok.injEq, Prod.mk.injEq] at hfiles
        obtain ⟨hmarker, hpointer, hcarrier⟩ := hfiles
        rw [hmarker, hpointer, hcarrier]
        exact hsame
      have hfile : found.2.markerJson = format.marker.dump marker :=
        Option.some.inj (hretained.markerFile.symm.trans hinvariant.1)
      refine sameTarget_holds hformat hversion hcalm hinvariant hretained howned hstop
        (fun hleads => ?_) fun _ => ?_
      · refine Holds.ofExcept_bind hclassify ?_
        rw [pure_bind]
        by_cases hstage : stage = .target
        · cases hstage
          refine (complete_holds (fun hc => ⟨hcooperative hc, rfl, hleads⟩) hretained
            fun call => hL d call hinvariant).weaken (fun _ _ h => h) ?_
          rintro served disk call ⟨rfl, hserved, -, -⟩
          exact ⟨hserved, _, _, hretained, howned, hfile, hleads⟩
        · have hskip : stage.state ≠ .targetPresent := mt state_eq_targetPresent_iff.mp hstage
          simp only [Option.filter, hskip, decide_false]
          exact hpublish
      · refine Holds.ofExcept_bind hclassify ?_
        rw [pure_bind]
        exact hpublish

end Commits

/-! ## Preparation -/

theorem binding_of_targetOf {binding : ResolvedProjectBinding}
    {found : GenerationProjectionTarget}
    (h : targetOf format binding intent = .ok found) : found.binding = binding := by
  unfold targetOf at h
  split at h
  · cases h
  · split at h
    · cases h
      rfl
    · cases h

/-- The target of an intent of the account is one of the account. -/
theorem Retained.user_of_targetOf (hformat : format.Lawful)
    (h : Retained format actor raw intent stage disk)
    (hmarker : disk.marker = some (format.marker.dump marker)) (howned : Owned format actor intent)
    {binding : ResolvedProjectBinding} {found : GenerationProjectionTarget}
    (hfound : Refresh.targetOf format binding intent = .ok found) : found.user = actor := by
  obtain ⟨before, priorView, after, htransition, huser⟩ := h.owned hformat hmarker howned
  have hbinds := htransition.binds after.toProjectionIdentity (by simp)
  unfold Refresh.targetOf at hfound
  rw [htransition.readAfter] at hfound
  dsimp only at hfound
  split at hfound
  · cases hfound
    exact hbinds.2.2.trans huser
  · cases hfound

/-- What a preparation found, nothing being changed. -/
structure Started (actor : Ulid)
    (base : (File × File × File) × Option File × Option GenerationProjectionTarget)
    (disk : ControlDisk File) : Prop where
  controls : controlsOf disk actor = .ok base.1
  intent : disk.refreshIntent actor = base.2.1
  installed : ∀ target ∈ base.2.2, target.user = actor ∧ base.2.1 ≠ none

section Preparation

variable {calm : Prop} {d : ControlDisk File} {L : ControlDisk File → List Empty → Prop}
  {target : GenerationProjectionTarget} {binding : ResolvedProjectBinding}

theorem bootstrapBase_holds (hformat : format.Lawful)
    (hcalm : calm → Cooperative world actor target ∧ d.refreshIntent actor = none ∧
      marker.projectId = binding.projectId)
    (hinvariant : Invariant format actor marker d) (hL : ∀ call, L d call) :
    Holds (fun disk _ => disk = d) (bootstrapBase format world actor binding)
      (fun base disk _ => disk = d ∧ Started actor base d) (Unless calm L) := by
  have hcooperative := fun hc => (hcalm hc).1
  have hstop : ∀ disk call, disk = d → L disk call := fun _ call h => h ▸ hL call
  obtain ⟨controls, before, priorView, hcontrols, hbound, hpair⟩ := hinvariant.controls hformat
  unfold bootstrapBase
  refine Holds.bind (enter_holds hcooperative hstop) fun _ => ?_
  refine inspect_known hcooperative hstop (fun _ _ h => h) hcontrols ?_
  refine inspect_known hcooperative hstop (fun _ _ h => h) rfl ?_
  refine Holds.ensure_bind_unless (fun hc => (hcalm hc).2.1) hstop fun hnone => ?_
  have hread : refreshControlPair format controls.2.1 controls.2.2 = .ok before :=
    refreshControlPair_eq_ok_iff.mpr ⟨hbound.readPointer, hpair hnone ▸ hbound.readCarrier⟩
  refine Holds.ofExcept_bind hread ?_
  refine Holds.ensure_bind_unless (fun hc => ?_) hstop fun _ => Holds.pure ?_
  · exact ⟨hbound.bindsPointer.2.2, hbound.bindsPointer.1.trans (hcalm hc).2.2⟩
  · exact fun disk call h => ⟨h, hcontrols, hnone, nofun⟩

theorem retainedBase_holds (hformat : format.Lawful)
    (hversion : marker.storeFormatVersion = hostedStoreFormatVersion)
    (hcalm : calm → Cooperative world actor target ∧ d.refreshIntent actor ≠ none ∧
      target.binding = binding ∧ Admissible actor marker target)
    (hinvariant : Invariant format actor marker d) (hL : ∀ call, L d call) :
    Holds (fun disk _ => disk = d) (retainedBase format world actor binding)
      (fun base disk _ => disk = d ∧ Started actor base d) (Unless calm L) := by
  have hcooperative := fun hc => (hcalm hc).1
  have hstop : ∀ disk call, disk = d → L disk call := fun _ call h => h ▸ hL call
  obtain ⟨controls, before, priorView, hcontrols, -, -⟩ := hinvariant.controls hformat
  unfold retainedBase
  refine Holds.bind (enter_holds hcooperative hstop) fun _ => ?_
  refine inspect_known hcooperative hstop (fun _ _ h => h) hcontrols ?_
  refine inspect_bind hcooperative hstop (fun _ _ h => h) (fun hc => ?_) fun found hfound => ?_
  · obtain ⟨raw, hraw⟩ := Option.ne_none_iff_exists'.mp (hcalm hc).2.1
    obtain ⟨intent, stage, hretained, -⟩ := hinvariant.retained_of_intentFile hraw
    exact ⟨_, hretained.retainedIntent⟩
  obtain ⟨stage, hretained⟩ := retained_of_retainedIntent hfound
  obtain ⟨intent, stage', hretained', howned⟩ :=
    hinvariant.retained_of_intentFile hretained.intentFile
  cases hretained.unique hretained'
  have hfiles := hretained.controlsOf
  rw [hcontrols] at hfiles
  cases hfiles
  refine Holds.ofExcept_bind hretained.classify ?_
  refine Holds.ofExcept_bind_unless (fun hc => ?_) hstop fun installed hinstalled => Holds.pure ?_
  · obtain ⟨target', htarget⟩ := hretained.targetOf hformat hversion hinvariant.1 howned
      (hcalm hc).2.2.2
    rw [(hcalm hc).2.2.1] at htarget
    cases stage with
    | base => exact ⟨none, rfl⟩
    | carrier => exact ⟨none, rfl⟩
    | target => exact ⟨some target', by simp [installedTarget, RefreshStage.state, htarget, Except.map]⟩
  · refine fun disk call h => ⟨h, hretained.controlsOf, hretained.intentFile, ?_⟩
    intro found' hfound'
    have hfound : Refresh.targetOf format binding found.2 = .ok found' := by
      cases stage with
      | base =>
          cases hinstalled
          cases hfound'
      | carrier =>
          cases hinstalled
          cases hfound'
      | target =>
          cases htarget : Refresh.targetOf format binding found.2 with
          | error error =>
              simp [installedTarget, RefreshStage.state, htarget, Except.map] at hinstalled
          | ok target' =>
              simp only [installedTarget, RefreshStage.state, htarget, Except.map,
                Except.ok.injEq] at hinstalled
              subst hinstalled
              cases hfound'
              rfl
    exact ⟨hretained.user_of_targetOf hformat hinvariant.1 howned hfound, Option.some_ne_none _⟩

/-- The installed root is captured while nothing has changed. -/
theorem capturePrepared_holds {base : (File × File × File) × Option File ×
      Option GenerationProjectionTarget} (hcalm : calm → Cooperative world actor target)
    (hinvariant : Invariant format actor marker d) (hbase : Started actor base d)
    (hprior : base.2.1 ≠ none) (hL : ∀ call, L d call) (other : GenerationProjectionTarget) :
    Holds (fun disk _ => disk = d)
      (capturePrepared format world actor base.1 base.2.1 other) (fun _ disk _ => disk = d)
      (Unless calm L) := by
  have hstop : ∀ disk call, disk = d → L disk call := fun _ call h => h ▸ hL call
  obtain ⟨raw, hraw⟩ := Option.ne_none_iff_exists'.mp hprior
  obtain ⟨intent, stage, hretained, -⟩ :=
    hinvariant.retained_of_intentFile (hbase.intent.trans hraw)
  unfold capturePrepared
  refine Holds.bind (enter_holds hcalm hstop) fun _ => ?_
  refine inspect_known hcalm hstop (fun _ _ h => h) hbase.controls ?_
  refine inspect_known hcalm hstop (fun _ _ h => h) hretained.retainedIntent ?_
  refine Holds.ensure_bind ⟨rfl, hraw.symm⟩ ?_
  refine Holds.bind (syncTarget_holds hcalm hstop other) fun _ => ?_
  refine Holds.bind (requireActor_holds hcalm hstop) fun _ => ?_
  refine inspect_known hcalm hstop (fun _ _ h => h) hbase.controls ?_
  refine inspect_known hcalm hstop (fun _ _ h => h) hretained.retainedIntent ?_
  exact (Holds.ensure_unless (fun _ _ _ _ => ⟨rfl, hraw.symm⟩) hstop).weaken (fun _ _ h => h)
    fun _ _ _ h => h.1

omit [DecidableEq File] in
/-- An answer of cooperative surroundings is known. -/
theorem ask_known {α β : Type} {P : ControlDisk File → List Empty → Prop} {answers : Nat → α}
    {value : α} (hknown : calm → ∀ tick, answers tick = value)
    {f : α → RefreshCall File β} {Q : β → ControlDisk File → List Empty → Prop}
    (h : ∀ a, (calm → a = value) → Holds P (f a) Q (Unless calm L)) :
    Holds P (ask answers >>= f) Q (Unless calm L) := by
  refine Holds.bind (Holds.ask answers) fun a => Holds.of_fact (fun _ _ h => h.2) fun ha => ?_
  refine (h a fun hc => ?_).weaken (fun _ _ h => h.1) fun _ _ _ hq => hq
  obtain ⟨tick, rfl⟩ := ha
  exact hknown hc tick

theorem acquire_holds {base : (File × File × File) × Option File ×
      Option GenerationProjectionTarget} {acquired : Option GenerationProjectionTarget}
    (hcalm : calm → Cooperative world actor target ∧ target.binding = binding ∧
      target.user = actor ∧ ∀ given ∈ acquired, given = target)
    (hinvariant : Invariant format actor marker d) (hbase : Started actor base d)
    (hL : ∀ call, L d call) :
    Holds (fun disk _ => disk = d) (acquire format world actor binding base acquired)
      (fun served disk _ => disk = d ∧ (calm → served = target)) (Unless calm L) := by
  have hcooperative := fun hc => (hcalm hc).1
  have hstop : ∀ disk call, disk = d → L disk call := fun _ call h => h ▸ hL call
  have hdelivered : Holds (fun disk _ => disk = d)
      (do let acquired ← ask world.acquired
          Effect.ofOption .stopped acquired : RefreshCall File GenerationProjectionTarget)
      (fun served disk _ => disk = d ∧ (calm → served = target)) (Unless calm L) := by
    refine ask_known (fun hc => (hcooperative hc).acquired) fun delivered hknown => ?_
    rw [← bind_pure (Effect.ofOption _ _)]
    refine Holds.ofOption_bind_unless (fun hc => ⟨target, hknown hc⟩) hstop fun served hserved =>
      Holds.pure fun disk call h => ⟨h, fun hc => ?_⟩
    rw [hknown hc] at hserved
    exact (Option.some.inj hserved).symm
  cases acquired with
  | some given =>
      have hgiven : calm → given = target := fun hc => (hcalm hc).2.2.2 given rfl
      refine Holds.ensure_bind_unless (fun hc => ?_) hstop fun _ => ?_
      · rw [hgiven hc]
        exact ⟨(hcalm hc).2.1, (hcalm hc).2.2.1⟩
      refine Holds.bind (requireActor_holds hcooperative hstop) fun _ => ?_
      refine ask_known (fun hc => (hcooperative hc).observed) fun current hcurrent => ?_
      refine Holds.bind (requireActor_holds hcooperative hstop) fun _ => ?_
      refine Holds.ensure_bind_unless (fun hc => ?_) hstop fun _ =>
        Holds.pure fun disk call h => ⟨h, hgiven⟩
      rw [hcurrent hc, hgiven hc]
  | none =>
      refine Holds.ensure_bind (fun installed h => (hbase.installed installed h).1) ?_
      cases hinstalled : base.2.2 with
      | none => exact hdelivered
      | some installed =>
          refine ask_known (fun hc => (hcooperative hc).observed) fun observed hobserved => ?_
          refine Holds.ofOption_bind_unless (fun hc => ⟨target, hobserved hc⟩) hstop
            fun current hcurrent => ?_
          have hprior := (hbase.installed installed hinstalled).2
          refine Holds.bind (Q := fun _ disk _ => disk = d) (Holds.onlyIf (fun _ =>
            capturePrepared_holds hcooperative hinvariant hbase hprior hL installed)
              fun _ _ _ h => h) fun _ => ?_
          split
          · rename_i hsame
            refine Holds.pure fun disk call h => ⟨h, fun hc => ?_⟩
            rw [hobserved hc] at hcurrent
            rw [← hsame]
            exact (Option.some.inj hcurrent).symm
          · exact hdelivered

/-- A preparation changes nothing, and starts from what is there. -/
theorem prepare_holds (hformat : format.Lawful)
    (hversion : marker.storeFormatVersion = hostedStoreFormatVersion) {bootstrap : Bool}
    {acquired : Option GenerationProjectionTarget}
    (hcalm : calm → Cooperative world actor target ∧ target.binding = binding ∧
      Admissible actor marker target ∧ (bootstrap = true ↔ d.refreshIntent actor = none) ∧
      ∀ given ∈ acquired, given = target)
    (hinvariant : Invariant format actor marker d) (hL : ∀ call, L d call) :
    Holds (fun disk _ => disk = d) (prepare format world actor binding bootstrap acquired)
      (fun prepared disk _ => disk = d ∧ Matches actor prepared d ∧
        (calm → prepared.target = target)) (Unless calm L) := by
  have hrest : ∀ base, Started actor base d → Holds (fun disk _ => disk = d)
      (do let target ← acquire format world actor binding base acquired
          return (⟨target, base.1.1, base.1.2.1, base.1.2.2, base.2.1⟩ : Prepared File))
      (fun prepared disk _ => disk = d ∧ Matches actor prepared d ∧
        (calm → prepared.target = target)) (Unless calm L) := by
    intro base hstarted
    have hready : calm → Cooperative world actor target ∧ target.binding = binding ∧
        target.user = actor ∧ ∀ given ∈ acquired, given = target := by
      intro hc
      obtain ⟨hcooperative, hbinding, htarget, -, hgiven⟩ := hcalm hc
      exact ⟨hcooperative, hbinding, htarget.user, hgiven⟩
    exact Holds.bind (acquire_holds hready hinvariant hstarted hL) fun served =>
      Holds.pure fun disk call h => ⟨h.1, ⟨hstarted.controls, hstarted.intent⟩, h.2⟩
  unfold prepare
  cases bootstrap with
  | true =>
      have hready : calm → Cooperative world actor target ∧ d.refreshIntent actor = none ∧
          marker.projectId = binding.projectId := by
        intro hc
        obtain ⟨hcooperative, hbinding, htarget, hintent, -⟩ := hcalm hc
        exact ⟨hcooperative, hintent.mp rfl,
          htarget.project.symm.trans (hbinding ▸ target.sameProject)⟩
      exact Holds.bind (bootstrapBase_holds hformat hready hinvariant hL) fun base =>
        Holds.of_fact (fun _ _ h => h.2) fun hstarted =>
          (hrest base hstarted).weaken (fun _ _ h => h.1) fun _ _ _ hq => hq
  | false =>
      have hready : calm → Cooperative world actor target ∧ d.refreshIntent actor ≠ none ∧
          target.binding = binding ∧ Admissible actor marker target := by
        intro hc
        obtain ⟨hcooperative, hbinding, htarget, hintent, -⟩ := hcalm hc
        exact ⟨hcooperative, fun hnone => Bool.false_ne_true (hintent.mpr hnone), hbinding, htarget⟩
      exact Holds.bind (retainedBase_holds hformat hversion hready hinvariant hL) fun base =>
        Holds.of_fact (fun _ _ h => h.2) fun hstarted =>
          (hrest base hstarted).weaken (fun _ _ h => h.1) fun _ _ _ hq => hq

/-- A generation is admitted only when its intent has been led to its target, and the target is
then the one that is served. -/
theorem admitGenerationStore_holds
    (hcalm : calm → Cooperative world actor target ∧ ∃ raw intent,
      Retained format actor raw intent .target d ∧ Refresh.targetOf format binding intent = .ok target)
    (hL : ∀ call, L d call) :
    Holds (fun disk _ => disk = d) (admitGenerationStore format world actor binding)
      (fun served disk _ => disk = d ∧ ∃ raw intent, Retained format actor raw intent .target d ∧
        Refresh.targetOf format binding intent = .ok served) (Unless calm L) := by
  have hcooperative := fun hc => (hcalm hc).1
  have hstop : ∀ disk call, disk = d → L disk call := fun _ call h => h ▸ hL call
  unfold admitGenerationStore
  refine Holds.bind (enter_holds hcooperative hstop) fun _ => ?_
  refine inspect_bind hcooperative hstop (fun _ _ h => h) (fun hc => ?_) fun found hfound => ?_
  · obtain ⟨-, raw, intent, hretained, -⟩ := hcalm hc
    exact ⟨_, hretained.retainedIntent⟩
  obtain ⟨stage, hretained⟩ := retained_of_retainedIntent hfound
  have hcompleted : calm → stage = .target ∧ Refresh.targetOf format binding found.2 = .ok target := by
    intro hc
    obtain ⟨-, raw, intent, hretained', hleads⟩ := hcalm hc
    cases hretained.unique hretained'
    exact ⟨hretained.stage_unique hretained', hleads⟩
  refine classifyControls_known hcooperative hstop (fun _ _ h => h) hretained ?_
  refine Holds.ensure_bind_unless (fun hc => state_eq_targetPresent_iff.mpr (hcompleted hc).1)
    hstop fun hstate => ?_
  cases state_eq_targetPresent_iff.mp hstate
  refine Holds.ofExcept_bind_unless (fun hc => ⟨target, (hcompleted hc).2⟩) hstop
    fun served hserved => ?_
  have hleads : LeadsTo format served found.2 := by
    rw [LeadsTo, binding_of_targetOf hserved]
    exact hserved
  have hserve : calm → Cooperative world actor target ∧ target = served := by
    intro hc
    have hsame := (hcompleted hc).2
    rw [hserved] at hsame
    exact ⟨hcooperative hc, (Except.ok.inj hsame).symm⟩
  refine Holds.bind (syncTarget_holds hcooperative hstop served) fun _ => ?_
  refine (complete_holds (fun hc => ⟨(hserve hc).2 ▸ hcooperative hc, rfl, hleads⟩) hretained
    hL).weaken (fun _ _ h => h) ?_
  rintro other disk call ⟨rfl, rfl, -, -⟩
  exact ⟨rfl, found.1, found.2, hretained, hserved⟩

end Preparation

/-! ## Runs -/

/-- A commit of what was prepared, in its surroundings. -/
structure Job (File : Type) where
  prepared : Prepared File
  world : World

def Job.call (format : RefreshFormat File) (job : Job File) :
    RefreshCall File GenerationProjectionTarget :=
  commitGenerationRefresh format job.world job.prepared

/-- The store that commits leave, each completed or cut off. -/
def runCommits (format : RefreshFormat File) (disk : ControlDisk File) (jobs : List (Job File)) :
    ControlDisk File :=
  (runCalls disk (jobs.map (·.call format))).1

/-- A call that begins on a store. -/
def starting (disk : ControlDisk File) : Session (ControlDisk File) Empty :=
  { disk := disk, trace := [], tick := 0 }

theorem invariant_of_published (hformat : format.Lawful) {first : GenerationProjectionTarget}
    (h : Published format.toControlFormat first disk)
    (hnew : disk.refreshIntent first.user = none) :
    Invariant format first.user (expectedMarker first) disk := by
  obtain ⟨hmarker, view, pointer, hpaired⟩ := h
  have hidentity : pointer.toProjectionIdentity = first.identity := by
    rw [← hpaired.identity, ← hpaired.exact]
  have hversion : pointer.storeFormatVersion = hostedStoreFormatVersion := by
    rw [hidentity]
    exact first.supported
  have hbinds : (expectedMarker first).Binds first.user pointer.toProjectionIdentity := by
    rw [hidentity]
    exact ⟨rfl, rfl, rfl⟩
  refine ⟨hmarker, .inl ⟨hnew, (_, _, _), pointer,
    controlsOf_eq_ok_iff.mpr ⟨hmarker, hpaired.pointerFile, hpaired.carrierFile⟩, ?_⟩⟩
  exact {
    markerFile := rfl
    readPointer := evidencePointer_dump hformat hversion
    readCarrier := by
      rw [← hpaired.exact]
      exact evidenceCarrier_dump hformat hversion
    bindsPointer := hbinds
    bindsCarrier := hbinds }

theorem invariant_runCommits (hformat : format.Lawful)
    (hversion : marker.storeFormatVersion = hostedStoreFormatVersion) {jobs : List (Job File)}
    (hjobs : ∀ job ∈ jobs, job.prepared.target.user = actor)
    (h : Invariant format actor marker disk) :
    Invariant format actor marker (runCommits format disk jobs) := by
  induction jobs generalizing disk with
  | nil => exact h
  | cons job rest ih =>
      have hcommit : Holds (fun d _ => d = disk) (job.call format) _ (Unless False _) :=
        commitGenerationRefresh_holds hformat hversion (hjobs job List.mem_cons_self)
          (fun h : False => h.elim) h (L := fun disk _ => Invariant format actor marker disk)
          fun _ _ h => h
      have hkept : Holds (fun d _ => d = disk) (job.call format)
          (fun _ d _ => Invariant format actor marker d)
          (fun d _ => Invariant format actor marker d) := by
        refine (Holds.of_unless hcommit).weaken (fun _ _ h => h) ?_
        rintro served d call ⟨-, raw, intent, hcompleted⟩
        exact hcompleted.retained.invariant hcompleted.owned hcompleted.markerJson
      exact ih (fun other hother => hjobs other (List.mem_cons_of_mem job hother))
        (hkept.runCall rfl)

/-- Nothing in the store hinders a commit to the target: the retained intent leads to it, or the
ids that are drawn are unused and the archive has room for the predecessor. -/
def Unhindered (format : RefreshFormat File) (actor : Ulid) (disk : ControlDisk File)
    (target : GenerationProjectionTarget) (newUlid : Nat → Ulid) : Prop :=
  (∃ raw intent, retainedIntent format disk actor = .ok (raw, intent) ∧
      LeadsTo format target intent) ∨
    (∀ tick, Fresh format actor disk (newUlid tick)) ∧
      SlotFor format actor disk (disk.refreshIntent actor)

/-- A further preparation and commit, which nothing hinders, reach the target. -/
theorem commit_reaches (hformat : format.Lawful)
    (hversion : marker.storeFormatVersion = hostedStoreFormatVersion)
    (h : Invariant format actor marker disk) {target : GenerationProjectionTarget}
    (htarget : Admissible actor marker target) {before after : World}
    (hbefore : Cooperative before actor target) (hafter : Cooperative after actor target)
    (hfree : Unhindered format actor disk target after.newUlid) :
    ∃ prepared s s', Effect.exec (prepare format before actor target.binding
        (decide (disk.refreshIntent actor = none)) none) (starting disk) = (.ok prepared, s) ∧
      s.disk = disk ∧
      Effect.exec (commitGenerationRefresh format after prepared) (starting disk) =
        (.ok target, s') ∧
      ∃ raw intent, Retained format actor raw intent .target s'.disk ∧
        LeadsTo format target intent := by
  have hprepare : Holds (fun d _ => d = disk) (prepare format before actor target.binding
      (decide (disk.refreshIntent actor = none)) none)
      (fun prepared d _ => d = disk ∧ Matches actor prepared disk ∧
        (True → prepared.target = target)) (Unless True fun _ _ => True) :=
    prepare_holds hformat hversion
      (fun _ => ⟨hbefore, rfl, htarget, decide_eq_true_iff, nofun⟩) h fun _ => trivial
  obtain ⟨prepared, s, hexec, hsame, hmatches, hprepared⟩ :=
    hprepare.returns (s := starting disk) rfl
  cases hprepared trivial
  have hready : Ready format actor marker after prepared disk := by
    refine ⟨hafter, hmatches, ?_⟩
    rcases hfree with ⟨raw, intent, hretained, hleads⟩ | ⟨hfresh, hslot⟩
    · obtain ⟨stage, hretained⟩ := retained_of_retainedIntent hretained
      exact .inl ⟨raw, intent, stage, hretained, hleads⟩
    · exact .inr ⟨htarget, hfresh, hmatches.intent ▸ hslot⟩
  have hcommit := commitGenerationRefresh_holds hformat hversion htarget.user
    (fun _ : True => hready) h (L := fun _ _ => True) fun _ _ _ => trivial
  obtain ⟨served, s', hexec', rfl, raw, intent, hcompleted⟩ :=
    hcommit.returns (s := starting disk) rfl
  exact ⟨prepared, s, s', hexec, hsame, hexec', raw, intent, hcompleted.retained,
    hcompleted.leads⟩

/-- An intent of the account leads to a target in each binding of its project. -/
theorem exists_leadsTo (hformat : format.Lawful)
    (hversion : marker.storeFormatVersion = hostedStoreFormatVersion)
    (h : Invariant format actor marker disk) (hraw : disk.refreshIntent actor = some raw)
    {binding : ResolvedProjectBinding} (hhosted : binding.mode = .cloudMode)
    (hproject : binding.projectId = marker.projectId) :
    ∃ intent target, retainedIntent format disk actor = .ok (raw, intent) ∧
      target.binding = binding ∧ Admissible actor marker target ∧ LeadsTo format target intent := by
  obtain ⟨intent, stage, hretained, howned⟩ := h.retained_of_intentFile hraw
  obtain ⟨before, priorView, after, htransition, huser⟩ := hretained.owned hformat h.1 howned
  have hbinds := htransition.binds after.toProjectionIdentity (by simp)
  have hsame : after.projectId = binding.projectId := hbinds.1.trans hproject.symm
  have hsupported : after.storeFormatVersion = hostedStoreFormatVersion :=
    hbinds.2.1.trans hversion
  have hfound : targetOf format binding intent =
      .ok ⟨binding, after.toProjectionIdentity, hhosted, hsame, hsupported⟩ := by
    unfold targetOf
    rw [htransition.readAfter]
    exact dif_pos ⟨hhosted, hsame, hsupported⟩
  exact ⟨intent, ⟨binding, after.toProjectionIdentity, hhosted, hsame, hsupported⟩,
    hretained.retainedIntent, rfl, ⟨hbinds.2.2.trans huser, hbinds.1⟩, hfound⟩

/-- Refreshes are crash-safe. From a published store whose account has no intent, after any
commits of the account, each of which may have been cut off anywhere: the intent that is found is
read, stands over the controls without a conflict and has its predecessor in the archive; a
generation is admitted only when carrier and pointer are the pair of the intent's target, which
is what is then served; a preparation and a commit that nothing hinders reach their target; and
an intent that is found leads to a target that nothing hinders. -/
theorem refresh_safe (hformat : format.Lawful) {first : GenerationProjectionTarget}
    {start : ControlDisk File} (hstart : Published format.toControlFormat first start)
    (hnew : start.refreshIntent first.user = none) {jobs : List (Job File)}
    (hjobs : ∀ job ∈ jobs, job.prepared.target.user = first.user)
    (hrun : runCommits format start jobs = disk) :
    (∀ raw, disk.refreshIntent first.user = some raw →
      ∃ intent controls state, decodeIntent format raw = .ok intent ∧
        controlsOf disk first.user = .ok controls ∧
        intent.classify format controls.1 controls.2.1 controls.2.2 = .ok state ∧
        state ≠ .conflict ∧ requireArchived format disk first.user intent = .ok ()) ∧
      (∀ binding world served s, Effect.exec (admitGenerationStore format world first.user binding)
          (starting disk) = (.ok served, s) →
        s.disk = disk ∧ ∃ raw intent pointer, disk.refreshIntent first.user = some raw ∧
          decodeIntent format raw = .ok intent ∧
          disk.carrier first.user = some intent.targetAuthorizationJson ∧
          disk.pointer first.user = some intent.targetPointerJson ∧
          evidencePointer format intent.targetPointerJson = .ok pointer ∧
          evidenceCarrier format intent.targetAuthorizationJson =
            .ok pointer.toInstalledAuthorizationView ∧
          pointer.toProjectionIdentity = served.identity) ∧
      (∀ target before after, Admissible first.user (expectedMarker first) target →
        Cooperative before first.user target → Cooperative after first.user target →
        Unhindered format first.user disk target after.newUlid →
        ∃ prepared s s', Effect.exec (prepare format before first.user target.binding
            (decide (disk.refreshIntent first.user = none)) none) (starting disk) =
              (.ok prepared, s) ∧ s.disk = disk ∧
          Effect.exec (commitGenerationRefresh format after prepared) (starting disk) =
            (.ok target, s') ∧
          ∃ raw intent, Retained format first.user raw intent .target s'.disk ∧
            LeadsTo format target intent) ∧
      ∀ raw binding, disk.refreshIntent first.user = some raw → binding.mode = .cloudMode →
        binding.projectId = first.identity.projectId →
        ∃ target, target.binding = binding ∧
          Admissible first.user (expectedMarker first) target ∧
          ∀ newUlid, Unhindered format first.user disk target newUlid := by
  have hversion : (expectedMarker first).storeFormatVersion = hostedStoreFormatVersion :=
    first.supported
  have hinvariant : Invariant format first.user (expectedMarker first) disk := by
    rw [← hrun]
    exact invariant_runCommits hformat hversion hjobs (invariant_of_published hformat hstart hnew)
  refine ⟨fun raw hraw => ?_, fun binding world served s hexec => ?_,
    fun target before after htarget hbefore hafter hfree =>
      commit_reaches hformat hversion hinvariant htarget hbefore hafter hfree,
    fun raw binding hraw hhosted hproject => ?_⟩
  · obtain ⟨intent, stage, hretained, -⟩ := hinvariant.retained_of_intentFile hraw
    exact ⟨intent, _, stage.state, hretained.decoded, hretained.controlsOf, hretained.classify,
      state_ne_conflict stage, hretained.archived⟩
  · have hnever : False → Cooperative world first.user first ∧ ∃ raw intent,
        Retained format first.user raw intent .target disk ∧
          targetOf format binding intent = .ok first := False.elim
    have hadmit : Holds (fun d _ => d = disk)
        (admitGenerationStore format world first.user binding) _ (Unless False fun _ _ => True) :=
      admitGenerationStore_holds hnever fun _ => trivial
    obtain ⟨hsame, raw, intent, hretained, hserved⟩ := hadmit.of_exec rfl hexec
    obtain ⟨marker, earlier, priorView, pointer, htransition⟩ := hretained.transition
    refine ⟨hsame, raw, intent, pointer, hretained.intentFile, hretained.decoded,
      hretained.carrierFile, hretained.pointerFile, htransition.readAfter,
      htransition.readAfterView, ?_⟩
    unfold targetOf at hserved
    rw [htransition.readAfter] at hserved
    dsimp only at hserved
    split at hserved
    · cases hserved
      rfl
    · cases hserved
  · obtain ⟨intent, target, hretained, hbinding, htarget, hleads⟩ :=
      exists_leadsTo hformat hversion hinvariant hraw hhosted hproject
    exact ⟨target, hbinding, htarget, fun _ => .inl ⟨raw, intent, hretained, hleads⟩⟩

/-! ## A refresh that is cut off between its controls -/

inductive SampleFile where
  | control (file : Client.SampleFile)
  | intent (kind : RefreshKind) (marker basePointer baseAuthorization targetPointer
      targetAuthorization : SampleFile) (predecessor : Option Digest) (payload : Digest)
deriving DecidableEq

def sampleRefreshFormat : RefreshFormat SampleFile where
  marker :=
    { dump := fun record => .control (.marker record)
      load? := fun | .control (.marker record) => some record | _ => none }
  view :=
    { dump := fun record => .control (.view record)
      load? := fun | .control (.view record) => some record | _ => none }
  pointer :=
    { dump := fun record => .control (.pointer record)
      load? := fun | .control (.pointer record) => some record | _ => none }
  size _ := 1
  digest _ := sampleDigest256
  payloadDigest _ := sampleDigest256
  dumpIntent record payload := .intent record.kind record.markerJson record.basePointerJson
    record.baseAuthorizationJson record.targetPointerJson record.targetAuthorizationJson
    record.predecessorDigest payload
  loadIntent?
    | .intent kind marker basePointer baseAuthorization targetPointer targetAuthorization
        predecessor payload =>
        some (⟨kind, marker, basePointer, baseAuthorization, targetPointer, targetAuthorization,
          predecessor⟩, payload)
    | _ => none

theorem sampleRefreshFormat_lawful : sampleRefreshFormat.Lawful where
  controls := ⟨⟨fun _ => rfl⟩, ⟨fun _ => rfl⟩, ⟨fun _ => rfl⟩⟩
  loadIntent?_dump _ _ := rfl
  size_pointer _ _ := ⟨show 0 < 1 by decide, show 1 ≤ maxControlBytes by decide⟩
  size_view _ _ := ⟨show 0 < 1 by decide, show 1 ≤ maxControlBytes by decide⟩
  size_intent _ _ _ _ _ _ _ _ _ _ _ _ _ _ _ _ := show 1 ≤ maxIntentBytes by decide

/-- The ids that a commit draws. -/
theorem sampleStateId_valid : isUlid "01K00000000000000000000001".toList = true := by
  decide

def sampleStateId : Ulid := ⟨"01K00000000000000000000001".toList, sampleStateId_valid⟩

/-- Surroundings that help, up to the tick at which the call is killed. -/
def sampleWorld (killed : Option Nat) : World where
  cut tick := killed = some tick
  activeUserId _ := some sampleUlid.text
  audited _ _ := true
  observed _ := some sampleTarget
  acquired _ := some sampleTarget
  newUlid _ := sampleStateId
  now _ := sampleTimestamp

def sampleView : InstalledAuthorizationView :=
  buildCarrier sampleTarget sampleUlid sampleTimestamp sampleUlid

def samplePointer : InstalledGenerationPointer :=
  buildPointer sampleTarget sampleUlid sampleTimestamp sampleTimestamp sampleUlid

/-- A store that has just been published. -/
def publishedStore : ControlDisk SampleFile where
  marker := some (.control (.marker (expectedMarker sampleTarget)))
  actors _ := ⟨some (.control (.view sampleView)), some (.control (.pointer samplePointer)), none,
    fun _ => none⟩

def samplePrepared : Prepared SampleFile where
  target := sampleTarget
  marker := .control (.marker (expectedMarker sampleTarget))
  pointer := .control (.pointer samplePointer)
  carrier := .control (.view sampleView)
  priorIntent := none

/-- A commit that is killed between the carrier and the pointer. -/
def sampleCommits : List (Job SampleFile) := [⟨samplePrepared, sampleWorld (some 22)⟩]

theorem publishedStore_published :
    Published sampleRefreshFormat.toControlFormat sampleTarget publishedStore :=
  ⟨rfl, sampleView, samplePointer, ⟨rfl, rfl, rfl, rfl⟩⟩

theorem refresh_safe_applied :
    (runCommits sampleRefreshFormat publishedStore sampleCommits).carrier sampleUlid ≠
        publishedStore.carrier sampleUlid ∧
      (runCommits sampleRefreshFormat publishedStore sampleCommits).pointer sampleUlid =
        publishedStore.pointer sampleUlid ∧
      ∃ target, target.binding = sampleTarget.binding ∧ ∀ newUlid, Unhindered sampleRefreshFormat
        sampleUlid (runCommits sampleRefreshFormat publishedStore sampleCommits) target newUlid := by
  refine ⟨by decide +kernel, by decide +kernel, ?_⟩
  have hstarted : ((runCommits sampleRefreshFormat publishedStore sampleCommits).refreshIntent
      sampleUlid).isSome = true := by decide +kernel
  obtain ⟨raw, hraw⟩ := Option.isSome_iff_exists.mp hstarted
  have hjobs : ∀ job ∈ sampleCommits, job.prepared.target.user = sampleTarget.user := by
    intro job hjob
    cases List.mem_singleton.mp hjob
    rfl
  obtain ⟨target, hbinding, -, hfree⟩ := (refresh_safe sampleRefreshFormat_lawful
    publishedStore_published rfl hjobs rfl).2.2.2 raw sampleTarget.binding hraw rfl rfl
  exact ⟨target, hbinding, hfree⟩

end Refresh
end Client
end Nauro
