import Nauro.Client.Publication

/-!
# The steps of a publication

Each step of a publication has one specification: what it leaves when it stops, and that it
returns when nothing stands in its way.

* `activeSelection_holds` — what passes the check of a marked store.
-/

namespace Nauro
namespace Client

open Foundation Foundation.Session Nauro.Core

variable {File : Type} {format : ControlFormat File} {world : PublicationWorld}
  {target : GenerationProjectionTarget} {start disk : ControlDisk File}
  {view : InstalledAuthorizationView} {pointer : InstalledGenerationPointer}

namespace ControlDisk

theorem withActor_of_eq {user : Ulid} {change : ActorFiles File → ActorFiles File}
    (h : change (disk.actors user) = disk.actors user) : disk.withActor user change = disk := by
  unfold withActor
  rw [h, Function.update_eq_self]

/-- Writing a file again changes nothing. -/
theorem withCarrier_of_eq {user : Ulid} {file : File} (h : disk.carrier user = some file) :
    disk.withCarrier user file = disk :=
  withActor_of_eq (by rw [← h]; rfl)

theorem withPointer_of_eq {user : Ulid} {file : File} (h : disk.pointer user = some file) :
    disk.withPointer user file = disk :=
  withActor_of_eq (by rw [← h]; rfl)

end ControlDisk

/-! ## Exact controls -/

/-- The account's carrier and pointer are a pair for the target. -/
structure Paired (format : ControlFormat File) (target : GenerationProjectionTarget)
    (view : InstalledAuthorizationView) (pointer : InstalledGenerationPointer)
    (disk : ControlDisk File) : Prop where
  carrierFile : disk.carrier target.user = some (format.view.dump view)
  pointerFile : disk.pointer target.user = some (format.pointer.dump pointer)
  identity : view.toProjectionIdentity = target.identity
  exact : pointer.toInstalledAuthorizationView = view

/-- The marker of the target stands over a pair for it. -/
def Published (format : ControlFormat File) (target : GenerationProjectionTarget)
    (disk : ControlDisk File) : Prop :=
  disk.marker = some (format.marker.dump (expectedMarker target)) ∧
    ∃ view pointer, Paired format target view pointer disk

theorem Paired.withMarker {file : File} (h : Paired format target view pointer disk) :
    Paired format target view pointer (disk.withMarker file) :=
  ⟨h.carrierFile, h.pointerFile, h.identity, h.exact⟩

theorem InstalledAuthorizationView.eq_of_identity {other : InstalledAuthorizationView}
    (hidentity : view.toProjectionIdentity = other.toProjectionIdentity)
    (hstate : view.installedStateId = other.installedStateId) : view = other := by
  cases view
  cases other
  cases hidentity
  cases hstate
  rfl

theorem validateCarrier_of_identity (h : view.toProjectionIdentity = target.identity)
    (markerJson : Option File) :
    validateCarrier target target.user markerJson view = .ok true := by
  have huser : view.installedForUserId = target.user := by
    rw [h]
    rfl
  unfold validateCarrier
  rw [if_neg (by simp [huser]), if_pos (by rw [h])]

theorem identity_of_validateCarrier {markerJson : Option File} {exact : Bool}
    (h : validateCarrier target target.user markerJson view = .ok exact)
    (hexact : exact = true ∨ markerJson.isSome) : view.toProjectionIdentity = target.identity := by
  unfold validateCarrier at h
  split at h
  · cases h
  · rename_i huser
    split at h
    · rename_i hfields
      refine ProjectionIdentity.eq_of_fields ?_ hfields
      by_contra hne
      exact huser (.inl hne)
    · split at h
      · cases h
      · rename_i hmarker
        cases h
        exact absurd (hexact.resolve_left Bool.false_ne_true) hmarker

theorem validateControlPair_of_exact (h : view.toProjectionIdentity = target.identity)
    (hexact : pointer.toInstalledAuthorizationView = view) (markerJson : Option File) :
    validateControlPair target target.user markerJson view pointer = .ok true := by
  subst hexact
  have huser : pointer.installedForUserId = target.user := by
    rw [h]
    rfl
  unfold validateControlPair
  rw [validateCarrier_of_identity h]
  show (if _ then _ else _) = _
  rw [if_neg (by simp [huser]), if_pos (by simp [h])]

theorem exact_of_validateControlPair {markerJson : Option File} {exact : Bool}
    (h : validateControlPair target target.user markerJson view pointer = .ok exact)
    (hexact : exact = true ∨ markerJson.isSome) :
    view.toProjectionIdentity = target.identity ∧ pointer.toInstalledAuthorizationView = view := by
  unfold validateControlPair at h
  split at h
  · cases h
  · rename_i carrierExact hcarrier
    split at h
    · split at h
      · cases h
      · rename_i hmarker
        cases h
        exact absurd (hexact.resolve_left Bool.false_ne_true) hmarker
    · rename_i huser
      split at h
      · rename_i hfields
        obtain ⟨hcarrierExact, hpointer, -, hstate⟩ := hfields
        have hview := identity_of_validateCarrier hcarrier (.inl hcarrierExact)
        have huser' : pointer.installedForUserId = target.user := by
          by_contra hne
          exact huser (.inl hne)
        have hidentity : pointer.toProjectionIdentity = target.identity :=
          ProjectionIdentity.eq_of_fields huser' hpointer
        exact ⟨hview, InstalledAuthorizationView.eq_of_identity (hidentity.trans hview.symm) hstate⟩
      · split at h
        · cases h
        · rename_i hmarker
          cases h
          exact absurd (hexact.resolve_left Bool.false_ne_true) hmarker

theorem selectMarkerAuthority_of_expected (hformat : format.Lawful) :
    selectMarkerAuthority format target.binding (some (format.marker.dump (expectedMarker target)))
      (some target.user.text) =
        .ok (some ⟨target.binding, expectedMarker target, target.user⟩) := by
  have hproject : (expectedMarker target).projectId = target.binding.projectId :=
    target.sameProject
  have hversion : (expectedMarker target).storeFormatVersion = hostedStoreFormatVersion :=
    target.supported
  simp [selectMarkerAuthority, target.hosted, hformat.marker.load?_dump, hproject, hversion,
    Ulid.ofText?_text]

/-- A marker that the target's binding selects is the target's. -/
theorem eq_expected_of_selectMarkerAuthority {raw : File} {user : Option Text}
    {selected : PendingGenerationAuthority}
    (h : selectMarkerAuthority format target.binding (some raw) user = .ok (some selected)) :
    selected.marker = expectedMarker target := by
  unfold selectMarkerAuthority at h
  simp only [target.hosted, ne_eq, not_true_eq_false, if_false] at h
  split at h
  · cases h
  · rename_i marker hmarker
    split at h
    · cases h
    · rename_i hproject
      split at h
      · cases h
      · rename_i hversion
        split at h
        · cases h
        · cases h
          have hsame := (not_not.mp hproject).trans target.sameProject.symm
          have hformat := (not_not.mp hversion).trans target.supported.symm
          show marker = ⟨target.identity.projectId, target.identity.storeFormatVersion⟩
          rw [← hsame, ← hformat]

theorem requirePublishedPair_of_exact (h : view.toProjectionIdentity = target.identity)
    (hexact : pointer.toInstalledAuthorizationView = view) :
    requirePublishedPair File target target.user view pointer = .ok () := by
  have hview : view.installedForUserId = target.user := by
    rw [h]
    rfl
  have hpointer : pointer.installedForUserId = target.user := by
    rw [← hexact] at hview
    exact hview
  simp [requirePublishedPair, hview, hpointer, validateControlPair_of_exact h hexact]

/-! ## Steps -/

/-- The surroundings of a run that nothing stands in the way of. -/
structure Cooperative (world : PublicationWorld) (target : GenerationProjectionTarget) :
    Prop where
  uncut : ∀ tick, world.cut tick = false
  active : ∀ tick, world.activeUserId tick = some target.user.text
  authorized : ∀ tick, world.authorizedTarget tick = some target
  audited : ∀ tick, world.manifest tick = some target.identity.bound
  writes : ∀ tick, world.write tick = .done

section Steps

variable {calm : Prop} (hcalm : calm → Cooperative world target)
  {P L : ControlDisk File → List PublicationEvent → Prop}
  (hstop : ∀ disk call, P disk call → L disk call)

include hcalm hstop

theorem requireActor_holds :
    Holds P (requireActor world target) (fun _ => P) (Unless calm L) := by
  refine Holds.bind (Holds.point_unless (fun hc => (hcalm hc).uncut) hstop) fun _ =>
    Holds.bind (Holds.ask world.activeUserId) fun active =>
      Holds.bind (Holds.ensure_unless (fun hc disk call hp => ?_)
        fun disk call hp => hstop disk call hp.1) fun _ =>
          Holds.onlyIf (fun _ => ?_) fun _ _ _ hp => hp.1.1
  · obtain ⟨-, tick, rfl⟩ := hp
    exact (hcalm hc).active tick
  · refine Holds.bind (Holds.ask world.authorizedTarget) fun current =>
      (Holds.ensure_unless (fun hc disk call hp => ?_)
        fun disk call hp => hstop disk call hp.1.1.1).weaken (fun _ _ hp => hp)
          fun _ _ _ hp => hp.1.1.1.1
    obtain ⟨-, tick, rfl⟩ := hp
    exact (hcalm hc).authorized tick

theorem readControlFile_holds (file : ControlDisk File → Option File) :
    Holds P (readControlFile world file) (fun found disk call => P disk call ∧ found = file disk)
      (Unless calm L) := by
  refine Holds.bind (Holds.point_unless (fun hc => (hcalm hc).uncut) hstop) fun _ =>
    Holds.bind Holds.readDisk fun read => Holds.pure fun disk call hp => ⟨hp.1, ?_⟩
  rw [hp.2]

/-- What is read of a disk that is known. -/
theorem readControlFile_bind {d : ControlDisk File} {α : Type}
    {Q : α → ControlDisk File → List PublicationEvent → Prop}
    (hd : ∀ disk call, P disk call → disk = d) {file : ControlDisk File → Option File}
    {f : Option File → PublicationCall File α} (h : Holds P (f (file d)) Q (Unless calm L)) :
    Holds P (readControlFile world file >>= f) Q (Unless calm L) := by
  refine Holds.bind (readControlFile_holds hcalm hstop file) fun found =>
    Holds.of_fact (fun disk call hp => hp.2.trans (congrArg file (hd disk call hp.1)))
      fun hfound => ?_
  rw [hfound]
  exact h.weaken (fun _ _ hp => hp.1) fun _ _ _ hq => hq

theorem auditInstalledRoot_holds {S : ControlDisk File → List PublicationEvent → Prop}
    (hemit : ∀ disk call, P disk call → S disk (call ++ [.audited target.identity])) :
    Holds P (auditInstalledRoot world target)
      (fun committedAt disk call => S disk call ∧ committedAt = target.identity.committedAt)
      (Unless calm L) := by
  refine Holds.bind (Holds.point_unless (fun hc => (hcalm hc).uncut) hstop) fun _ =>
    Holds.bind (Holds.ask world.manifest) fun audited =>
      Holds.bind (Holds.ofOption_unless (fun hc disk call hp => ?_)
        fun disk call hp => hstop disk call hp.1) fun manifest =>
          Holds.bind (Holds.ensure_unless (fun hc disk call hp => ?_)
            fun disk call hp => hstop disk call hp.1.1) fun _ =>
              Holds.bind (Q := fun _ disk call =>
                S disk call ∧ manifest = target.identity.bound)
                (Holds.emit fun disk call hp => ⟨hemit disk call hp.1.1.1, hp.2⟩) fun _ =>
                  Holds.pure fun disk call hp => ⟨hp.1, ?_⟩
  · obtain ⟨-, tick, rfl⟩ := hp
    rw [(hcalm hc).audited tick]
    exact Option.some_ne_none _
  · obtain ⟨⟨-, tick, htick⟩, hmanifest⟩ := hp
    rw [(hcalm hc).audited tick] at htick
    exact Option.some.inj (hmanifest.symm.trans htick.symm)
  · rw [hp.2]
    rfl

/-- A durable write was done, or raised without being done. -/
theorem durableWrite_holds {S : ControlDisk File → List PublicationEvent → Prop}
    {update : ControlDisk File → ControlDisk File} {event : PublicationEvent}
    (hwrite : ∀ disk call, P disk call → S (update disk) (call ++ [event]))
    (hwritten : ∀ disk call, S disk call → L disk call) :
    Holds P (durableWrite world update event)
      (fun _ disk call => S disk call ∨ ¬ calm ∧ P disk call) (Unless calm L) := by
  have heither : ∀ disk call, S disk call ∨ ¬ calm ∧ P disk call → L disk call := by
    rintro disk call (hs | ⟨-, hp⟩)
    · exact hwritten disk call hs
    · exact hstop disk call hp
  refine Holds.bind (Holds.point_unless (fun hc => (hcalm hc).uncut) hstop) fun _ =>
    Holds.bind (Holds.ask world.write) fun outcome =>
      Holds.bind (Q := fun _ disk call => (S disk call ∨ ¬ calm ∧ P disk call) ∧
        ∃ tick, world.write tick = outcome) (Holds.onlyIf (fun _ => ?_) ?_) fun _ =>
          Holds.bind (Holds.point_unless (fun hc => (hcalm hc).uncut)
            fun disk call hp => heither disk call hp.1) fun _ =>
              Holds.bind (Holds.ensure_unless (fun hc disk call hp => ?_)
                fun disk call hp => heither disk call hp.1) fun _ =>
                  Holds.pure fun disk call hp => hp.1.1
  · refine Holds.bind Holds.readDisk fun read =>
      Holds.bind (Q := fun _ disk call => ∃ before, disk = update before ∧ P before call ∧
        ∃ tick, world.write tick = outcome) (Holds.replaceDisk ?_) fun _ => Holds.emit ?_
    · rintro disk call ⟨⟨hp, htick⟩, rfl⟩
      exact ⟨read, rfl, hp, htick⟩
    · rintro disk call ⟨before, rfl, hp, htick⟩
      exact ⟨.inl (hwrite before call hp), htick⟩
  · rintro hskip disk call ⟨hp, tick, rfl⟩
    refine ⟨.inr ⟨fun hc => hskip ?_, hp⟩, tick, rfl⟩
    rw [(hcalm hc).writes tick]
    rfl
  · obtain ⟨-, tick, rfl⟩ := hp
    rw [(hcalm hc).writes tick]
    rfl

end Steps

/-! ## Files of a target -/

variable [DecidableEq File]

theorem readActiveMarker_of_expected (hformat : format.Lawful) :
    readActiveMarker format target (format.marker.dump (expectedMarker target)) = .ok () := by
  simp [readActiveMarker, selectMarkerAuthority_of_expected hformat]

/-- A marker that is read as the target's is the one that a publication writes. -/
theorem eq_expected_of_readActiveMarker {raw : File}
    (h : readActiveMarker format target raw = .ok ()) :
    raw = format.marker.dump (expectedMarker target) := by
  unfold readActiveMarker at h
  split at h
  · cases h
  · cases h
  · rename_i selected hselected
    split at h
    · cases h
    · rename_i hraw
      rw [← eq_expected_of_selectMarkerAuthority hselected]
      exact not_not.mp hraw

/-- The controls of a store published with the target select the target. -/
theorem selectExact_of_published (hformat : format.Lawful)
    (hidentity : pointer.toProjectionIdentity = target.identity) :
    selectExact format target (format.marker.dump (expectedMarker target))
      (some (format.pointer.dump pointer)) =
        .ok (.generation target.binding (expectedMarker target) pointer) := by
  have hscope : Digest.ofText? target.identity.projectionScopeId.text =
      some target.identity.projectionScopeId := by
    unfold Digest.ofText?
    rw [dif_pos target.identity.projectionScopeId.valid]
  have hselect : selectGenerationPointer format ⟨target.binding, expectedMarker target, target.user⟩
      (some (format.pointer.dump pointer)) (some target.identity.projectionScopeId.text) =
        .ok (.generation target.binding (expectedMarker target) pointer) := by
    simp [selectGenerationPointer, hformat.pointer.load?_dump, hidentity, expectedMarker,
      target.sameProject, GenerationProjectionTarget.user, hscope]
  simp [selectExact, selectProjectAuthority, selectMarkerAuthority_of_expected hformat, hselect,
    hidentity]

theorem requirePublishedCarrier_dump (hformat : format.Lawful)
    (h : view.toProjectionIdentity = target.identity) :
    requirePublishedCarrier format target target.user (format.view.dump view)
      (format.view.dump view) = .ok view := by
  simp [requirePublishedCarrier, parseAuthorizationView_dump hformat,
    validateCarrier_of_identity h]

/-! ## Writes -/

section Writes

variable {calm : Prop} (hcalm : calm → Cooperative world target) (hformat : format.Lawful)
  {L : ControlDisk File → List PublicationEvent → Prop}

include hcalm hformat

/-- The carrier is written over what was read of it. -/
theorem writeCarrier_holds {d : ControlDisk File} (hmarker : d.marker = none)
    (hview : view.toProjectionIdentity = target.identity) (hbefore : ∀ call, L d call)
    (hafter : ∀ call, L (d.withCarrier target.user (format.view.dump view)) call) :
    Holds (fun disk _ => disk = d)
      (writeCarrier format world target target.user (d.carrier target.user) (format.view.dump view))
      (fun carrier disk _ => carrier = view ∧
        disk = d.withCarrier target.user (format.view.dump view)) (Unless calm L) := by
  have huncut := fun hc => (hcalm hc).uncut
  have hdump : requirePublishedCarrier format target target.user (format.view.dump view)
      (format.view.dump view) = .ok view := requirePublishedCarrier_dump hformat hview
  have hstop : ∀ disk call, disk = d → L disk call := fun _ call h => h ▸ hbefore call
  have hwritten : ∀ disk call, disk = d.withCarrier target.user (format.view.dump view) →
      L disk call := fun _ call h => h ▸ hafter call
  unfold writeCarrier
  refine Holds.bind (Holds.point_unless huncut hstop) fun _ => ?_
  refine readControlFile_bind hcalm hstop (fun _ _ h => h) ?_
  refine Holds.ensure_bind rfl ?_
  refine readControlFile_bind hcalm hstop (fun _ _ h => h) ?_
  refine Holds.ensure_bind hmarker ?_
  refine Holds.ofExcept_bind hdump ?_
  refine Holds.bind (requireActor_holds hcalm hstop) fun _ => ?_
  refine Holds.bind (durableWrite_holds hcalm hstop (fun _ _ h => h ▸ rfl) hwritten) fun failed => ?_
  have heither : ∀ disk call, (disk = d.withCarrier target.user (format.view.dump view) ∨
      ¬ calm ∧ disk = d) → L disk call := fun disk call h =>
    h.elim (hwritten disk call) fun h => hstop disk call h.2
  refine Holds.bind (readControlFile_holds hcalm heither _) fun observed => ?_
  refine Holds.bind (Holds.ensure_unless (fun hc disk call hp => ?_)
    fun disk call hp => heither disk call hp.1) fun _ => ?_
  · obtain ⟨rfl | ⟨hnot, -⟩, hobserved⟩ := hp
    · rw [hobserved, ControlDisk.withCarrier_carrier]
    · exact absurd hc hnot
  refine Holds.ofExcept_bind hdump ?_
  -- A write that raised without being done is read back only if it had nothing to change.
  have hsettled : ∀ (disk : ControlDisk File) (_ : List PublicationEvent),
      ((disk = d.withCarrier target.user (format.view.dump view) ∨ ¬ calm ∧ disk = d) ∧
        observed = disk.carrier target.user) ∧ observed = some (format.view.dump view) →
      disk = d.withCarrier target.user (format.view.dump view) := by
    rintro disk call ⟨⟨hdisk | ⟨-, rfl⟩, hread⟩, hobserved⟩
    · exact hdisk
    · exact (ControlDisk.withCarrier_of_eq (hread.symm.trans hobserved)).symm
  refine Holds.bind (Q := fun _ disk _ => disk = d.withCarrier target.user (format.view.dump view))
    (Holds.onlyIf (fun _ => ?_) fun _ => hsettled) fun _ => Holds.pure fun _ _ h => ⟨rfl, h⟩
  exact (requireActor_holds hcalm hwritten).weaken hsettled fun _ _ _ h => h

/-- The pointer is written beside the carrier that it pairs with. -/
theorem writePointer_holds {d : ControlDisk File} (hmarker : d.marker = none)
    (hcarrier : d.carrier target.user = some (format.view.dump view))
    (hview : view.toProjectionIdentity = target.identity)
    (hexact : pointer.toInstalledAuthorizationView = view) (hbefore : ∀ call, L d call)
    (hafter : ∀ call, L (d.withPointer target.user (format.pointer.dump pointer)) call) :
    Holds (fun disk _ => disk = d)
      (writePointer format world target target.user (format.view.dump view)
        (d.pointer target.user) (format.pointer.dump pointer))
      (fun _ disk _ => disk = d.withPointer target.user (format.pointer.dump pointer))
      (Unless calm L) := by
  have huncut := fun hc => (hcalm hc).uncut
  have hdump : requirePublishedCarrier format target target.user (format.view.dump view)
      (format.view.dump view) = .ok view := requirePublishedCarrier_dump hformat hview
  have hparse := parseExactPointer_dump hformat pointer
  have hpair : requirePublishedPair File target target.user view pointer = .ok () :=
    requirePublishedPair_of_exact hview hexact
  have hstop : ∀ disk call, disk = d → L disk call := fun _ call h => h ▸ hbefore call
  have hwritten : ∀ disk call, disk = d.withPointer target.user (format.pointer.dump pointer) →
      L disk call := fun _ call h => h ▸ hafter call
  unfold writePointer
  refine Holds.bind (Holds.point_unless huncut hstop) fun _ => ?_
  refine readControlFile_bind hcalm hstop (fun _ _ h => h) ?_
  refine Holds.ensure_bind hcarrier ?_
  refine Holds.ofExcept_bind hdump ?_
  refine readControlFile_bind hcalm hstop (fun _ _ h => h) ?_
  refine Holds.ensure_bind rfl ?_
  refine readControlFile_bind hcalm hstop (fun _ _ h => h) ?_
  refine Holds.ensure_bind hmarker ?_
  refine Holds.ofExcept_bind hparse ?_
  refine Holds.ofExcept_bind hpair ?_
  refine Holds.bind (requireActor_holds hcalm hstop) fun _ => ?_
  refine Holds.bind (durableWrite_holds hcalm hstop (fun _ _ h => h ▸ rfl) hwritten) fun failed => ?_
  have heither : ∀ disk call,
      (disk = d.withPointer target.user (format.pointer.dump pointer) ∨ ¬ calm ∧ disk = d) →
        L disk call := fun disk call h => h.elim (hwritten disk call) fun h => hstop disk call h.2
  refine Holds.bind (readControlFile_holds hcalm heither _) fun observedCarrier => ?_
  refine Holds.bind (readControlFile_holds hcalm (fun disk call hp => heither disk call hp.1) _)
    fun observedPointer => ?_
  refine Holds.bind (Holds.ensure_unless (fun hc disk call hp => ?_)
    fun disk call hp => heither disk call hp.1.1) fun _ => ?_
  · obtain ⟨⟨rfl | ⟨hnot, -⟩, -⟩, hobserved⟩ := hp
    · rw [hobserved, ControlDisk.withPointer_pointer]
    · exact absurd hc hnot
  -- A write that raised without being done is read back only if it had nothing to change.
  have hsettled : ∀ (disk : ControlDisk File) (_ : List PublicationEvent),
      (((disk = d.withPointer target.user (format.pointer.dump pointer) ∨ ¬ calm ∧ disk = d) ∧
        observedCarrier = disk.carrier target.user) ∧
          observedPointer = disk.pointer target.user) ∧
            observedPointer = some (format.pointer.dump pointer) →
      disk = d.withPointer target.user (format.pointer.dump pointer) ∧
        observedCarrier = some (format.view.dump view) := by
    rintro disk call ⟨⟨⟨hdisk | ⟨-, rfl⟩, hread⟩, hreadPointer⟩, hobserved⟩
    · rw [hread, hdisk, ControlDisk.withPointer_carrier]
      exact ⟨rfl, hcarrier⟩
    · exact ⟨(ControlDisk.withPointer_of_eq (hreadPointer.symm.trans hobserved)).symm,
        hread.trans hcarrier⟩
  refine Holds.of_fact (fun disk call hp => (hsettled disk call hp).2) fun hobserved => ?_
  refine Holds.weaken ?_ (fun disk call hp => (hsettled disk call hp).1) fun _ _ _ h => h
  refine Holds.ofOption_bind hobserved ?_
  refine Holds.ofExcept_bind hdump ?_
  refine Holds.ofExcept_bind hparse ?_
  refine Holds.ofExcept_bind hpair ?_
  refine Holds.bind (Q := fun _ disk _ =>
    disk = d.withPointer target.user (format.pointer.dump pointer))
    (Holds.onlyIf (fun _ => requireActor_holds hcalm hwritten) fun _ _ _ h => h) fun _ =>
      Holds.pure fun _ _ h => h

end Writes

section Marked

variable {calm : Prop} {d : ControlDisk File}
  (hcalm : calm → Cooperative world target ∧ Published format target d)
  (hformat : format.Lawful) {L : ControlDisk File → List PublicationEvent → Prop}

include hcalm hformat

/-- What passes the check of a marked store was published with the target. -/
theorem activeSelection_holds {T : List PublicationEvent → Prop} {raw : File}
    (hmarker : d.marker = some raw) (hstop : ∀ call, T call → L d call) :
    Holds (fun disk call => disk = d ∧ T call)
      (activeSelection format world target target.user raw)
      (fun verified disk call => (disk = d ∧ T call) ∧ Published format target d ∧
        d.carrier target.user = some verified.2.1 ∧ d.pointer target.user = some verified.2.2)
      (Unless calm L) := by
  have hcooperative := fun hc => (hcalm hc).1
  have hkept : ∀ disk call, disk = d ∧ T call → L disk call := by
    rintro disk call ⟨rfl, h⟩
    exact hstop call h
  have hknown : ∀ (disk : ControlDisk File) call, disk = d ∧ T call → disk = d :=
    fun _ _ h => h.1
  unfold activeSelection
  refine Holds.ofExcept_bind_unless (fun hc => ⟨⟨⟩, ?_⟩) hkept fun _ hread => ?_
  · rw [Option.some.inj (hmarker.symm.trans (hcalm hc).2.1)]
    exact readActiveMarker_of_expected hformat
  have hraw := eq_expected_of_readActiveMarker hread
  refine readControlFile_bind hcooperative hkept hknown ?_
  refine Holds.ofOption_bind_unless (fun hc => ?_) hkept fun carrierJson hcarrierJson => ?_
  · obtain ⟨-, view, pointer, hpaired⟩ := (hcalm hc).2
    exact ⟨_, hpaired.carrierFile⟩
  refine Holds.ofExcept_bind_unless (fun hc => ?_) hkept fun carrier hcarrier => ?_
  · obtain ⟨-, view, pointer, hpaired⟩ := (hcalm hc).2
    rw [Option.some.inj (hcarrierJson.symm.trans hpaired.carrierFile)]
    exact ⟨view, parseAuthorizationView_dump hformat view⟩
  have hcarrierFile := eq_dump_of_parseAuthorizationView hcarrier
  subst hcarrierFile
  refine Holds.ofExcept_bind_unless (fun hc => ?_) hkept fun _ _ => ?_
  · obtain ⟨-, view, pointer, hpaired⟩ := (hcalm hc).2
    have hsame := hformat.view.injective
      (Option.some.inj (hcarrierJson.symm.trans hpaired.carrierFile))
    exact ⟨true, validateCarrier_of_identity (hsame ▸ hpaired.identity) _⟩
  refine readControlFile_bind hcooperative hkept hknown ?_
  refine Holds.ofOption_bind_unless (fun hc => ?_) hkept fun pointerJson hpointerJson => ?_
  · obtain ⟨-, view, pointer, hpaired⟩ := (hcalm hc).2
    exact ⟨_, hpaired.pointerFile⟩
  refine Holds.ofExcept_bind_unless (fun hc => ?_) hkept fun pointer hpointer => ?_
  · obtain ⟨-, view, pointer, hpaired⟩ := (hcalm hc).2
    rw [Option.some.inj (hpointerJson.symm.trans hpaired.pointerFile)]
    exact ⟨pointer, parseExactPointer_dump hformat pointer⟩
  have hpointerFile := eq_dump_of_parseExactPointer hpointer
  subst hpointerFile
  refine Holds.ofExcept_bind_unless (fun hc => ?_) hkept fun _ hpair => ?_
  · obtain ⟨-, view, other, hpaired⟩ := (hcalm hc).2
    have hview := hformat.view.injective
      (Option.some.inj (hcarrierJson.symm.trans hpaired.carrierFile))
    have hother := hformat.pointer.injective
      (Option.some.inj (hpointerJson.symm.trans hpaired.pointerFile))
    subst hview hother
    exact ⟨true, validateControlPair_of_exact hpaired.identity hpaired.exact _⟩
  obtain ⟨hidentity, hexact⟩ := exact_of_validateControlPair hpair (.inr rfl)
  have hpublished : Published format target d :=
    ⟨hmarker.trans (congrArg some hraw), carrier, pointer, hcarrierJson, hpointerJson, hidentity,
      hexact⟩
  refine Holds.ofExcept_bind_unless (fun _ => ?_) hkept fun authority _ =>
    Holds.pure fun _ _ h => ⟨h, hpublished, hcarrierJson, hpointerJson⟩
  rw [hraw]
  exact ⟨_, selectExact_of_published hformat (by rw [hexact]; exact hidentity)⟩

end Marked

end Client
end Nauro
