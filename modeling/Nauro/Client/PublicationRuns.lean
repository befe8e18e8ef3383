import Nauro.Client.PublicationSteps

/-!
# Publications are crash-safe

A run on a store without a marker leaves its target's account with at most a carrier and a
pointer of the target, and the marker only over a pair that was audited after it was written; a
run on a store with its marker writes nothing.

* `publication_crash_safe` — whole sequences of runs.
-/

namespace Nauro
namespace Client

open Foundation Foundation.Session Nauro.Core

variable {File : Type} [DecidableEq File] {format : ControlFormat File}
  {world : PublicationWorld} {target : GenerationProjectionTarget}
  {start disk : ControlDisk File} {view : InstalledAuthorizationView}
  {pointer : InstalledGenerationPointer}

/-! ## The marker -/

/-- Audits only. -/
def Quiet (call : List PublicationEvent) : Prop :=
  ∀ event ∈ call, ∃ identity, event = .audited identity

/-- The target was audited after every write of controls, and the marker written then. -/
def AuditedFirst (target : GenerationProjectionTarget) (log : List PublicationEvent) : Prop :=
  ∃ front back, log = front ++ .audited target.identity :: .wroteMarker target.identity :: back ∧
    Quiet back

theorem AuditedFirst.append {log call : List PublicationEvent} (h : AuditedFirst target log)
    (hcall : Quiet call) : AuditedFirst target (log ++ call) := by
  obtain ⟨front, back, rfl, hback⟩ := h
  refine ⟨front, back ++ call, by simp, fun event hevent => ?_⟩
  exact (List.mem_append.mp hevent).elim (hback event) (hcall event)

theorem AuditedFirst.prepend {log : List PublicationEvent} (h : AuditedFirst target log)
    (past : List PublicationEvent) : AuditedFirst target (past ++ log) := by
  obtain ⟨front, back, rfl, hback⟩ := h
  exact ⟨past ++ front, back, by simp, hback⟩

theorem quiet_nil : Quiet [] :=
  fun _ hevent => absurd hevent List.not_mem_nil

theorem quiet_audited (identity : ProjectionIdentity) : Quiet [.audited identity] :=
  fun _ hevent => ⟨identity, List.mem_singleton.mp hevent⟩

/-- What a run for the target may have changed: the target's own carrier and pointer, and the
marker. -/
structure Touches (format : ControlFormat File) (target : GenerationProjectionTarget)
    (start disk : ControlDisk File) : Prop where
  others : ∀ user, user ≠ target.user → disk.actors user = start.actors user
  intent : disk.refreshIntent target.user = start.refreshIntent target.user
  history : (disk.actors target.user).refreshHistory = (start.actors target.user).refreshHistory
  carrier : disk.carrier target.user = start.carrier target.user ∨
    ∃ view, view.toProjectionIdentity = target.identity ∧
      disk.carrier target.user = some (format.view.dump view)

omit [DecidableEq File] in
theorem Touches.refl : Touches format target start start :=
  ⟨fun _ _ => rfl, rfl, rfl, .inl rfl⟩

omit [DecidableEq File] in
theorem Touches.withCarrier (h : Touches format target start disk)
    (hview : view.toProjectionIdentity = target.identity) :
    Touches format target start (disk.withCarrier target.user (format.view.dump view)) where
  others user hne := (ControlDisk.withActor_of_ne hne).trans (h.others user hne)
  intent := by
    rw [← h.intent]
    simp [ControlDisk.withCarrier, ControlDisk.refreshIntent]
  history := by
    rw [← h.history]
    simp [ControlDisk.withCarrier]
  carrier := .inr ⟨view, hview, ControlDisk.withCarrier_carrier⟩

omit [DecidableEq File] in
theorem Touches.withPointer (h : Touches format target start disk) (file : File) :
    Touches format target start (disk.withPointer target.user file) where
  others user hne := (ControlDisk.withActor_of_ne hne).trans (h.others user hne)
  intent := by
    rw [← h.intent]
    simp [ControlDisk.withPointer, ControlDisk.refreshIntent]
  history := by
    rw [← h.history]
    simp [ControlDisk.withPointer]
  carrier := by
    rw [ControlDisk.withPointer_carrier]
    exact h.carrier

omit [DecidableEq File] in
theorem Touches.withMarker (h : Touches format target start disk) (file : File) :
    Touches format target start (disk.withMarker file) :=
  ⟨h.others, h.intent, h.history, h.carrier⟩

/-- What a run on a store without a marker may leave behind. -/
def Stopped (format : ControlFormat File) (target : GenerationProjectionTarget)
    (start disk : ControlDisk File) (call : List PublicationEvent) : Prop :=
  Touches format target start disk ∧
    (disk.marker = none ∨ Published format target disk ∧ AuditedFirst target call)

section Unmarked

variable {calm : Prop} (hcalm : calm → Cooperative world target) (hformat : format.Lawful)

include hcalm hformat

/-- The marker is written over a pair that was audited in this run. -/
theorem publishMarker_holds {d : ControlDisk File} (hmarker : d.marker = none)
    (htouches : Touches format target start d) (hpaired : Paired format target view pointer d) :
    Holds (fun disk _ => disk = d)
      (publishMarker format world target target.user (format.view.dump view)
        (format.pointer.dump pointer))
      (fun _ disk call => Touches format target start disk ∧ Published format target disk ∧
        AuditedFirst target call)
      (Unless calm (Stopped format target start)) := by
  have hdump : requirePublishedCarrier format target target.user (format.view.dump view)
      (format.view.dump view) = .ok view := requirePublishedCarrier_dump hformat hpaired.identity
  have hparse := parseExactPointer_dump hformat pointer
  have hpair : requirePublishedPair File target target.user view pointer = .ok () :=
    requirePublishedPair_of_exact hpaired.identity hpaired.exact
  have hpublished : Published format target
      (d.withMarker (format.marker.dump (expectedMarker target))) :=
    ⟨rfl, view, pointer, hpaired.withMarker⟩
  have hstop : ∀ disk call, disk = d → Stopped format target start disk call := by
    rintro disk call rfl
    exact ⟨htouches, .inl hmarker⟩
  have hmarked : ∀ disk call, disk = d.withMarker (format.marker.dump (expectedMarker target)) ∧
      AuditedFirst target call → Stopped format target start disk call := by
    rintro disk call ⟨rfl, hlog⟩
    exact ⟨htouches.withMarker _, .inr ⟨hpublished, hlog⟩⟩
  unfold publishMarker
  refine Holds.bind (Holds.point_unless (fun hc => (hcalm hc).uncut) hstop) fun _ => ?_
  refine readControlFile_bind hcalm hstop (fun _ _ h => h) ?_
  refine readControlFile_bind hcalm hstop (fun _ _ h => h) ?_
  refine Holds.ensure_bind ⟨hpaired.carrierFile, hpaired.pointerFile⟩ ?_
  refine Holds.ofExcept_bind hdump ?_
  refine Holds.ofExcept_bind hparse ?_
  refine Holds.ofExcept_bind hpair ?_
  have hstopAudited : ∀ disk call, disk = d ∧ (∃ front : List PublicationEvent,
      call = front ++ [.audited target.identity]) → Stopped format target start disk call :=
    fun disk call h => hstop disk call h.1
  refine Holds.bind (auditInstalledRoot_holds hcalm hstop (S := fun disk call =>
    disk = d ∧ ∃ front, call = front ++ [.audited target.identity])
    fun disk call h => ⟨h, call, rfl⟩) fun _ => ?_
  refine Holds.weaken ?_ (fun _ _ hp => hp.1) fun _ _ _ hq => hq
  refine readControlFile_bind hcalm hstopAudited (fun _ _ h => h.1) ?_
  refine Holds.ensure_bind hmarker ?_
  refine Holds.bind (requireActor_holds hcalm hstopAudited) fun _ => ?_
  refine Holds.bind (durableWrite_holds hcalm hstopAudited (S := fun disk call =>
    disk = d.withMarker (format.marker.dump (expectedMarker target)) ∧ AuditedFirst target call)
    ?_ hmarked) fun _ => ?_
  · rintro disk call ⟨rfl, front, rfl⟩
    exact ⟨rfl, front, [], by simp, fun _ h => absurd h List.not_mem_nil⟩
  refine Holds.bind (readControlFile_holds hcalm (fun disk call h =>
    h.elim (hmarked disk call) fun h => hstopAudited disk call h.2) _) fun observed => ?_
  refine Holds.bind (Holds.ensure_unless (fun hc disk call hp => ?_) fun disk call hp =>
    hp.1.elim (hmarked disk call) fun h => hstopAudited disk call h.2) fun _ => ?_
  · obtain ⟨⟨rfl, -⟩ | ⟨hnot, -⟩, hobserved⟩ := hp
    · exact hobserved
    · exact absurd hc hnot
  -- A marker that is read back was written.
  refine Holds.weaken (P := fun disk call =>
    disk = d.withMarker (format.marker.dump (expectedMarker target)) ∧ AuditedFirst target call)
    ?_ ?_ fun _ _ _ hq => hq
  swap
  · rintro disk call ⟨⟨hwritten | ⟨-, rfl, -⟩, hread⟩, hobserved⟩
    · exact hwritten
    · rw [hread, hmarker] at hobserved
      cases hobserved
  refine Holds.bind (activeSelection_holds (fun hc => ⟨hcalm hc, hpublished⟩) hformat rfl
    fun call hcall => hmarked _ call ⟨rfl, hcall⟩) fun verified => ?_
  refine Holds.of_fact (fun _ _ hp => hp.2.2) fun hverified => ?_
  have hfiles : verified.2 = (format.view.dump view, format.pointer.dump pointer) :=
    Prod.ext (Option.some.inj (hverified.1.symm.trans hpaired.carrierFile))
      (Option.some.inj (hverified.2.symm.trans hpaired.pointerFile))
  refine Holds.ensure_bind hfiles ?_
  refine Holds.bind (auditInstalledRoot_holds hcalm (fun disk call hp => hmarked disk call hp.1)
    (S := fun disk call => disk = d.withMarker (format.marker.dump (expectedMarker target)) ∧
      AuditedFirst target call) fun disk call hp =>
        ⟨hp.1.1, hp.1.2.append (quiet_audited _)⟩) fun _ => Holds.pure ?_
  rintro disk call ⟨⟨rfl, hlog⟩, -⟩
  exact ⟨htouches.withMarker _, hpublished, hlog⟩

/-- What the rest of a publication needs of the carrier that was settled. -/
structure CarrierSettled (format : ControlFormat File) (target : GenerationProjectionTarget)
    (start : ControlDisk File) (retained : Option InstalledAuthorizationView)
    (settled : InstalledAuthorizationView × File × Option Timestamp) (disk : ControlDisk File) :
    Prop where
  unmarked : disk.marker = none
  touches : Touches format target start disk
  identity : settled.1.toProjectionIdentity = target.identity
  file : settled.2.1 = format.view.dump settled.1
  carrier : disk.carrier target.user = some settled.2.1
  pointer : disk.pointer target.user = start.pointer target.user
  reused : ∀ carrier ∈ retained, settled.1 = carrier

theorem settleCarrier_holds (hmarker : start.marker = none)
    {retained : Option InstalledAuthorizationView}
    (hretained : ∀ carrier ∈ retained, carrier.toProjectionIdentity = target.identity ∧
      start.carrier target.user = some (format.view.dump carrier)) :
    Holds (fun disk _ => disk = start)
      (settleCarrier format world target target.user target.identity.committedAt
        (start.carrier target.user) retained)
      (fun settled disk _ => CarrierSettled format target start retained settled disk)
      (Unless calm (Stopped format target start)) := by
  cases retained with
  | some carrier =>
      obtain ⟨hidentity, hcarrier⟩ := hretained carrier rfl
      refine Holds.ofOption_bind hcarrier (Holds.pure ?_)
      rintro disk call rfl
      exact ⟨hmarker, .refl, hidentity, rfl, hcarrier, rfl, fun _ h => Option.some.inj h⟩
  | none =>
      refine Holds.bind (Holds.ask world.newUlid) fun installedStateId =>
        Holds.bind (Holds.ask world.now) fun installedAt => ?_
      have hview : (buildCarrier target target.user target.identity.committedAt
        installedStateId).toProjectionIdentity = target.identity := rfl
      refine Holds.bind ((writeCarrier_holds hcalm hformat hmarker hview
        (fun call => ⟨.refl, .inl hmarker⟩)
        fun call => ⟨Touches.refl.withCarrier hview, .inl hmarker⟩).weaken
          (fun _ _ hp => hp.1.1) fun _ _ _ hq => hq) fun carrier => Holds.pure ?_
      rintro disk call ⟨rfl, rfl⟩
      exact ⟨hmarker, Touches.refl.withCarrier hview, hview, rfl, ControlDisk.withCarrier_carrier,
        ControlDisk.withCarrier_pointer, nofun⟩

theorem settlePointer_holds {d : ControlDisk File} {committedAt : Timestamp}
    {installedAt : Option Timestamp} {held : Option InstalledGenerationPointer}
    (hcommitted : committedAt = target.identity.committedAt) (hmarker : d.marker = none)
    (htouches : Touches format target start d)
    (hview : view.toProjectionIdentity = target.identity)
    (hcarrier : d.carrier target.user = some (format.view.dump view))
    (hheld : ∀ pointer ∈ held, d.pointer target.user = some (format.pointer.dump pointer) ∧
      pointer.toInstalledAuthorizationView = view) :
    Holds (fun disk _ => disk = d)
      (settlePointer format world target target.user committedAt view (format.view.dump view)
        installedAt (d.pointer target.user) held)
      (fun bytes disk _ => disk.marker = none ∧ Touches format target start disk ∧
        ∃ pointer, bytes = format.pointer.dump pointer ∧ Paired format target view pointer disk)
      (Unless calm (Stopped format target start)) := by
  cases held with
  | some pointer =>
      obtain ⟨hpointer, hexact⟩ := hheld pointer rfl
      refine Holds.pure ?_
      rintro disk call rfl
      exact ⟨hmarker, htouches, pointer, rfl, hcarrier, hpointer, hview, hexact⟩
  | none =>
      have htime : Holds (fun disk _ => disk = d)
          (installationTime world installedAt : PublicationCall File Timestamp)
          (fun _ disk _ => disk = d) (Unless calm (Stopped format target start)) := by
        cases installedAt with
        | some installedAt => exact Holds.pure fun _ _ h => h
        | none => exact (Holds.ask world.now).weaken (fun _ _ h => h) fun _ _ _ hq => hq.1
      refine Holds.bind htime fun installedAt => ?_
      have hexact : (buildPointer target target.user committedAt installedAt
          view.installedStateId).toInstalledAuthorizationView = view := by
        rw [hcommitted]
        exact InstalledAuthorizationView.eq_of_identity hview.symm rfl
      refine Holds.bind (writePointer_holds hcalm hformat hmarker hcarrier hview hexact
        (fun call => ⟨htouches, .inl hmarker⟩)
        fun call => ⟨htouches.withPointer _, .inl hmarker⟩) fun _ => Holds.pure ?_
      rintro disk call rfl
      refine ⟨hmarker, htouches.withPointer _, _, rfl, ?_, ControlDisk.withPointer_pointer, hview,
        hexact⟩
      rw [ControlDisk.withPointer_carrier]
      exact hcarrier

end Unmarked

/-! ## A run -/

/-- The account's carrier, if there is one, is one of the account. -/
def OwnCarrier (format : ControlFormat File) (target : GenerationProjectionTarget)
    (disk : ControlDisk File) : Prop :=
  ∀ raw, disk.carrier target.user = some raw → ∃ view,
    parseAuthorizationView format raw = .ok view ∧ view.installedForUserId = target.user

theorem readCarrier_of_own (h : OwnCarrier format target disk) :
    ∃ carrier, readCarrier format (disk.carrier target.user) = .ok carrier := by
  cases hraw : disk.carrier target.user with
  | none => exact ⟨none, rfl⟩
  | some raw =>
      obtain ⟨view, hview, -⟩ := h raw hraw
      exact ⟨some view, by rw [readCarrier, hview]; rfl⟩

/-- The carrier that was read is the one in the file. -/
theorem eq_of_readCarrier {carrierJson : Option File} {carrier : Option InstalledAuthorizationView}
    (h : readCarrier format carrierJson = .ok carrier) :
    carrierJson = carrier.map format.view.dump := by
  cases carrierJson with
  | none =>
      cases h
      rfl
  | some raw =>
      rw [readCarrier] at h
      cases hparse : parseAuthorizationView format raw with
      | error error =>
          rw [hparse] at h
          cases h
      | ok view =>
          rw [hparse] at h
          cases h
          exact congrArg some (eq_dump_of_parseAuthorizationView hparse)

theorem ownCarrier_of_read (hformat : format.Lawful) {carrier : Option InstalledAuthorizationView}
    (hread : disk.carrier target.user = carrier.map format.view.dump)
    (huser : ∀ view ∈ carrier, view.installedForUserId = target.user) :
    OwnCarrier format target disk := by
  intro raw hraw
  rw [hread] at hraw
  obtain ⟨view, rfl, rfl⟩ := Option.map_eq_some_iff.mp hraw
  exact ⟨view, parseAuthorizationView_dump hformat view, huser view rfl⟩

variable (File) in
omit [DecidableEq File] in
theorem retainedCarrier_spec {carrier : Option InstalledAuthorizationView}
    (h : ∀ view ∈ carrier, view.installedForUserId = target.user) :
    ∃ retained, retainedCarrier File target target.user carrier = .ok retained ∧
      ∀ view ∈ retained, carrier = some view ∧ view.toProjectionIdentity = target.identity := by
  cases carrier with
  | none => exact ⟨none, rfl, nofun⟩
  | some view =>
      have huser := h view rfl
      by_cases hfields : view.nonActorFields = target.identity.nonActorFields
      · have hidentity := ProjectionIdentity.eq_of_fields huser hfields
        refine ⟨some view, ?_, fun _ hmem => Option.some.inj hmem ▸ ⟨rfl, hidentity⟩⟩
        simp [retainedCarrier, validateCarrier_of_identity hidentity, Except.map]
      · exact ⟨none, by simp [retainedCarrier, validateCarrier, huser, hfields, Except.map], nofun⟩

theorem retainedPointer_spec {retained : Option InstalledAuthorizationView}
    (h : ∀ view ∈ retained, view.toProjectionIdentity = target.identity)
    (pointerJson : Option File) :
    ∃ held, retainedPointer format target target.user retained pointerJson = .ok held ∧
      ∀ pointer ∈ held, pointerJson = some (format.pointer.dump pointer) ∧
        retained = some pointer.toInstalledAuthorizationView := by
  cases retained with
  | none => exact ⟨none, rfl, nofun⟩
  | some view =>
      cases pointerJson with
      | none => exact ⟨none, rfl, nofun⟩
      | some raw =>
          cases hparse : parseExactPointer format raw with
          | error error => exact ⟨none, by simp [retainedPointer, hparse], nofun⟩
          | ok candidate =>
              have hpair : ∃ exact, validateControlPair target target.user (none : Option File)
                  view candidate = .ok exact := by
                unfold validateControlPair
                rw [validateCarrier_of_identity (h view rfl)]
                dsimp only
                split
                · exact ⟨false, rfl⟩
                · split
                  · exact ⟨true, rfl⟩
                  · exact ⟨false, rfl⟩
              obtain ⟨exact, hpair⟩ := hpair
              cases exact with
              | false => exact ⟨none, by simp [retainedPointer, hparse, hpair, Except.map], nofun⟩
              | true =>
                  refine ⟨some candidate, by simp [retainedPointer, hparse, hpair, Except.map],
                    fun pointer hmem => ?_⟩
                  cases hmem
                  have hexact := exact_of_validateControlPair hpair (.inl rfl)
                  rw [hexact.2]
                  exact ⟨congrArg some (eq_dump_of_parseExactPointer hparse), rfl⟩

section Runs

variable {calm : Prop} (hformat : format.Lawful)

include hformat

theorem publishUnmarked_holds (hcalm : calm → Cooperative world target ∧ OwnCarrier format target start)
    (hmarker : start.marker = none) :
    Holds (fun disk _ => disk = start) (publishUnmarked format world target target.user)
      (fun _ disk call => OwnCarrier format target start ∧ Touches format target start disk ∧
        Published format target disk ∧ AuditedFirst target call)
      (Unless calm (Stopped format target start)) := by
  have hcooperative := fun hc => (hcalm hc).1
  have hstop : ∀ disk call, disk = start → Stopped format target start disk call := by
    rintro disk call rfl
    exact ⟨.refl, .inl hmarker⟩
  unfold publishUnmarked
  refine readControlFile_bind hcooperative hstop (fun _ _ h => h) ?_
  refine Holds.ofExcept_bind_unless (fun hc => readCarrier_of_own (hcalm hc).2) hstop
    fun carrier hread => ?_
  have hfile := eq_of_readCarrier hread
  refine Holds.ensure_bind_unless (fun hc view hview => ?_) hstop fun husers => ?_
  · obtain ⟨other, hother, huser⟩ := (hcalm hc).2 _ (hfile.trans (congrArg _ hview))
    have hsame := hformat.view.injective (eq_dump_of_parseAuthorizationView hother)
    rw [hsame]
    exact ⟨huser, huser⟩
  have hown := ownCarrier_of_read hformat hfile fun view hview => (husers view hview).1
  refine Holds.weaken (Q := fun _ disk call => Touches format target start disk ∧
    Published format target disk ∧ AuditedFirst target call) ?_ (fun _ _ h => h)
      fun _ _ _ hq => ⟨hown, hq⟩
  refine Holds.bind (auditInstalledRoot_holds hcooperative hstop (S := fun disk _ => disk = start)
    fun _ _ h => h) fun committedAt => Holds.of_fact (fun _ _ h => h.2) fun hcommitted => ?_
  refine Holds.weaken (P := fun disk _ => disk = start) ?_ (fun _ _ h => h.1) fun _ _ _ hq => hq
  obtain ⟨retained, hretained, hretainedSpec⟩ :=
    retainedCarrier_spec File fun view hview => (husers view hview).1
  refine Holds.ofExcept_bind hretained ?_
  refine readControlFile_bind hcooperative hstop (fun _ _ h => h) ?_
  obtain ⟨held, hheld, hheldSpec⟩ : ∃ held, retainedPointer format target target.user retained
      (start.pointer target.user) = .ok held ∧ _ :=
    retainedPointer_spec (fun view hview => (hretainedSpec view hview).2) (start.pointer target.user)
  refine Holds.ofExcept_bind hheld ?_
  rw [hcommitted]
  refine Holds.bind (settleCarrier_holds hcooperative hformat hmarker fun view hview => ?_)
    fun settled => ?_
  · obtain ⟨hcarrier, hidentity⟩ := hretainedSpec view hview
    rw [hfile, hcarrier]
    exact ⟨hidentity, rfl⟩
  refine Holds.of_state fun d call hsettled => ?_
  rw [hsettled.file, ← hsettled.pointer]
  refine Holds.bind ((settlePointer_holds hcooperative hformat rfl hsettled.unmarked
    hsettled.touches hsettled.identity (hsettled.carrier.trans (congrArg some hsettled.file))
      fun pointer hpointer => ?_).weaken (fun _ _ h => h.1) fun _ _ _ hq => hq) fun bytes => ?_
  · obtain ⟨hfilePointer, hview⟩ := hheldSpec pointer hpointer
    exact ⟨hsettled.pointer.trans hfilePointer, (hsettled.reused _ hview).symm⟩
  refine Holds.of_state fun d' call' hpaired => ?_
  obtain ⟨hunmarked, htouches, pointer, rfl, hpaired⟩ := hpaired
  exact (publishMarker_holds hcooperative hformat hunmarked htouches hpaired).weaken
    (fun _ _ h => h.1) fun _ _ _ hq => hq

/-- The steps around a run's work under the lock. -/
theorem publishGenerationControl_holds
    (hcalm : calm → Cooperative world target ∧ start.refreshIntent target.user = none)
    {P S L : ControlDisk File → List PublicationEvent → Prop}
    (hstart : ∀ disk call, P disk call → disk = start) (hbefore : ∀ disk call, P disk call → L disk call)
    (hafter : ∀ disk call, S disk call → L disk call)
    (hunder : Holds P (publishUnder format world target target.user start.marker) (fun _ => S)
      (Unless calm L)) :
    Holds P (publishGenerationControl format world target)
      (fun _ disk call => start.refreshIntent target.user = none ∧ S disk call) (Unless calm L) := by
  have hcooperative := fun hc => (hcalm hc).1
  have huncut := fun hc => (hcooperative hc).uncut
  unfold publishGenerationControl
  refine Holds.bind (requireActor_holds hcooperative hbefore) fun _ => ?_
  refine Holds.bind (Holds.point_unless huncut hbefore) fun _ => ?_
  refine Holds.ofExcept_bind (selectMarkerAuthority_of_expected hformat) ?_
  refine Holds.ofOption_bind rfl ?_
  refine Holds.bind (Holds.point_unless huncut hbefore) fun _ => ?_
  refine readControlFile_bind hcooperative hbefore hstart ?_
  refine Holds.ensure_bind_unless (fun hc => (hcalm hc).2) hbefore fun hintent => ?_
  refine readControlFile_bind hcooperative hbefore hstart ?_
  refine Holds.bind hunder fun verified => ?_
  refine Holds.bind (requireActor_holds hcooperative hafter) fun _ => Holds.pure ?_
  exact fun _ _ hs => ⟨hintent, hs⟩

end Runs

/-- A store that a publication of the target completes when nothing disturbs it. -/
structure Publishable (format : ControlFormat File) (target : GenerationProjectionTarget)
    (disk : ControlDisk File) : Prop where
  intent : disk.refreshIntent target.user = none
  controls : disk.marker = none ∧ OwnCarrier format target disk ∨ Published format target disk

omit [DecidableEq File] in
theorem not_published_of_unmarked (h : disk.marker = none) :
    ¬ Published format target disk := by
  rintro ⟨hmarker, -⟩
  rw [h] at hmarker
  cases hmarker

theorem Publishable.own (h : Publishable format target disk) (hmarker : disk.marker = none) :
    OwnCarrier format target disk :=
  (h.controls.resolve_right (not_published_of_unmarked hmarker)).2

theorem Publishable.published (h : Publishable format target disk) {raw : File}
    (hmarker : disk.marker = some raw) : Published format target disk := by
  refine h.controls.resolve_left fun hunmarked => ?_
  rw [hunmarked.1] at hmarker
  cases hmarker

section Jobs

variable {calm : Prop} (hformat : format.Lawful)
  (hcalm : calm → Cooperative world target ∧ Publishable format target start)

include hformat hcalm

theorem publishGenerationControl_unmarked (hmarker : start.marker = none) :
    Holds (fun disk _ => disk = start) (publishGenerationControl format world target)
      (fun _ disk call => Publishable format target start ∧ Touches format target start disk ∧
        Published format target disk ∧ AuditedFirst target call)
      (Unless calm (Stopped format target start)) := by
  have hown : calm → Cooperative world target ∧ OwnCarrier format target start := fun hc =>
    ⟨(hcalm hc).1, (hcalm hc).2.own hmarker⟩
  have hunder := publishUnmarked_holds hformat hown hmarker
  rw [show publishUnmarked format world target target.user =
    publishUnder format world target target.user start.marker by rw [hmarker]; rfl] at hunder
  refine (publishGenerationControl_holds hformat (fun hc => ⟨(hcalm hc).1, (hcalm hc).2.intent⟩)
    (fun _ _ h => h) ?_ ?_ hunder).weaken (fun _ _ h => h) ?_
  · rintro disk call rfl
    exact ⟨.refl, .inl hmarker⟩
  · rintro disk call ⟨-, htouches, hpublished, hlog⟩
    exact ⟨htouches, .inr ⟨hpublished, hlog⟩⟩
  · rintro _ disk call ⟨hintent, hcarrier, hrest⟩
    exact ⟨⟨hintent, .inl ⟨hmarker, hcarrier⟩⟩, hrest⟩

/-- A run on a store with its marker only audits. -/
theorem publishGenerationControl_marked {raw : File} (hmarker : start.marker = some raw) :
    Holds (fun disk call => disk = start ∧ Quiet call)
      (publishGenerationControl format world target)
      (fun _ disk call => Publishable format target start ∧ disk = start ∧ Quiet call)
      (Unless calm fun disk call => disk = start ∧ Quiet call) := by
  have hpublished : calm → Cooperative world target ∧ Published format target start := fun hc =>
    ⟨(hcalm hc).1, (hcalm hc).2.published hmarker⟩
  have hunder : Holds (fun disk call => disk = start ∧ Quiet call)
      (publishUnder format world target target.user start.marker)
      (fun _ disk call => Published format target start ∧ disk = start ∧ Quiet call)
      (Unless calm fun disk call => disk = start ∧ Quiet call) := by
    rw [hmarker]
    refine Holds.bind (activeSelection_holds hpublished hformat hmarker
      fun call h => ⟨rfl, h⟩) fun verified => ?_
    refine Holds.bind (auditInstalledRoot_holds (fun hc => (hcalm hc).1) (fun _ _ h => h.1)
      (S := fun disk call => Published format target start ∧ disk = start ∧ Quiet call) ?_)
        fun _ => Holds.pure fun _ _ h => h.1
    rintro disk call ⟨⟨rfl, hquiet⟩, hpublished, -⟩
    refine ⟨hpublished, rfl, fun event hevent => ?_⟩
    exact (List.mem_append.mp hevent).elim (hquiet event) (quiet_audited _ event)
  refine (publishGenerationControl_holds hformat (fun hc => ⟨(hcalm hc).1, (hcalm hc).2.intent⟩)
    (fun _ _ h => h.1) (fun _ _ h => h) (fun _ _ h => h.2) hunder).weaken (fun _ _ h => h) ?_
  rintro _ disk call ⟨hintent, hpublished, hrest⟩
  exact ⟨⟨hintent, .inr hpublished⟩, hrest⟩

end Jobs

/-! ## Sequences of runs -/

/-- One run: what is published, and what it finds around it. -/
structure PublicationJob where
  target : GenerationProjectionTarget
  world : PublicationWorld

def PublicationJob.call (format : ControlFormat File) (job : PublicationJob) :
    PublicationCall File ProjectAuthority :=
  publishGenerationControl format job.world job.target

/-- Run after run from a store. -/
def runJobs (format : ControlFormat File) (start : ControlDisk File) (jobs : List PublicationJob) :
    ControlDisk File × List (List PublicationEvent) :=
  runCalls start (jobs.map (·.call format))

/-- A marked store was published by one of the runs, and has not been written since. -/
def Sound (format : ControlFormat File) (jobs : List PublicationJob) (disk : ControlDisk File)
    (past : List (List PublicationEvent)) : Prop :=
  disk.marker = none ∨
    ∃ job ∈ jobs, Published format job.target disk ∧ AuditedFirst job.target past.flatten

/-- What one run leaves of a store. -/
theorem run_spec (hformat : format.Lawful) (job : PublicationJob) (start : ControlDisk File) :
    (start.marker = none ∧ Stopped format job.target start (runCall start (job.call format)).1
        (runCall start (job.call format)).2) ∨
      start.marker.isSome ∧ (runCall start (job.call format)).1 = start ∧
        Quiet (runCall start (job.call format)).2 := by
  cases hmarker : start.marker with
  | none =>
      have hrun : Holds _ (job.call format) _ _ :=
        publishGenerationControl_unmarked hformat (fun h : False => h.elim) hmarker
      have hstopped := hrun.weaken (fun _ _ h => h) fun _ _ _ hq =>
        (⟨hq.2.1, .inr hq.2.2⟩ : Stopped format job.target start _ _)
      exact .inl ⟨rfl, (Holds.of_unless hstopped).runCall rfl⟩
  | some raw =>
      have hrun : Holds _ (job.call format) _ _ :=
        publishGenerationControl_marked hformat (fun h : False => h.elim) hmarker
      have hquiet := hrun.weaken (fun _ _ h => h) fun _ _ _ hq => hq.2
      exact .inr ⟨rfl, (Holds.of_unless hquiet).runCall ⟨rfl, quiet_nil⟩⟩

theorem sound_call (hformat : format.Lawful) {jobs : List PublicationJob} {job : PublicationJob}
    (hjob : job ∈ jobs) {past : List (List PublicationEvent)}
    (h : Sound format jobs disk past) :
    Sound format jobs (runCall disk (job.call format)).1
      (past ++ [(runCall disk (job.call format)).2]) := by
  have hlog : (past ++ [(runCall disk (job.call format)).2]).flatten =
      past.flatten ++ (runCall disk (job.call format)).2 := by
    rw [List.flatten_append, List.flatten_singleton]
  unfold Sound
  rw [hlog]
  rcases run_spec hformat job disk with ⟨-, -, hnone | ⟨hpublished, hfirst⟩⟩ | ⟨hsome, hsame, hquiet⟩
  · exact .inl hnone
  · exact .inr ⟨job, hjob, hpublished, hfirst.prepend _⟩
  · rw [hsame]
    refine h.imp_right ?_
    rintro ⟨writer, hwriter, hpublished, hfirst⟩
    exact ⟨writer, hwriter, hpublished, hfirst.append hquiet⟩

/-- Runs on a marked store leave it as it is. -/
theorem runJobs_of_marked (hformat : format.Lawful) (jobs : List PublicationJob) {raw : File}
    (hmarker : disk.marker = some raw) : (runJobs format disk jobs).1 = disk := by
  induction jobs with
  | nil => rfl
  | cons job rest ih =>
      have hsame : (runCall disk (job.call format)).1 = disk := by
        rcases run_spec hformat job disk with ⟨hnone, -⟩ | ⟨-, hsame, -⟩
        · rw [hmarker] at hnone
          cases hnone
        · exact hsame
      show (runJobs format (runCall disk (job.call format)).1 rest).1 = disk
      rw [hsame]
      exact ih

/-- What a run for the target leaves of a store that was ready for it is ready for it. -/
theorem publishable_run (hformat : format.Lawful) {job : PublicationJob}
    (h : Publishable format job.target start) :
    Publishable format job.target (runCall start (job.call format)).1 := by
  rcases run_spec hformat job start with ⟨hmarker, htouches, hend⟩ | ⟨-, hsame, -⟩
  · refine ⟨htouches.intent.trans h.intent, hend.imp (fun hnone => ⟨hnone, ?_⟩) fun h => h.1⟩
    have hown := h.own hmarker
    intro raw hraw
    rcases htouches.carrier with hkept | ⟨view, hidentity, hwritten⟩
    · exact hown raw (hkept ▸ hraw)
    · rw [hwritten] at hraw
      cases hraw
      exact ⟨view, parseAuthorizationView_dump hformat view, by rw [hidentity]; rfl⟩
  · rw [hsame]
    exact h

/-- The session of a run that begins on the disk. -/
def beginning (disk : ControlDisk File) : Session (ControlDisk File) PublicationEvent :=
  { disk := disk, trace := [], tick := 0 }

/-- Two stores published with one target: the same markers, and pairs that may differ in the
state id and the time of the installation only. -/
structure SamePublication (format : ControlFormat File) (target : GenerationProjectionTarget)
    (disk other : ControlDisk File) : Prop where
  marker : disk.marker = other.marker
  left : Published format target disk
  right : Published format target other
  others : ∀ user, user ≠ target.user → disk.actors user = other.actors user
  intent : disk.refreshIntent target.user = other.refreshIntent target.user
  history : (disk.actors target.user).refreshHistory = (other.actors target.user).refreshHistory

/-- A run that returned found a store it could publish, and published it. -/
theorem published_of_exec (hformat : format.Lawful) {authority : ProjectAuthority}
    {s : Session (ControlDisk File) PublicationEvent}
    (h : Effect.exec (publishGenerationControl format world target) (beginning start) =
      (.ok authority, s)) :
    Publishable format target start ∧ Published format target s.disk ∧
      Touches format target start s.disk := by
  cases hmarker : start.marker with
  | none =>
      have hrun : Holds _ (publishGenerationControl format world target) _ _ :=
        publishGenerationControl_unmarked hformat (fun h : False => h.elim) hmarker
      obtain ⟨hready, htouches, hpublished, -⟩ := hrun.of_exec rfl h
      exact ⟨hready, hpublished, htouches⟩
  | some raw =>
      have hrun : Holds _ (publishGenerationControl format world target) _ _ :=
        publishGenerationControl_marked hformat (fun h : False => h.elim) hmarker
      obtain ⟨hready, hsame, -⟩ := hrun.of_exec ⟨rfl, quiet_nil⟩ h
      rw [hsame]
      exact ⟨hready, hready.published hmarker, .refl⟩

/-- A run that nothing disturbs returns, on a store it can publish. -/
theorem exec_of_publishable (hformat : format.Lawful) (hworld : Cooperative world target)
    (h : Publishable format target start) :
    ∃ authority s, Effect.exec (publishGenerationControl format world target) (beginning start) =
      (.ok authority, s) := by
  have hcalm : True → Cooperative world target ∧ Publishable format target start :=
    fun _ => ⟨hworld, h⟩
  cases hmarker : start.marker with
  | none =>
      obtain ⟨authority, s, hexec, -⟩ :=
        (publishGenerationControl_unmarked hformat hcalm hmarker).returns (s := beginning start) rfl
      exact ⟨authority, s, hexec⟩
  | some raw =>
      obtain ⟨authority, s, hexec, -⟩ :=
        (publishGenerationControl_marked hformat hcalm hmarker).returns (s := beginning start)
          ⟨rfl, quiet_nil⟩
      exact ⟨authority, s, hexec⟩

omit [DecidableEq File] in
theorem samePublication_of_touches {whole again : ControlDisk File}
    (hwhole : Touches format target start whole) (hpublished : Published format target whole)
    (hleft : Touches format target start disk) (hagain : Touches format target disk again)
    (hpublishedAgain : Published format target again) :
    SamePublication format target whole again where
  marker := hpublished.1.trans hpublishedAgain.1.symm
  left := hpublished
  right := hpublishedAgain
  others user hne := (hwhole.others user hne).trans
    ((hagain.others user hne).trans (hleft.others user hne)).symm
  intent := hwhole.intent.trans (hagain.intent.trans hleft.intent).symm
  history := hwhole.history.trans (hagain.history.trans hleft.history).symm

/-- What a run for the target may have changed of a store. -/
theorem touches_run (hformat : format.Lawful) (job : PublicationJob) (start : ControlDisk File) :
    Touches format job.target start (runCall start (job.call format)).1 := by
  rcases run_spec hformat job start with ⟨-, htouches, -⟩ | ⟨-, hsame, -⟩
  · exact htouches
  · rw [hsame]
    exact .refl

/-- A publication that was cut off can be run again, to the end it would have reached. -/
theorem publication_resumes (hformat : format.Lawful) {job : PublicationJob}
    {whole again : PublicationWorld} {authority : ProjectAuthority}
    {s : Session (ControlDisk File) PublicationEvent}
    (hwhole : Effect.exec (publishGenerationControl format whole job.target) (beginning disk) =
      (.ok authority, s)) (hagain : Cooperative again job.target) :
    ∃ authority' s', Effect.exec (publishGenerationControl format again job.target)
        (beginning (runCall disk (job.call format)).1) = (.ok authority', s') ∧
      SamePublication format job.target s.disk s'.disk := by
  obtain ⟨hready, hpublished, htouches⟩ := published_of_exec hformat hwhole
  obtain ⟨authority', s', hexec⟩ :=
    exec_of_publishable hformat hagain (publishable_run hformat hready)
  obtain ⟨-, hpublishedAgain, htouchesAgain⟩ := published_of_exec hformat hexec
  exact ⟨authority', s', hexec, samePublication_of_touches htouches hpublished
    (touches_run hformat job disk) htouchesAgain hpublishedAgain⟩

/-- A store whose account has no evidence in the way of the target. -/
structure Unobstructed (format : ControlFormat File) (target : GenerationProjectionTarget)
    (disk : ControlDisk File) : Prop where
  intent : disk.refreshIntent target.user = none
  own : OwnCarrier format target disk

/-- No run puts anything in the way of a target, be it of that target or of another. -/
theorem unobstructed_run (hformat : format.Lawful) (job : PublicationJob)
    (h : Unobstructed format target start) :
    Unobstructed format target (runCall start (job.call format)).1 := by
  have htouches := touches_run hformat job start
  by_cases huser : target.user = job.target.user
  · refine ⟨?_, fun raw hraw => ?_⟩
    · rw [huser]
      exact htouches.intent.trans (huser ▸ h.intent)
    · rw [huser] at hraw
      rcases htouches.carrier with hkept | ⟨view, hidentity, hwritten⟩
      · exact h.own raw (huser ▸ hkept ▸ hraw)
      · rw [hwritten] at hraw
        cases hraw
        refine ⟨view, parseAuthorizationView_dump hformat view, ?_⟩
        rw [hidentity]
        exact huser.symm
  · have hsame := htouches.others target.user huser
    refine ⟨?_, fun raw hraw => h.own raw ?_⟩
    · rw [← h.intent, ControlDisk.refreshIntent, hsame]
      rfl
    · rw [← hraw, ControlDisk.carrier, ControlDisk.carrier, hsame]

theorem unobstructed_runJobs (hformat : format.Lawful) (jobs : List PublicationJob)
    (h : Unobstructed format target start) :
    Unobstructed format target (runJobs format start jobs).1 := by
  induction jobs generalizing start with
  | nil => exact h
  | cons job rest ih => exact ih (unobstructed_run hformat job h)

/-- Publication is crash-safe. From a store without a marker, after any runs, each of which may
have been cut off anywhere: a marker stands over an exact pair of its writer's account, audited
after the pair was written; without a marker readers select the flat store; a marker that is
written stays; a publication that was cut off can be run again, to the end it would have
reached; and what runs of any targets have left is in the way of none. -/
theorem publication_crash_safe (hformat : format.Lawful) {start : ControlDisk File}
    (hstart : start.marker = none) {jobs : List PublicationJob} {disk : ControlDisk File}
    {log : List (List PublicationEvent)} (hrun : runJobs format start jobs = (disk, log)) :
    (∀ raw, disk.marker = some raw → ∃ job ∈ jobs, Published format job.target disk ∧
        AuditedFirst job.target log.flatten) ∧
      (disk.marker = none → ∀ binding activeUserId activeProjectionScopeId,
        snapshotAuthority format disk binding activeUserId activeProjectionScopeId =
          .ok (.flat binding)) ∧
      (∀ raw more, disk.marker = some raw → (runJobs format disk more).1 = disk) ∧
      (∀ (job : PublicationJob) (whole again : PublicationWorld) authority s,
        Effect.exec (publishGenerationControl format whole job.target) (beginning disk) =
          (.ok authority, s) → Cooperative again job.target →
        ∃ authority' s', Effect.exec (publishGenerationControl format again job.target)
            (beginning (runCall disk (job.call format)).1) = (.ok authority', s') ∧
          SamePublication format job.target s.disk s'.disk) ∧
      ∀ target world, Unobstructed format target start → disk.marker = none →
        Cooperative world target →
        ∃ authority s, Effect.exec (publishGenerationControl format world target)
            (beginning disk) = (.ok authority, s) ∧ Published format target s.disk := by
  have hsound : Sound format jobs disk log := by
    have hruns : Sound format jobs (runJobs format start jobs).1
        ([] ++ (runJobs format start jobs).2) := by
      refine runCalls_induction (J := Sound format jobs)
        (W := fun x => ∃ job ∈ jobs, x = job.call format) ?_ ?_ (.inl hstart)
      · rintro _ ⟨job, hjob, rfl⟩ disk past h
        exact sound_call hformat hjob h
      · intro x hx
        obtain ⟨job, hjob, rfl⟩ := List.mem_map.mp hx
        exact ⟨job, hjob, rfl⟩
    rwa [hrun] at hruns
  refine ⟨?_, snapshotAuthority_of_unmarked format, ?_, ?_, ?_⟩
  · intro raw hmarker
    refine hsound.resolve_left fun hnone => ?_
    rw [hnone] at hmarker
    cases hmarker
  · exact fun raw more hmarker => runJobs_of_marked hformat more hmarker
  · exact fun job whole again authority s hwhole hagain =>
      publication_resumes hformat hwhole hagain
  · intro target world hfree hmarker hworld
    have hleft := unobstructed_runJobs hformat jobs hfree
    rw [hrun] at hleft
    obtain ⟨authority, s, hexec⟩ :=
      exec_of_publishable hformat hworld ⟨hleft.intent, .inl ⟨hmarker, hleft.own⟩⟩
    exact ⟨authority, s, hexec, (published_of_exec hformat hexec).2.1⟩

/-! ## A publication that is cut off twice -/

inductive SampleFile where
  | marker (record : GenerationAuthorityMarker)
  | view (record : InstalledAuthorizationView)
  | pointer (record : InstalledGenerationPointer)
deriving DecidableEq

def sampleFormat : ControlFormat SampleFile where
  marker := { dump := .marker, load? := fun | .marker record => some record | _ => none }
  view := { dump := .view, load? := fun | .view record => some record | _ => none }
  pointer := { dump := .pointer, load? := fun | .pointer record => some record | _ => none }

theorem sampleFormat_lawful : sampleFormat.Lawful :=
  ⟨⟨fun _ => rfl⟩, ⟨fun _ => rfl⟩, ⟨fun _ => rfl⟩⟩

def sampleUlid : Ulid := ⟨"01K00000000000000000000000".toList, by decide⟩

def sampleDigest256 : Digest := ⟨List.replicate 64 'a', by decide⟩

def sampleTimestamp : Timestamp := ⟨"2026-07-12T10:00:00.000000Z".toList, by decide⟩

def sampleTarget : GenerationProjectionTarget where
  binding :=
    { storePath := "/home/a/.nauro/projects/p".toList
      projectId := sampleUlid
      displayName := "p".toList
      mode := .cloudMode
      serverUrl := some "https://mcp.nauro.ai".toList }
  identity :=
    { projectId := sampleUlid
      storeFormatVersion := hostedStoreFormatVersion
      generationId := sampleUlid
      manifestDigest := sampleDigest256
      committedAt := sampleTimestamp
      installedForUserId := sampleUlid
      projectionClass := .viewer
      projectionScopeId := sampleDigest256 }
  hosted := rfl
  sameProject := rfl
  supported := rfl

/-- Surroundings that help, up to the tick at which the run is killed. -/
def sampleWorld (killed : Option Nat) : PublicationWorld where
  cut tick := killed = some tick
  activeUserId _ := some sampleUlid.text
  session := false
  authorizedTarget _ := some sampleTarget
  manifest _ := some sampleTarget.identity.bound
  write _ := .done
  newUlid _ := sampleUlid
  now _ := sampleTimestamp

def sampleJobs : List PublicationJob :=
  [some 25, some 22, none].map fun killed => ⟨sampleTarget, sampleWorld killed⟩

def emptyStore : ControlDisk SampleFile where
  marker := none
  actors _ := ⟨none, none, none, fun _ => none⟩

theorem publication_crash_safe_applied :
    (runJobs sampleFormat emptyStore (sampleJobs.take 2)).1.marker = none ∧
      ∃ job ∈ sampleJobs,
        Published sampleFormat job.target (runJobs sampleFormat emptyStore sampleJobs).1 ∧
          AuditedFirst job.target (runJobs sampleFormat emptyStore sampleJobs).2.flatten := by
  refine ⟨by decide +kernel, ?_⟩
  have hmarked : (runJobs sampleFormat emptyStore sampleJobs).1.marker.isSome = true := by
    decide +kernel
  obtain ⟨raw, hmarker⟩ := Option.isSome_iff_exists.mp hmarked
  exact (publication_crash_safe sampleFormat_lawful rfl (Prod.eta _).symm).1 raw hmarker

end Client
end Nauro
