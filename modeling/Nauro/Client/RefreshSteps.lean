import Nauro.Client.GenerationRefresh
import Nauro.Client.PublicationRuns

/-!
# Leading an intent to its target

A retained intent stands over the controls of one of its stages, and each write of a commit
takes the controls to the next stage. What every step does is said for calls that may be cut off
anywhere and for calls that nothing disturbs at once.

* `resume_holds` — leading an intent to its target.
-/

namespace Nauro
namespace Client
namespace Refresh

open Foundation Foundation.Session Nauro.Core

variable {File : Type} [DecidableEq File] {format : RefreshFormat File} {world : World}
  {actor : Ulid} {disk : ControlDisk File} {raw : File} {intent : RefreshIntent File}
  {stage : RefreshStage}

/-! ## Retained intents -/

/-- The intent is the account's, its predecessor is archived, and the controls are those of one
of its stages. -/
structure Retained (format : RefreshFormat File) (actor : Ulid) (raw : File)
    (intent : RefreshIntent File) (stage : RefreshStage) (disk : ControlDisk File) : Prop where
  intentFile : disk.refreshIntent actor = some raw
  decoded : decodeIntent format raw = .ok intent
  archived : requireArchived format disk actor intent = .ok ()
  markerFile : disk.marker = some intent.markerJson
  pointerFile : disk.pointer actor = some (intent.pointerAt stage)
  carrierFile : disk.carrier actor = some (intent.carrierAt stage)

theorem Retained.transition (h : Retained format actor raw intent stage disk) :
    ∃ marker before priorView after, Transition format intent marker before priorView after :=
  validate_eq_ok_iff.mp (validate_of_encodeIntent (encodeIntent_of_decodeIntent h.decoded))

theorem Retained.controlsOf (h : Retained format actor raw intent stage disk) :
    controlsOf disk actor =
      .ok (intent.markerJson, intent.pointerAt stage, intent.carrierAt stage) := by
  unfold Client.controlsOf
  rw [h.markerFile, h.pointerFile, h.carrierFile]

theorem Retained.classify (h : Retained format actor raw intent stage disk) :
    intent.classify format intent.markerJson (intent.pointerAt stage) (intent.carrierAt stage) =
      .ok stage.state := by
  obtain ⟨marker, before, priorView, after, htransition⟩ := h.transition
  exact htransition.classify_at stage

theorem state_ne_conflict (stage : RefreshStage) : stage.state ≠ .conflict := by
  cases stage <;> nofun

theorem Retained.retainedIntent (h : Retained format actor raw intent stage disk) :
    retainedIntent format disk actor = .ok (raw, intent) := by
  unfold Client.retainedIntent
  rw [h.intentFile]
  refine bind_eq_ok_iff.mpr ⟨intent, h.decoded, ?_⟩
  refine bind_eq_ok_iff.mpr ⟨⟨⟩, h.archived, ?_⟩
  refine bind_eq_ok_iff.mpr ⟨_, h.controlsOf, ?_⟩
  refine bind_eq_ok_iff.mpr ⟨_, h.classify, ?_⟩
  exact bind_eq_ok_iff.mpr
    ⟨⟨⟩, refuseUnless_eq_ok_iff.mpr (state_ne_conflict stage), rfl⟩

omit [DecidableEq File] in
theorem controlsOf_eq_ok_iff {controls : File × File × File} :
    controlsOf disk actor = .ok controls ↔ disk.marker = some controls.1 ∧
      disk.pointer actor = some controls.2.1 ∧ disk.carrier actor = some controls.2.2 := by
  unfold controlsOf
  constructor
  · intro h
    split at h
    · rename_i marker pointer carrier hmarker hpointer hcarrier
      cases h
      exact ⟨hmarker, hpointer, hcarrier⟩
    · cases h
  · rintro ⟨hmarker, hpointer, hcarrier⟩
    rw [hmarker, hpointer, hcarrier]

/-- An intent that is read stands over the controls of one of its stages. -/
theorem retained_of_retainedIntent
    (h : Client.retainedIntent format disk actor = .ok (raw, intent)) :
    ∃ stage, Retained format actor raw intent stage disk := by
  unfold Client.retainedIntent at h
  split at h
  · cases h
  · rename_i found hfound
    obtain ⟨read, hdecoded, h⟩ := bind_eq_ok_iff.mp h
    obtain ⟨_, harchived, h⟩ := bind_eq_ok_iff.mp h
    obtain ⟨controls, hcontrols, h⟩ := bind_eq_ok_iff.mp h
    obtain ⟨state, hstate, h⟩ := bind_eq_ok_iff.mp h
    obtain ⟨_, hconflict, h⟩ := bind_eq_ok_iff.mp h
    cases h
    obtain ⟨hmarker, hpointer, hcarrier⟩ := controlsOf_eq_ok_iff.mp hcontrols
    obtain ⟨hsame, stage, -, hpointerAt, hcarrierAt⟩ :=
      stage_of_classify hstate (refuseUnless_eq_ok_iff.mp hconflict)
    exact ⟨stage, hfound, hdecoded, harchived, hsame ▸ hmarker, hpointerAt ▸ hpointer,
      hcarrierAt ▸ hcarrier⟩

/-- Only the archive matters to what is archived. -/
theorem requireArchived_congr {other : ControlDisk File}
    (h : (other.actors actor).refreshHistory = (disk.actors actor).refreshHistory) :
    requireArchived format other actor intent = requireArchived format disk actor intent := by
  unfold requireArchived
  rw [h]

theorem Retained.withCarrier (h : Retained format actor raw intent .base disk) :
    Retained format actor raw intent .carrier
      (disk.withCarrier actor intent.targetAuthorizationJson) where
  intentFile := by simpa [ControlDisk.withCarrier, ControlDisk.refreshIntent] using h.intentFile
  decoded := h.decoded
  archived := (requireArchived_congr (by simp [ControlDisk.withCarrier])).trans h.archived
  markerFile := h.markerFile
  pointerFile := ControlDisk.withCarrier_pointer.trans h.pointerFile
  carrierFile := ControlDisk.withCarrier_carrier

theorem Retained.withPointer (h : Retained format actor raw intent .carrier disk) :
    Retained format actor raw intent .target
      (disk.withPointer actor intent.targetPointerJson) where
  intentFile := by simpa [ControlDisk.withPointer, ControlDisk.refreshIntent] using h.intentFile
  decoded := h.decoded
  archived := (requireArchived_congr (by simp [ControlDisk.withPointer])).trans h.archived
  markerFile := h.markerFile
  pointerFile := ControlDisk.withPointer_pointer
  carrierFile := ControlDisk.withPointer_carrier.trans h.carrierFile

/-- Archiving under a free digest takes nothing from an intent. -/
theorem Retained.withArchived (h : Retained format actor raw intent stage disk)
    {digest : Digest} {file : File} (hfree : (disk.actors actor).refreshHistory digest = none) :
    Retained format actor raw intent stage (disk.withArchived actor digest file) where
  intentFile := by simpa [ControlDisk.withArchived, ControlDisk.refreshIntent] using h.intentFile
  decoded := h.decoded
  archived := by
    have harchived := h.archived
    unfold requireArchived at harchived ⊢
    cases hname : intent.predecessorDigest with
    | none => rfl
    | some named =>
        rw [hname] at harchived
        have hne : named ≠ digest := by
          rintro rfl
          simp [hfree] at harchived
        simpa [ControlDisk.withArchived, Function.update_of_ne hne] using harchived
  markerFile := h.markerFile
  pointerFile := by simpa [ControlDisk.withArchived, ControlDisk.pointer] using h.pointerFile
  carrierFile := by simpa [ControlDisk.withArchived, ControlDisk.carrier] using h.carrierFile

/-! ## Steps -/

/-- Surroundings that stand in no call's way, with the target authorized. -/
structure Cooperative (world : World) (actor : Ulid) (target : GenerationProjectionTarget) :
    Prop where
  uncut : ∀ tick, world.cut tick = false
  active : ∀ tick, world.activeUserId tick = some actor.text
  audited : ∀ tick other, world.audited tick other = true
  observed : ∀ tick, world.observed tick = some target
  acquired : ∀ tick, world.acquired tick = some target

section Steps

variable {calm : Prop} {target : GenerationProjectionTarget}
  (hcalm : calm → Cooperative world actor target) {P L : ControlDisk File → List Empty → Prop}
  (hstop : ∀ disk call, P disk call → L disk call)

include hcalm hstop

omit [DecidableEq File] in
theorem requireActor_holds :
    Holds P (requireActor world actor) (fun _ => P) (Unless calm L) := by
  refine Holds.bind (Holds.point_unless (fun hc => (hcalm hc).uncut) hstop) fun _ =>
    Holds.bind (Holds.ask world.activeUserId) fun active =>
      (Holds.ensure_unless (fun hc disk call hp => ?_)
        fun disk call hp => hstop disk call hp.1).weaken (fun _ _ hp => hp) fun _ _ _ hp => hp.1.1
  obtain ⟨-, tick, rfl⟩ := hp
  exact (hcalm hc).active tick

omit [DecidableEq File] in
theorem enter_holds : Holds P (enter world actor) (fun _ => P) (Unless calm L) :=
  Holds.bind (Holds.point_unless (fun hc => (hcalm hc).uncut) hstop) fun _ =>
    requireActor_holds hcalm hstop

omit [DecidableEq File] in
theorem syncTarget_holds (other : GenerationProjectionTarget) :
    Holds P (syncTarget world other) (fun _ => P) (Unless calm L) := by
  refine Holds.bind (Holds.point_unless (fun hc => (hcalm hc).uncut) hstop) fun _ =>
    Holds.bind (Holds.ask fun tick => world.audited tick other) fun audited =>
      (Holds.ensure_unless (fun hc disk call hp => ?_)
        fun disk call hp => hstop disk call hp.1).weaken (fun _ _ hp => hp) fun _ _ _ hp => hp.1.1
  obtain ⟨-, tick, rfl⟩ := hp
  exact (hcalm hc).audited tick other

omit [DecidableEq File] in
/-- What is read of a disk that is known. -/
theorem inspect_bind {d : ControlDisk File} {α β : Type} {Q : β → ControlDisk File → List Empty → Prop}
    (hd : ∀ disk call, P disk call → disk = d)
    {read : ControlDisk File → Except GenerationError α} {f : α → RefreshCall File β}
    (hreads : calm → ∃ a, read d = .ok a)
    (h : ∀ a, read d = .ok a → Holds P (f a) Q (Unless calm L)) :
    Holds P (inspect world read >>= f) Q (Unless calm L) := by
  have hinspect : Holds P (inspect world read)
      (fun a disk call => P disk call ∧ read d = .ok a) (Unless calm L) := by
    refine Holds.bind (Holds.point_unless (fun hc => (hcalm hc).uncut) hstop) fun _ =>
      Holds.bind Holds.readDisk fun found =>
        Holds.of_fact (fun disk call hp => hp.2.trans (hd disk call hp.1)) fun hfound => ?_
    rw [hfound]
    cases hread : read d with
    | error e =>
        refine Holds.throw fun disk call hp => ⟨fun hc => ?_, hstop disk call hp.1⟩
        obtain ⟨a, ha⟩ := hreads hc
        rw [hread] at ha
        cases ha
    | ok a => exact Holds.pure fun _ _ hp => ⟨hp.1, rfl⟩
  exact Holds.bind hinspect fun a => Holds.of_fact (fun _ _ hp => hp.2) fun ha =>
    (h a ha).weaken (fun _ _ hp => hp.1) fun _ _ _ hq => hq

omit [DecidableEq File] in
theorem inspect_known {d : ControlDisk File} {α β : Type}
    {Q : β → ControlDisk File → List Empty → Prop}
    (hd : ∀ disk call, P disk call → disk = d)
    {read : ControlDisk File → Except GenerationError α} {f : α → RefreshCall File β} {a : α}
    (hread : read d = .ok a) (h : Holds P (f a) Q (Unless calm L)) :
    Holds P (inspect world read >>= f) Q (Unless calm L) := by
  refine inspect_bind hcalm hstop hd (fun _ => ⟨a, hread⟩) fun b hb => ?_
  rw [hread] at hb
  cases hb
  exact h

theorem classifyControls_known {d : ControlDisk File} {β : Type}
    {Q : β → ControlDisk File → List Empty → Prop}
    (hd : ∀ disk call, P disk call → disk = d) {f : RefreshControlState → RefreshCall File β}
    (hretained : Retained format actor raw intent stage d)
    (h : Holds P (f stage.state) Q (Unless calm L)) :
    Holds P (classifyControls format world actor intent >>= f) Q (Unless calm L) := by
  have hclassify : Holds P (classifyControls format world actor intent)
      (fun state disk call => P disk call ∧ state = stage.state) (Unless calm L) := by
    refine inspect_known hcalm hstop hd hretained.controlsOf ?_
    rw [hretained.classify]
    exact Holds.pure fun _ _ hp => ⟨hp, rfl⟩
  refine Holds.bind hclassify fun state => Holds.of_fact (fun _ _ hp => hp.2) fun hstate => ?_
  rw [hstate]
  exact h.weaken (fun _ _ hp => hp.1) fun _ _ _ hq => hq

end Steps

section Replace

variable {calm : Prop} {target : GenerationProjectionTarget}
  (hcalm : calm → Cooperative world actor target) {L : ControlDisk File → List Empty → Prop}

include hcalm

/-- A replacement is done, or stopped before it or after it. -/
theorem durableReplace_holds {d : ControlDisk File} {update : ControlDisk File → ControlDisk File}
    {file : ControlDisk File → Option File} {written : File} (hbefore : ∀ call, L d call)
    (hafter : ∀ call, L (update d) call) (hread : file (update d) = some written) :
    Holds (fun disk _ => disk = d) (durableReplace world update file written)
      (fun _ disk _ => disk = update d) (Unless calm L) := by
  have hstop : ∀ disk call, disk = d → L disk call := fun _ call h => h ▸ hbefore call
  have hwritten : ∀ disk call, disk = update d → L disk call := fun _ call h => h ▸ hafter call
  refine Holds.bind (Holds.point_unless (fun hc => (hcalm hc).uncut) hstop) fun _ =>
    Holds.bind Holds.readDisk fun found =>
      Holds.bind (Q := fun _ disk _ => disk = update d) (Holds.replaceDisk fun disk call hp => ?_)
        fun _ => inspect_known hcalm hwritten (fun _ _ h => h) rfl ?_
  · rw [hp.2, hp.1]
  · exact (Holds.ensure_unless (fun _ _ _ _ => hread) hwritten).weaken (fun _ _ hp => hp)
      fun _ _ _ hp => hp.1

end Replace

/-! ## Completing and resuming -/

omit [DecidableEq File] in
theorem state_eq_targetPresent_iff : stage.state = .targetPresent ↔ stage = .target := by
  cases stage <;> simp [RefreshStage.state]

/-- The intent leads to the target. -/
abbrev LeadsTo (format : RefreshFormat File) (target : GenerationProjectionTarget)
    (intent : RefreshIntent File) : Prop :=
  targetOf format target.binding intent = .ok target

section Completion

variable {calm : Prop} {target : GenerationProjectionTarget} {d : ControlDisk File}
  {L : ControlDisk File → List Empty → Prop}

theorem requirePresent_holds
    (hcalm : calm → Cooperative world actor target ∧ stage = .target)
    (hretained : Retained format actor raw intent stage d) (hL : ∀ call, L d call)
    (error : GenerationError) :
    Holds (fun disk _ => disk = d) (requirePresent format world actor intent raw error)
      (fun _ disk _ => disk = d ∧ stage = .target) (Unless calm L) := by
  have hcooperative := fun hc => (hcalm hc).1
  have hstop : ∀ disk call, disk = d → L disk call := fun _ call h => h ▸ hL call
  refine inspect_known hcooperative hstop (fun _ _ h => h) hretained.retainedIntent ?_
  refine classifyControls_known hcooperative hstop (fun _ _ h => h) hretained ?_
  refine (Holds.ensure_unless (fun hc _ _ _ => ⟨rfl, ?_⟩) hstop).weaken (fun _ _ hp => hp)
    fun _ _ _ hp => ⟨hp.1, state_eq_targetPresent_iff.mp hp.2.2⟩
  exact state_eq_targetPresent_iff.mpr (hcalm hc).2

/-- A generation is served only when the controls are those of its intent's target. -/
theorem complete_holds
    (hcalm : calm → Cooperative world actor target ∧ stage = .target ∧
      LeadsTo format target intent)
    (hretained : Retained format actor raw intent stage d) (hL : ∀ call, L d call) :
    Holds (fun disk _ => disk = d) (complete format world actor intent target)
      (fun served disk _ => disk = d ∧ served = target ∧ stage = .target ∧
        LeadsTo format target intent) (Unless calm L) := by
  have hcooperative := fun hc => (hcalm hc).1
  have hpresent := fun hc => (⟨(hcalm hc).1, (hcalm hc).2.1⟩ :
    Cooperative world actor target ∧ stage = .target)
  have hstop : ∀ disk call, disk = d → L disk call := fun _ call h => h ▸ hL call
  unfold complete
  refine Holds.ofExcept_bind_unless (fun hc => ⟨target, (hcalm hc).2.2⟩) hstop
    fun found hfound => ?_
  refine Holds.ensure_bind_unless (fun hc => ?_) hstop fun hsame => ?_
  · rw [(hcalm hc).2.2] at hfound
    exact Except.ok.inj hfound
  refine Holds.ofExcept_bind (encodeIntent_of_decodeIntent hretained.decoded) ?_
  refine Holds.bind (requirePresent_holds hpresent hretained hL _) fun _ => ?_
  refine Holds.of_fact (fun _ _ hp => hp.2) fun hstage => ?_
  refine Holds.weaken (P := fun disk _ => disk = d) ?_ (fun _ _ hp => hp.1) fun _ _ _ hq => hq
  refine Holds.bind (syncTarget_holds hcooperative hstop target) fun _ => ?_
  refine Holds.bind (requirePresent_holds hpresent hretained hL _) fun _ => ?_
  refine Holds.weaken (P := fun disk _ => disk = d) ?_ (fun _ _ hp => hp.1) fun _ _ _ hq => hq
  refine Holds.bind (syncTarget_holds hcooperative hstop target) fun _ => ?_
  refine Holds.bind (requirePresent_holds hpresent hretained hL _) fun _ => Holds.pure ?_
  rintro disk call ⟨rfl, -⟩
  exact ⟨rfl, rfl, hstage, hsame ▸ hfound⟩

/-- From any of its stages on, an intent is led to its target. -/
theorem resume_holds
    (hcalm : calm → Cooperative world actor target ∧ LeadsTo format target intent)
    (hretained : Retained format actor raw intent stage d)
    (hL : ∀ stage disk call, Retained format actor raw intent stage disk → L disk call) :
    Holds (fun disk _ => disk = d) (resume format world actor intent target)
      (fun served disk _ => Retained format actor raw intent .target disk ∧ served = target ∧
        LeadsTo format target intent) (Unless calm L) := by
  have hcooperative := fun hc => (hcalm hc).1
  have hpinned : ∀ {stage d}, Retained format actor raw intent stage d →
      ∀ (disk : ControlDisk File) call, disk = d → L disk call := by
    rintro stage d h disk call rfl
    exact hL stage disk call h
  have hstop := hpinned hretained
  unfold resume
  refine Holds.bind (syncTarget_holds hcooperative hstop target) fun _ => ?_
  refine inspect_known hcooperative hstop (fun _ _ h => h) hretained.retainedIntent ?_
  refine Holds.ofExcept_bind (encodeIntent_of_decodeIntent hretained.decoded) ?_
  refine Holds.ensure_bind rfl ?_
  refine classifyControls_known hcooperative hstop (fun _ _ h => h) hretained ?_
  -- The carrier is written at the first stage only.
  have hcarrier : Holds (fun disk _ => disk = d)
      (publishCarrier format world actor intent stage.state)
      (fun state disk _ => ∃ next, next ≠ .base ∧ state = next.state ∧
        Retained format actor raw intent next disk) (Unless calm L) := by
    cases stage with
    | base =>
        refine Holds.bind (requireActor_holds hcooperative hstop) fun _ =>
          Holds.bind (durableReplace_holds hcooperative (fun call => hL _ _ call hretained)
            (fun call => hL _ _ call hretained.withCarrier) hretained.withCarrier.carrierFile)
              fun _ => ?_
        have hclassify := classifyControls_known hcooperative
          (hpinned hretained.withCarrier) (fun _ _ h => h) hretained.withCarrier
          (f := fun state => pure state) (Q := fun state disk _ =>
            ∃ next, next ≠ .base ∧ state = next.state ∧
              Retained format actor raw intent next disk)
          (Holds.pure fun disk _ h => ⟨.carrier, nofun, rfl, h ▸ hretained.withCarrier⟩)
        rwa [bind_pure] at hclassify
    | carrier =>
        exact Holds.pure fun disk _ h => ⟨.carrier, nofun, rfl, h ▸ hretained⟩
    | target => exact Holds.pure fun disk _ h => ⟨.target, nofun, rfl, h ▸ hretained⟩
  refine Holds.bind hcarrier fun state => Holds.of_state fun d' _ hnext => ?_
  obtain ⟨next, hnext, rfl, hretained'⟩ := hnext
  have hpointer : Holds (fun disk (_ : List Empty) => disk = d')
      (publishPointer world actor intent next.state)
      (fun _ disk _ => Retained format actor raw intent .target disk) (Unless calm L) := by
    cases next with
    | base => exact absurd rfl hnext
    | carrier =>
        refine Holds.bind (requireActor_holds hcooperative (hpinned hretained')) fun _ =>
          (durableReplace_holds hcooperative (fun call => hL _ _ call hretained')
            (fun call => hL _ _ call hretained'.withPointer)
              hretained'.withPointer.pointerFile).weaken (fun _ _ hp => hp) ?_
        rintro _ disk call rfl
        exact hretained'.withPointer
    | target => exact Holds.pure fun disk _ h => h ▸ hretained'
  refine Holds.bind (hpointer.weaken (fun _ _ hp => hp.1) fun _ _ _ hq => hq) fun _ =>
    Holds.of_state fun d'' _ hretained'' => ?_
  refine (complete_holds (fun hc => ⟨(hcalm hc).1, rfl, (hcalm hc).2⟩) hretained''
    fun call => hL _ _ call hretained'').weaken (fun _ _ hp => hp.1) ?_
  rintro _ disk call ⟨rfl, hserved, -, hleads⟩
  exact ⟨hretained'', hserved, hleads⟩

end Completion

end Refresh
end Client
end Nauro
