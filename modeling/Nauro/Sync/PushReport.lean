import Nauro.Sync.PushLog
import Nauro.Sync.PushPaths

/-!
# The report of a push

A report is truthful when it lists every planned path once, when the sync state changes for the
verified paths alone and records there what was transmitted and what the store answered, and when
no upload is repeated that may have been written. It is, exactly when no two candidates of the
plan have one path.

* `push_truthful_iff` — when a report is truthful.
-/

namespace Nauro
namespace Sync

open Foundation Nauro.Core Session

/-- What a push leaves: the sync state changed for the verified paths alone, and records of them
what the log backs; and no path saw more than it may. -/
structure PushKept (rules : PushRules) (before after : SyncState) (verified : List Text)
    (trace : List PushEvent) : Prop where
  unchanged : ∀ path, path ∉ verified → after.files.get? path = before.files.get? path
  sameSync : after.lastFullSync = before.lastFullSync
  recorded : ∀ path ∈ verified, ∃ payload etag now,
    after.files.get? path = some ⟨rules.sha256Hex payload, etag, now⟩ ∧
      Backed rules path payload etag trace
  pathLogs : ∀ path, PathLog (pathEvents path trace)

/-- A report that is truthful about what a push did. -/
structure PushTruthful (rules : PushRules) (planned : List Text) (before after : SyncState)
    (trace : List PushEvent) (report : PushReport) : Prop where
  samePlan : report.planned = planned
  listed : ∀ path, path ∈ report.listed ↔ path ∈ planned
  listedOnce : report.listed.Nodup
  kept : PushKept rules before after report.verified trace

variable {rules : PushRules} {answers : PushAnswers} {path : Text} {payload : Bytes}
  {state : SyncState}

/-! ## The loop -/

theorem Backed.mono {etag : Text} {log trace : List PushEvent}
    (h : Backed rules path payload etag log) (hsub : ∀ event ∈ log, event ∈ trace) :
    Backed rules path payload etag trace where
  nonempty := h.nonempty
  transmitted := by
    obtain ⟨url, answer, hin⟩ := h.transmitted
    exact ⟨url, answer, hsub _ hin⟩
  answered := by
    rcases h.answered with ⟨url, status, header, hin, hstatus⟩ | ⟨body, hin, hsha⟩
    · exact Or.inl ⟨url, status, header, hsub _ hin, hstatus⟩
    · exact Or.inr ⟨body, hsub _ hin, hsha⟩

theorem pathEvents_append (path : Text) (front back : List PushEvent) :
    pathEvents path (front ++ back) = pathEvents path front ++ pathEvents path back :=
  List.filter_append ..

theorem OneLog.pathEvents_self {log : List PushEvent} (h : OneLog path log) :
    pathEvents path log = log :=
  List.filter_eq_self.mpr fun event hevent => decide_eq_true (h.samePath event hevent)

theorem OneLog.pathEvents_of_ne {log : List PushEvent} (h : OneLog path log) {other : Text}
    (hother : other ≠ path) : pathEvents other log = [] :=
  List.filter_eq_nil_iff.mpr fun event hevent heq =>
    hother (by rw [← h.samePath event hevent, of_decide_eq_true heq])

/-- A path that saw nothing before sees only its own round. -/
theorem pathLogs_append {front log : List PushEvent} (hone : OneLog path log)
    (hfresh : pathEvents path front = []) (hlogs : ∀ other, PathLog (pathEvents other front)) :
    ∀ other, PathLog (pathEvents other (front ++ log)) := by
  intro other
  rw [pathEvents_append]
  by_cases hother : other = path
  · rw [hother, hfresh, hone.pathEvents_self]
    exact hone.pathLog
  · rw [hone.pathEvents_of_ne hother, List.append_nil]
    exact hlogs other

theorem PushKept.unchangedState {trace : List PushEvent}
    (hlogs : ∀ path, PathLog (pathEvents path trace)) : PushKept rules state state [] trace where
  unchanged _ _ := rfl
  sameSync := rfl
  recorded _ h := absurd h List.not_mem_nil
  pathLogs := hlogs

/-- A verified path, and what is kept after it. -/
theorem PushKept.cons {before after : SyncState} {etag now : Text} {verified : List Text}
    {log trace : List PushEvent}
    (h : PushKept rules (before.updateFile path (rules.sha256Hex payload) etag now) after verified
      trace)
    (hnew : path ∉ verified) (hbacked : Backed rules path payload etag log)
    (hsub : ∀ event ∈ log, event ∈ trace) :
    PushKept rules before after (path :: verified) trace where
  unchanged other hother := by
    have hne : other ≠ path := fun heq => hother (heq ▸ List.mem_cons_self ..)
    have hnot : other ∉ verified := fun hin => hother (List.mem_cons_of_mem path hin)
    rw [h.unchanged other hnot, SyncState.get?_updateFile_of_ne hne]
  sameSync := h.sameSync
  recorded other hother := by
    rcases List.mem_cons.mp hother with rfl | hin
    · refine ⟨payload, etag, now, ?_, hbacked.mono hsub⟩
      rw [h.unchanged other hnew, SyncState.get?_updateFile_self]
    · exact h.recorded other hin
  pathLogs := h.pathLogs

/-- What the loop over candidates leaves, of which some are verified. -/
structure LoopKept (rules : PushRules) (state : SyncState) (candidates : List PushCandidate)
    (front : List PushEvent) (verified : List Text) (after : SyncState)
    (trace : List PushEvent) : Prop where
  grows : ∃ log, trace = front ++ log
  planned : ∀ path ∈ verified, path ∈ candidates.map PushCandidate.relativePath
  kept : PushKept rules state after verified trace

theorem LoopKept.later {candidate : PushCandidate} {rest : List PushCandidate}
    {front log trace : List PushEvent} {verified : List Text} {after : SyncState}
    (h : LoopKept rules state rest (front ++ log) verified after trace) :
    LoopKept rules state (candidate :: rest) front verified after trace where
  grows := by
    obtain ⟨more, hmore⟩ := h.grows
    exact ⟨log ++ more, by rw [hmore, List.append_assoc]⟩
  planned path hpath := List.mem_cons_of_mem _ (h.planned path hpath)
  kept := h.kept

theorem LoopKept.verified {candidate : PushCandidate} {rest : List PushCandidate}
    {front log trace : List PushEvent} {verified : List Text} {after next : SyncState}
    {payload : Bytes} {etag now : Text}
    (h : LoopKept rules next rest (front ++ log) verified after trace)
    (hnext : next = state.updateFile candidate.relativePath (rules.sha256Hex payload) etag now)
    (hbacked : Backed rules candidate.relativePath payload etag log)
    (hnew : candidate.relativePath ∉ rest.map PushCandidate.relativePath) :
    LoopKept rules state (candidate :: rest) front (candidate.relativePath :: verified) after
      trace where
  grows := by
    obtain ⟨more, hmore⟩ := h.grows
    exact ⟨log ++ more, by rw [hmore, List.append_assoc]⟩
  planned path hpath := by
    rcases List.mem_cons.mp hpath with rfl | hin
    · exact List.mem_cons_self ..
    · exact List.mem_cons_of_mem _ (h.planned path hin)
  kept := by
    have hkept := h.kept
    rw [hnext] at hkept
    refine hkept.cons (fun hin => hnew (h.planned _ hin)) hbacked fun event hevent => ?_
    obtain ⟨more, hmore⟩ := h.grows
    rw [hmore]
    exact List.mem_append_left _ (List.mem_append_right _ hevent)

/-- The loop, by induction on the candidates: each round starts where the one before left the sync
state, and finds nothing in the log about its path. -/
theorem holds_pushEach (urls : Table Text Text) {candidates : List PushCandidate}
    (hdistinct : (candidates.map PushCandidate.relativePath).Nodup) (state : SyncState)
    (front : List PushEvent)
    (hfresh : ∀ candidate ∈ candidates, pathEvents candidate.relativePath front = [])
    (hlogs : ∀ path, PathLog (pathEvents path front)) :
    Holds (fun disk trace => disk.persisted = state ∧ trace = front)
      (pushEach rules answers urls state candidates)
      (fun report disk trace =>
        LoopKept rules state candidates front report.verified disk.persisted trace)
      (fun disk trace => ∃ verified,
        LoopKept rules state candidates front verified disk.persisted trace) := by
  induction candidates generalizing state front with
  | nil =>
      refine Holds.pure ?_
      rintro disk trace ⟨rfl, rfl⟩
      exact ⟨⟨[], (List.append_nil _).symm⟩, fun _ h => absurd h List.not_mem_nil,
        PushKept.unchangedState hlogs⟩
  | cons candidate rest ih =>
      rw [List.map_cons, List.nodup_cons] at hdistinct
      obtain ⟨hnew, hdistinct⟩ := hdistinct
      have hround (log : List PushEvent) (hone : OneLog candidate.relativePath log) :
          (∀ later ∈ rest, pathEvents later.relativePath (front ++ log) = []) ∧
            ∀ path, PathLog (pathEvents path (front ++ log)) := by
        refine ⟨fun later hlater => ?_,
          pathLogs_append hone (hfresh candidate (List.mem_cons_self ..)) hlogs⟩
        have hne : later.relativePath ≠ candidate.relativePath := by
          intro heq
          exact hnew (heq ▸ List.mem_map_of_mem hlater)
        rw [pathEvents_append, hone.pathEvents_of_ne hne,
          hfresh later (List.mem_cons_of_mem _ hlater)]
        rfl
      have hunchanged (log : List PushEvent) (hone : OneLog candidate.relativePath log) :
          LoopKept rules state (candidate :: rest) front [] state (front ++ log) :=
        ⟨⟨log, rfl⟩, fun _ h => absurd h List.not_mem_nil,
          PushKept.unchangedState (hround log hone).2⟩
      refine Holds.bind (Holds.weaken_stop (holds_pushOne urls candidate front) ?_)
        fun outcome => ?_
      · rintro disk trace ⟨rfl, log, rfl, hone⟩
        exact ⟨[], hunchanged log hone⟩
      refine Holds.of_state fun disk trace hstate => ?_
      obtain ⟨log, rfl, hone, hsettled⟩ := hstate
      obtain ⟨hlater, hlogs'⟩ := hround log hone
      have hothers (add : PushReport → PushReport)
          (hadd : ∀ report, (add report).verified = report.verified)
          (hsame : disk.persisted = state) :
          Holds (fun d t => d = disk ∧ t = front ++ log)
            (pushEach rules answers urls state rest >>= fun report => Pure.pure (add report))
            (fun report d t =>
              LoopKept rules state (candidate :: rest) front report.verified d.persisted t)
            (fun d t => ∃ verified,
              LoopKept rules state (candidate :: rest) front verified d.persisted t) := by
        refine Holds.bind (Holds.weaken_stop (Holds.weaken
          (ih hdistinct state (front ++ log) hlater hlogs') ?_ fun _ _ _ h => h) ?_)
          fun report => ?_
        · rintro d t ⟨rfl, rfl⟩
          exact ⟨hsame, rfl⟩
        · rintro d t ⟨verified, h⟩
          exact ⟨verified, h.later⟩
        · refine Holds.pure fun d t h => ?_
          rw [hadd report]
          exact h.later
      cases outcome with
      | checkpointFailed =>
          have hsame : disk.persisted = state := hsettled
          refine Holds.pure ?_
          rintro d t ⟨rfl, rfl⟩
          rw [hsame]
          exact hunchanged log hone
      | missingUrl => exact hothers _ (fun _ => rfl) hsettled
      | failed => exact hothers _ (fun _ => rfl) hsettled
      | ambiguous => exact hothers _ (fun _ => rfl) hsettled
      | originAborted => exact hothers _ (fun _ => rfl) hsettled
      | verified next =>
          obtain ⟨hpersisted, payload, etag, now, hnext, hbacked⟩ := hsettled
          refine Holds.bind (Holds.weaken_stop (Holds.weaken
            (ih hdistinct next (front ++ log) hlater hlogs') ?_ fun _ _ _ h => h) ?_)
            fun report => ?_
          · rintro d t ⟨rfl, rfl⟩
            exact ⟨hpersisted, rfl⟩
          · rintro d t ⟨verified, h⟩
            exact ⟨_, h.verified hnext hbacked hnew⟩
          · exact Holds.pure fun d t h => h.verified hnext hbacked hnew

theorem perm_report_cons (report : PushReport) (path : Text) :
    ({ report with missingUrls := path :: report.missingUrls }.listed.Perm (path :: report.listed)) ∧
    ({ report with failed := path :: report.failed }.listed.Perm (path :: report.listed)) ∧
    ({ report with ambiguous := path :: report.ambiguous }.listed.Perm (path :: report.listed)) ∧
    { report with originAborted := path :: report.originAborted }.listed.Perm
      (path :: report.listed) := by
  refine ⟨?_, ?_, ?_, ?_⟩ <;>
  · rw [List.perm_iff_count]
    intro other
    simp only [PushReport.listed, List.count_append, List.count_cons]
    omega

/-- Every candidate is listed as often as it is one, whatever happens. -/
theorem holds_pushEach_listed (urls : Table Text Text) (candidates : List PushCandidate)
    (state : SyncState) :
    Holds (fun _ _ => True) (pushEach rules answers urls state candidates)
      (fun report _ _ => report.listed.Perm (candidates.map PushCandidate.relativePath))
      (fun _ _ => True) := by
  induction candidates generalizing state with
  | nil => exact Holds.pure fun _ _ _ => List.Perm.refl _
  | cons candidate rest ih =>
      refine Holds.bind (Holds.any _) fun outcome => ?_
      cases outcome with
      | checkpointFailed =>
          refine Holds.pure fun _ _ _ => ?_
          show ([] ++ [] ++ (candidate :: rest).map PushCandidate.relativePath ++ [] ++ []).Perm _
          rw [List.append_nil, List.append_nil]
          exact List.Perm.refl _
      | verified next =>
          exact Holds.bind (ih next) fun report =>
            Holds.pure fun _ _ hperm => hperm.cons candidate.relativePath
      | missingUrl =>
          refine Holds.bind (ih state) fun report => Holds.pure fun _ _ hperm => ?_
          exact (perm_report_cons report _).1.trans (hperm.cons _)
      | failed =>
          refine Holds.bind (ih state) fun report => Holds.pure fun _ _ hperm => ?_
          exact (perm_report_cons report _).2.1.trans (hperm.cons _)
      | ambiguous =>
          refine Holds.bind (ih state) fun report => Holds.pure fun _ _ hperm => ?_
          exact (perm_report_cons report _).2.2.1.trans (hperm.cons _)
      | originAborted =>
          refine Holds.bind (ih state) fun report => Holds.pure fun _ _ hperm => ?_
          exact (perm_report_cons report _).2.2.2.trans (hperm.cons _)

/-! ## A push of a plan -/

theorem pathLogs_nil : ∀ path, PathLog (pathEvents path []) :=
  fun path => (oneLog_nil path).pathLog

theorem holds_runPlan_listed (state : SyncState) (plan : PushPlan) :
    Holds (fun _ _ => True) (runPlan rules answers state plan)
      (fun report _ _ => report.planned = plan.candidates.map PushCandidate.relativePath ∧
        report.listed.Perm (plan.candidates.map PushCandidate.relativePath))
      (fun _ _ => True) := by
  unfold runPlan
  dsimp only
  split
  · rename_i hnone
    rw [hnone]
    refine Holds.bind (Holds.any _) fun saved => ?_
    split
    · exact Holds.bind (Holds.any _) fun disk => Holds.bind (Holds.any _) fun _ =>
        Holds.pure fun _ _ _ => ⟨rfl, List.Perm.refl _⟩
    · exact Holds.throw fun _ _ _ => trivial
  · refine Holds.bind (Holds.any _) fun minted => ?_
    split
    · rename_i fault
      unfold unmintedReport
      split
      · exact Holds.throw fun _ _ _ => trivial
      · split
        · exact Holds.pure fun _ _ _ => ⟨rfl, List.Perm.refl _⟩
        · refine Holds.pure fun _ _ _ => ⟨rfl, ?_⟩
          show ([] ++ [] ++ plan.candidates.map PushCandidate.relativePath ++ [] ++ []).Perm _
          rw [List.append_nil, List.append_nil]
          exact List.Perm.refl _
      · refine Holds.pure fun _ _ _ => ⟨rfl, ?_⟩
        show ([] ++ [] ++ plan.candidates.map PushCandidate.relativePath ++ [] ++ []).Perm _
        rw [List.append_nil, List.append_nil]
        exact List.Perm.refl _
    · refine Holds.bind (Holds.weaken (holds_pushEach_listed _ _ _) (fun _ _ _ => trivial)
        fun _ _ _ h => h) fun report => ?_
      exact Holds.pure fun _ _ hperm => ⟨rfl, hperm⟩

/-- A push of distinct paths, returned or stopped. -/
theorem holds_runPlan_kept {plan : PushPlan}
    (hdistinct : (plan.candidates.map PushCandidate.relativePath).Nodup) (state : SyncState) :
    Holds (fun disk trace => disk.persisted = state ∧ trace = [])
      (runPlan rules answers state plan)
      (fun report disk trace => PushKept rules state disk.persisted report.verified trace)
      (fun disk trace => ∃ verified, PushKept rules state disk.persisted verified trace) := by
  have hkept (disk : PushDisk) (trace : List PushEvent) :
      disk.persisted = state ∧ trace = [] → PushKept rules state disk.persisted [] trace := by
    rintro ⟨rfl, rfl⟩
    exact PushKept.unchangedState pathLogs_nil
  unfold runPlan
  dsimp only
  split
  · refine Holds.bind (Holds.ask answers.saved) fun saved => ?_
    split
    · refine Holds.bind Holds.readDisk fun disk => Holds.bind (Holds.replaceDisk
        (S := fun after trace => after.persisted = state ∧ trace = []) ?_) fun _ => ?_
      · rintro current trace ⟨⟨⟨-, htrace⟩, -⟩, -⟩
        exact ⟨rfl, htrace⟩
      · exact Holds.pure hkept
    · exact Holds.throw fun disk trace h => ⟨[], hkept disk trace h.1⟩
  · refine Holds.bind (silent_requestPresignedUrls putVerb _ state [] _) fun minted => ?_
    have hminted (disk : PushDisk) (trace : List PushEvent) :
        (disk.persisted = state ∧ ∃ log, trace = [] ++ log ∧ log = []) →
          disk.persisted = state ∧ trace = [] := by
      rintro ⟨hpersisted, log, htrace, rfl⟩
      exact ⟨hpersisted, htrace⟩
    split
    · rename_i fault
      unfold unmintedReport
      split
      · exact Holds.throw fun disk trace h => ⟨[], hkept disk trace (hminted disk trace h)⟩
      · split
        · exact Holds.pure fun disk trace h => hkept disk trace (hminted disk trace h)
        · exact Holds.pure fun disk trace h => hkept disk trace (hminted disk trace h)
      · exact Holds.pure fun disk trace h => hkept disk trace (hminted disk trace h)
    · rename_i rows
      refine Holds.bind (Holds.weaken_stop (Holds.weaken (holds_pushEach (urlsByPath rows putVerb)
        hdistinct state [] (fun _ _ => rfl) pathLogs_nil) hminted fun _ _ _ h => h) ?_)
        fun report => Holds.pure fun disk trace h => h.kept
      rintro disk trace ⟨verified, h⟩
      exact ⟨verified, h.kept⟩

/-- A push that returns a report is truthful when no two candidates have one path, and only
then. -/
theorem push_truthful_iff {plan : PushPlan} {disk : PushDisk} {report : PushReport}
    {s : Session PushDisk PushEvent}
    (hrun : Effect.exec (runPlan rules answers disk.persisted plan) ⟨disk, [], 0⟩ =
      (.ok report, s)) :
    PushTruthful rules (plan.candidates.map PushCandidate.relativePath) disk.persisted
        s.disk.persisted s.trace report ↔
      (plan.candidates.map PushCandidate.relativePath).Nodup := by
  obtain ⟨hplanned, hperm⟩ := (holds_runPlan_listed disk.persisted plan).of_exec trivial hrun
  constructor
  · intro htruthful
    exact hperm.nodup_iff.mp htruthful.listedOnce
  · intro hdistinct
    exact ⟨hplanned, fun path => hperm.mem_iff, hperm.nodup_iff.mpr hdistinct,
      (holds_runPlan_kept hdistinct disk.persisted).of_exec ⟨rfl, rfl⟩ hrun⟩

/-! ## Two runs -/

def plainRules : PushRules := ⟨"https://api".toList, fun _ => "https://api:443".toList, spelledOut⟩

/-- A service and a store in which everything succeeds. -/
def plainAnswers (paths : List Text) : PushAnswers where
  hasToken _ := true
  refreshed _ := true
  writerReady _ := true
  presign _ := .response 200 (some (paths.map fun path => some ⟨putVerb, path, "https://store".toList⟩))
  manifestPages _ := 0
  manifest _ := .response 200 (some (paths.map some))
  download _ := .response 200 none
  upload _ := .response 200 "etag".toList
  readFile _ := some [1]
  saved _ := true
  now _ := "now".toList

def freshDisk : PushDisk := ⟨neverSynced, []⟩
def notePlan : PushPlan := planPush .ascii spelledOut neverSynced noteTree

/-- The push of one file that was never pushed. -/
def noteRun : Except PushStop PushReport × Session PushDisk PushEvent :=
  Effect.exec (runPlan plainRules (plainAnswers ["notes/a.md".toList]) freshDisk.persisted notePlan)
    ⟨freshDisk, [], 0⟩

theorem note_push_truthful : ∃ report, noteRun.1 = .ok report ∧
    report.verified = ["notes/a.md".toList] ∧
    PushTruthful plainRules ["notes/a.md".toList] neverSynced noteRun.2.disk.persisted
      noteRun.2.trace report := by
  have hplan : notePlan.candidates.map PushCandidate.relativePath = ["notes/a.md".toList] := by
    decide +kernel
  have hreport : noteRun.1 =
      .ok ⟨["notes/a.md".toList], ["notes/a.md".toList], [], [], [], []⟩ := by
    decide +kernel
  have htruthful := (push_truthful_iff (Prod.ext hreport rfl)).mpr (by rw [hplan]; decide)
  rw [hplan] at htruthful
  exact ⟨_, hreport, rfl, htruthful⟩

/-- The push of two files whose names differ in a slash. -/
def slashesRun : Except PushStop PushReport × Session PushDisk PushEvent :=
  Effect.exec (pushChangedFilesLocked plainRules (plainAnswers ["a/b".toList]) .ascii slashesTree)
    ⟨freshDisk, [], 0⟩

/-- One path is listed twice, and the second upload follows one that was written. -/
theorem slashes_push_untruthful : ∃ report, slashesRun.1 = .ok report ∧
    ¬ report.listed.Nodup ∧ ¬ PathLog (pathEvents "a/b".toList slashesRun.2.trace) := by
  have hreport : slashesRun.1 =
      .ok ⟨["a/b".toList, "a/b".toList, "c:x".toList], ["a/b".toList, "a/b".toList],
        ["c:x".toList], [], [], []⟩ := by
    decide +kernel
  have hanswers : (uploadAnswers (pathEvents "a/b".toList slashesRun.2.trace)).dropLast =
      [.response 200 "etag".toList] := by
    decide +kernel
  refine ⟨_, hreport, by decide, fun hlog => ?_⟩
  have hwritten := hlog.rewrites (.response 200 "etag".toList)
    (by rw [hanswers]; exact List.mem_singleton_self _)
  exact absurd hwritten (by decide)

end Sync
end Nauro
