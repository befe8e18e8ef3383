import Nauro.Client.SnapshotVersions

/-!
# What prunes keep over a sequence of captures

* `snapshot_retention_iff` — the sequences that keep every month.
-/

namespace Nauro
namespace Client
namespace Snapshots

open Foundation Foundation.Json Nauro.Core

variable {readings : Readings}

/-! ## Snapshots with names of their own -/

/-- Snapshots with ascending versions, each under its own name. -/
structure Proper (metas : List SnapshotMeta) : Prop where
  ascending : Ascending metas
  named : ∀ m ∈ metas, m.path = canonicalName m.version

theorem Ascending.eq_of_version {metas : List SnapshotMeta} (h : Ascending metas) :
    ∀ ⦃m⦄, m ∈ metas → ∀ ⦃m'⦄, m' ∈ metas → m.version = m'.version → m = m' :=
  List.Pairwise.forall_of_forall_of_flip (fun _ _ _ => rfl)
    (h.imp fun hlt heq => absurd heq (ne_of_lt hlt))
    (h.imp fun hlt heq => absurd heq (ne_of_gt hlt))

theorem Proper.eq_of_path {metas : List SnapshotMeta} (h : Proper metas) {m m' : SnapshotMeta}
    (hm : m ∈ metas) (hm' : m' ∈ metas) (heq : m.path = m'.path) : m = m' :=
  h.ascending.eq_of_version hm hm'
    (canonicalName_injective (((h.named m hm).symm.trans heq).trans (h.named m' hm')))

theorem Proper.eq_of_dated {metas : List SnapshotMeta} (h : Proper metas)
    {p p' : Stamp × SnapshotMeta} (hp : p ∈ dated metas) (hp' : p' ∈ dated metas)
    (heq : p.2.path = p'.2.path) : p = p' := by
  obtain ⟨hm, hstamp⟩ := mem_dated.mp hp
  obtain ⟨hm', hstamp'⟩ := mem_dated.mp hp'
  have hsame := h.eq_of_path hm hm' heq
  rw [hsame, hstamp'] at hstamp
  exact Prod.ext (Option.some.inj hstamp).symm hsame

theorem proper_concat (readings : Readings) (directory : Directory) (capture : Capture) :
    Proper (listing readings directory ++
      [newMeta readings capture (latest (listing readings directory) + 1)]) where
  ascending := List.pairwise_append.mpr ⟨ascending_listing directory, List.pairwise_singleton _ _,
    fun _ hold _ hnew => List.mem_singleton.mp hnew ▸ lt_latest_succ _ hold⟩
  named m hin := by
    rcases List.mem_append.mp hin with hold | hnew
    · exact path_of_mem_listing hold
    · rw [List.mem_singleton.mp hnew]
      rfl

/-! ## What one prune keeps -/

/-- The bucket that a snapshot competes in; none for one that is pinned or recent. -/
def competingBucket (metas : List SnapshotMeta) (now : Moment) (p : Stamp × SnapshotMeta) :
    Option Bucket :=
  if p.2.path ∈ pinned metas then none else bucketOf now p.1

theorem competingBucket_eq_some {metas : List SnapshotMeta} {now : Moment}
    {p : Stamp × SnapshotMeta} {b : Bucket} :
    competingBucket metas now p = some b ↔
      p.2.path ∉ pinned metas ∧ bucketOf now p.1 = some b := by
  unfold competingBucket
  by_cases hpinned : p.2.path ∈ pinned metas
  · rw [if_pos hpinned]
    exact ⟨fun h => (by cases h), fun h => absurd hpinned h.1⟩
  · rw [if_neg hpinned]
    exact (and_iff_right hpinned).symm

/-- Of the snapshots that compete in a bucket, the newest one is kept. -/
theorem mem_keptPaths {metas : List SnapshotMeta} (h : Proper metas) {now : Moment}
    {p : Stamp × SnapshotMeta} (hp : p ∈ dated metas) :
    p.2.path ∈ keptPaths metas now ↔
      Retention.Kept (fun p => p.1.utc) (competingBucket metas now) (dated metas) p := by
  have hrest : ∀ q, q ∈ ((dated metas).filter fun p => !(pinned metas).contains p.2.path) ↔
      q ∈ dated metas ∧ q.2.path ∉ pinned metas := by
    intro q
    rw [List.mem_filter, Bool.not_eq_true', ← Bool.not_eq_true, List.contains_iff_mem]
  have hgroup : ∀ b, (((dated metas).filter fun p => !(pinned metas).contains p.2.path).filter
      fun p => bucketOf now p.1 = some b) =
        Retention.group (competingBucket metas now) (dated metas) b := by
    intro b
    rw [List.filter_filter, Retention.group]
    refine List.filter_congr fun q _ => ?_
    rw [Bool.eq_iff_iff, Bool.and_eq_true, decide_eq_true_eq, decide_eq_true_eq,
      competingBucket_eq_some, Bool.not_eq_true', ← Bool.not_eq_true, List.contains_iff_mem,
      and_comm]
  unfold keptPaths
  simp only [hgroup]
  rw [List.mem_append, List.mem_append]
  constructor
  · rintro ((hpinned | hrecent) | hnewest)
    · exact Or.inl (if_pos hpinned)
    · obtain ⟨q, hq, hpath⟩ := List.mem_map.mp hrecent
      obtain ⟨hqrest, hnone⟩ := List.mem_filter.mp hq
      have heq := h.eq_of_dated ((hrest q).mp hqrest).1 hp hpath
      subst heq
      exact Or.inl ((if_neg ((hrest q).mp hqrest).2).trans (of_decide_eq_true hnone))
    · obtain ⟨q, hq, hpath⟩ := List.mem_map.mp hnewest
      obtain ⟨b, -, hbest⟩ := List.mem_filterMap.mp hq
      obtain ⟨hdated, hbucket⟩ := Retention.mem_group.mp (Retention.newest_mem hbest)
      have heq := h.eq_of_dated hdated hp hpath
      subst heq
      exact Or.inr ⟨b, hbucket, hbest⟩
  · rintro (hnone | ⟨b, hbucket, hbest⟩)
    · by_cases hpinned : p.2.path ∈ pinned metas
      · exact Or.inl (Or.inl hpinned)
      · have hrecent : bucketOf now p.1 = none := (if_neg hpinned).symm.trans hnone
        exact Or.inl (Or.inr (List.mem_map.mpr ⟨p, List.mem_filter.mpr
          ⟨(hrest p).mpr ⟨hp, hpinned⟩, decide_eq_true hrecent⟩, rfl⟩))
    · obtain ⟨hpinned, hsome⟩ := competingBucket_eq_some.mp hbucket
      refine Or.inr (List.mem_map.mpr ⟨p, List.mem_filterMap.mpr ⟨b, ?_, hbest⟩, rfl⟩)
      exact List.mem_dedup.mpr (List.mem_filterMap.mpr ⟨p, (hrest p).mpr ⟨hp, hpinned⟩, hsome⟩)

theorem mem_retained {metas : List SnapshotMeta} {now : Moment} {m : SnapshotMeta} :
    m ∈ retained metas now ↔ m ∈ metas ∧ m.path ∉ prunedPaths metas now := by
  rw [retained, List.mem_filter, Bool.not_eq_true', ← Bool.not_eq_true, List.contains_iff_mem]

/-- A snapshot with a time stamp outlives a prune of several when it is kept. -/
theorem mem_retained_of_dated {metas : List SnapshotMeta} (h : Proper metas) {now : Moment}
    {p : Stamp × SnapshotMeta} (hp : p ∈ dated metas) (hlength : 1 < metas.length) :
    p.2 ∈ retained metas now ↔
      Retention.Kept (fun p => p.1.utc) (competingBucket metas now) (dated metas) p := by
  rw [mem_retained, ← mem_keptPaths h hp, mem_prunedPaths]
  constructor
  · rintro ⟨-, hpruned⟩
    by_contra hkept
    exact hpruned ⟨hlength, ⟨p, hp, rfl⟩, hkept⟩
  · intro hkept
    exact ⟨(mem_dated.mp hp).1, fun hpruned => hpruned.2.2 hkept⟩

/-- A snapshot that a prune removes has a time stamp, and it is not the only one. -/
theorem dated_of_notMem_retained {metas : List SnapshotMeta} (h : Proper metas) {now : Moment}
    {m : SnapshotMeta} (hin : m ∈ metas) (hout : m ∉ retained metas now) :
    1 < metas.length ∧ ∃ stamp, (stamp, m) ∈ dated metas := by
  have hpruned : m.path ∈ prunedPaths metas now := by
    by_contra hnot
    exact hout (mem_retained.mpr ⟨hin, hnot⟩)
  obtain ⟨hlength, ⟨⟨stamp, m'⟩, hdated, hpath⟩, -⟩ := mem_prunedPaths.mp hpruned
  have heq := h.eq_of_path (mem_dated.mp hdated).1 hin hpath
  simp only at heq
  subst heq
  exact ⟨hlength, stamp, hdated⟩

/-- A snapshot that a prune removes leaves one in its bucket that is as new. -/
theorem exists_survivor_of_notMem {metas : List SnapshotMeta} (h : Proper metas) {now : Moment}
    {stamp : Stamp} {m : SnapshotMeta} (hp : (stamp, m) ∈ dated metas)
    (hout : m ∉ retained metas now) :
    m.path ∉ pinned metas ∧ ∃ b, bucketOf now stamp = some b ∧
      ∃ survivor ∈ retained metas now, survivor.path ∉ pinned metas ∧
        ∃ stamp', survivor.timestamp = some stamp' ∧ bucketOf now stamp' = some b ∧
          stamp.utc ≤ stamp'.utc := by
  have hlength := (dated_of_notMem_retained h (mem_dated.mp hp).1 hout).1
  have hkept := fun hkept => hout ((mem_retained_of_dated h hp hlength).mpr hkept)
  obtain ⟨⟨stamp', survivor⟩, hdated, hstays, ⟨b, hbucket, hsame⟩, hle⟩ :=
    Retention.exists_survivor hp hkept
  obtain ⟨hpinned, hbucket⟩ := competingBucket_eq_some.mp hbucket
  obtain ⟨hpinned', hsame⟩ := competingBucket_eq_some.mp hsame
  exact ⟨hpinned, b, hbucket, survivor, (mem_retained_of_dated h hdated hlength).mpr hstays,
    hpinned', stamp', (mem_dated.mp hdated).2, hsame, hle⟩

/-! ## Pruning again -/

theorem newest_of_subset {α : Type} {time : α → Nat} {items kept : List α} {item : α}
    (h : Retention.newest time items = some item) (hsub : ∀ other ∈ kept, other ∈ items)
    (hin : item ∈ kept)
    (hinj : ∀ other ∈ items, time other = time item → other = item) :
    Retention.newest time kept = some item := by
  obtain ⟨best, hbest⟩ : ∃ best, Retention.newest time kept = some best :=
    Retention.exists_newest (List.ne_nil_of_mem hin)
  have hmem := hsub best (Retention.newest_mem hbest)
  have heq := le_antisymm (Retention.le_newest h hmem) (Retention.le_newest hbest hin)
  rw [hbest, hinj best hmem heq]

theorem dated_retained {metas : List SnapshotMeta} {now : Moment} {p : Stamp × SnapshotMeta} :
    p ∈ dated (retained metas now) ↔ p ∈ dated metas ∧ p.2 ∈ retained metas now := by
  rw [mem_dated, mem_dated]
  constructor
  · rintro ⟨hin, hstamp⟩
    exact ⟨⟨(mem_retained.mp hin).1, hstamp⟩, hin⟩
  · rintro ⟨⟨-, hstamp⟩, hin⟩
    exact ⟨hin, hstamp⟩

/-- What is pinned is pinned again after a prune. -/
theorem pinned_retained {metas : List SnapshotMeta} (h : Proper metas) (now : Moment) :
    pinned (retained metas now) = pinned metas := by
  have hnewest : Retention.newest SnapshotMeta.version (retained metas now) =
      Retention.newest SnapshotMeta.version metas := by
    rcases hbest : Retention.newest SnapshotMeta.version metas with _ | best
    · rw [Retention.newest_eq_none.mp hbest]
      rfl
    · have hin := Retention.newest_mem hbest
      refine newest_of_subset hbest (fun other hother => (mem_retained.mp hother).1) ?_
        fun other hother => h.ascending.eq_of_version hother hin
      exact mem_retained.mpr ⟨hin, notMem_prunedPaths_of_newest now hbest⟩
  have hdated : Retention.newest (fun p : Stamp × SnapshotMeta => p.2.version)
      (dated (retained metas now)) = Retention.newest (fun p => p.2.version) (dated metas) := by
    rcases hbest : Retention.newest (fun p : Stamp × SnapshotMeta => p.2.version) (dated metas)
      with _ | best
    · refine Retention.newest_eq_none.mpr (List.eq_nil_iff_forall_not_mem.mpr fun p hp => ?_)
      have hin := (dated_retained.mp hp).1
      rw [Retention.newest_eq_none.mp hbest] at hin
      cases hin
    · have hin := Retention.newest_mem hbest
      have hpinned : best.2.path ∈ pinned metas := by
        rw [pinned, hbest]
        exact List.mem_append_right _ List.mem_cons_self
      refine newest_of_subset hbest (fun p hp => (dated_retained.mp hp).1) ?_ ?_
      · refine dated_retained.mpr ⟨hin, mem_retained.mpr ⟨(mem_dated.mp hin).1, fun hpruned => ?_⟩⟩
        refine (mem_prunedPaths.mp hpruned).2.2 ?_
        exact List.mem_append_left _ (List.mem_append_left _ hpinned)
      · intro p hp heq
        have hsame := h.ascending.eq_of_version (mem_dated.mp hp).1 (mem_dated.mp hin).1 heq
        exact h.eq_of_dated hp hin (congrArg SnapshotMeta.path hsame)
  rw [pinned, pinned, hnewest, hdated]

theorem Proper.retained {metas : List SnapshotMeta} (h : Proper metas) (now : Moment) :
    Proper (retained metas now) where
  ascending := h.ascending.sublist List.filter_sublist
  named m hin := h.named m (mem_retained.mp hin).1

/-- Pruning again at the same time removes nothing. -/
theorem prunedPaths_retained {metas : List SnapshotMeta} (h : Proper metas) (now : Moment) :
    prunedPaths (retained metas now) now = [] := by
  refine List.eq_nil_iff_forall_not_mem.mpr fun path hpruned => ?_
  obtain ⟨hlength, ⟨p, hp, rfl⟩, hkept⟩ := mem_prunedPaths.mp hpruned
  have hmany : 1 < metas.length := lt_of_lt_of_le hlength (List.length_filter_le _ _)
  refine hkept ((mem_keptPaths (h.retained now) hp).mpr ?_)
  have hbucket : competingBucket (retained metas now) now = competingBucket metas now := by
    unfold competingBucket
    rw [pinned_retained h now]
  have hstays : ∀ q, q ∈ dated (retained metas now) ↔ q ∈ dated metas ∧
      Retention.Kept (fun p => p.1.utc) (competingBucket metas now) (dated metas) q := by
    intro q
    rw [dated_retained]
    exact and_congr_right fun hq => mem_retained_of_dated h hq hmany
  rw [hbucket]
  exact Retention.kept_of_kept hstays hp

/-! ## Months -/

abbrev Month := Int ×ₗ Nat

/-- A snapshot of the month is there. -/
def Holds (metas : List SnapshotMeta) (month : Month) : Prop :=
  ∃ m ∈ metas, ∃ stamp, m.timestamp = some stamp ∧ stamp.shown.yearMonth = month

/-- A snapshot competes in a week that has another one of a later month. -/
def SharesWeek (metas : List SnapshotMeta) (now : Moment) (m : SnapshotMeta) (stamp : Stamp) :
    Prop :=
  m.path ∉ pinned metas ∧ ∃ year week, bucketOf now stamp = some (.week year week) ∧
    ∃ other ∈ metas, other.path ∉ pinned metas ∧ ∃ stamp', other.timestamp = some stamp' ∧
      bucketOf now stamp' = some (.week year week) ∧
      stamp.shown.yearMonth < stamp'.shown.yearMonth

/-- A month that is there has a snapshot that shares no week with a later month. -/
def KeepsMonth (metas : List SnapshotMeta) (now : Moment) (month : Month) : Prop :=
  Holds metas month → ∃ m ∈ metas, ∃ stamp, m.timestamp = some stamp ∧
    stamp.shown.yearMonth = month ∧ ¬ SharesWeek metas now m stamp

/-- Every time stamp is one in UTC. -/
def InUtc (metas : List SnapshotMeta) : Prop :=
  ∀ m ∈ metas, ∀ stamp, m.timestamp = some stamp → stamp.shown = stamp.utc

theorem yearMonth_of_day {now : Moment} {stamp : Stamp} {year : Int} {month day : Nat}
    (h : bucketOf now stamp = some (.day year month day)) :
    stamp.shown.yearMonth = toLex (year, month) := by
  unfold bucketOf at h
  split_ifs at h
  · cases h
    rfl
  · cases h
  · cases h

theorem yearMonth_of_month {now : Moment} {stamp : Stamp} {year : Int} {month : Nat}
    (h : bucketOf now stamp = some (.month year month)) :
    stamp.shown.yearMonth = toLex (year, month) := by
  unfold bucketOf at h
  split_ifs at h
  · cases h
  · cases h
  · cases h
    rfl

/-- Time stamps of one bucket are in one month, unless the bucket is a week. -/
theorem yearMonth_of_bucket {now : Moment} {stamp stamp' : Stamp} {b : Bucket}
    (h : bucketOf now stamp = some b) (h' : bucketOf now stamp' = some b) :
    (∃ year week, b = .week year week) ∨ stamp.shown.yearMonth = stamp'.shown.yearMonth := by
  cases b with
  | day year month day => exact Or.inr ((yearMonth_of_day h).trans (yearMonth_of_day h').symm)
  | week year week => exact Or.inl ⟨year, week, rfl⟩
  | month year month => exact Or.inr ((yearMonth_of_month h).trans (yearMonth_of_month h').symm)

/-- A month outlives a prune when it has a snapshot that shares no week with a later month. -/
theorem holds_retained {metas : List SnapshotMeta} (h : Proper metas) (hutc : InUtc metas)
    {now : Moment} {month : Month} :
    Holds (retained metas now) month ↔ ∃ m ∈ metas, ∃ stamp, m.timestamp = some stamp ∧
      stamp.shown.yearMonth = month ∧ ¬ SharesWeek metas now m stamp := by
  constructor
  · rintro ⟨m, hin, stamp, hstamp, hmonth⟩
    have hmem := (mem_retained.mp hin).1
    refine ⟨m, hmem, stamp, hstamp, hmonth, ?_⟩
    rintro ⟨hpinned, year, week, hbucket, other, hother, hpinned', stamp', hstamp', hbucket', hlt⟩
    have hp : (stamp, m) ∈ dated metas := mem_dated.mpr ⟨hmem, hstamp⟩
    have hp' : (stamp', other) ∈ dated metas := mem_dated.mpr ⟨hother, hstamp'⟩
    have hlength : 1 < metas.length := by
      by_contra hshort
      have hsame : m = other := by
        obtain ⟨x, hx⟩ : ∃ x, metas = [x] := List.length_eq_one_iff.mp
          (le_antisymm (not_lt.mp hshort) (List.length_pos_of_mem hmem))
        rw [hx] at hmem hother
        rw [List.mem_singleton.mp hmem, List.mem_singleton.mp hother]
      subst hsame
      rw [hstamp] at hstamp'
      cases hstamp'
      exact lt_irrefl _ hlt
    rcases (mem_retained_of_dated h hp hlength).mp hin with hnone | ⟨b, hsome, hbest⟩
    · rw [competingBucket, if_neg hpinned, hbucket] at hnone
      cases hnone
    · rw [competingBucket, if_neg hpinned, hbucket] at hsome
      cases hsome
      have hgroup := Retention.mem_group.mpr
        ⟨hp', competingBucket_eq_some.mpr ⟨hpinned', hbucket'⟩⟩
      have hle := Retention.le_newest hbest hgroup
      change stamp'.utc ≤ stamp.utc at hle
      rw [← hutc m hmem stamp hstamp, ← hutc other hother stamp' hstamp'] at hle
      exact absurd hlt (not_lt_of_ge (Moment.yearMonth_le hle))
  · rintro ⟨m, hmem, stamp, hstamp, hmonth, hshares⟩
    by_cases hin : m ∈ retained metas now
    · exact ⟨m, hin, stamp, hstamp, hmonth⟩
    · have hp : (stamp, m) ∈ dated metas := mem_dated.mpr ⟨hmem, hstamp⟩
      obtain ⟨hpinned, b, hbucket, survivor, hstays, hpinned', stamp', hstamp', hbucket', hle⟩ :=
        exists_survivor_of_notMem h hp hin
      have hsurvivor := (mem_retained.mp hstays).1
      refine ⟨survivor, hstays, stamp', hstamp', ?_⟩
      rcases yearMonth_of_bucket hbucket hbucket' with ⟨year, week, rfl⟩ | heq
      · rw [← hutc m hmem stamp hstamp, ← hutc survivor hsurvivor stamp' hstamp'] at hle
        rcases (Moment.yearMonth_le hle).lt_or_eq with hlt | heq
        · exact absurd ⟨hpinned, year, week, hbucket, survivor, hsurvivor, hpinned', stamp',
            hstamp', hbucket', hlt⟩ hshares
        · exact heq.symm.trans hmonth
      · exact heq.symm.trans hmonth

/-! ## Sequences of captures -/

/-- The readings of the clock do not go back. -/
def NonDecreasing (captures : List Capture) : Prop :=
  (captures.flatMap fun capture => [capture.taken, capture.pruned]).Pairwise (· ≤ ·)

/-- The snapshots that the prune of a capture is given. -/
def unpruned (readings : Readings) (step : Step) : List SnapshotMeta :=
  listing readings step.before ++ [newMeta readings step.capture step.version]

/-- Every time stamp of a listing is in UTC and not after a moment. -/
def StampedBefore (metas : List SnapshotMeta) (now : Moment) : Prop :=
  ∀ m ∈ metas, ∃ t, m.timestamp = some (.ofUtc t) ∧ t ≤ now

theorem StampedBefore.inUtc {metas : List SnapshotMeta} {now : Moment}
    (h : StampedBefore metas now) : InUtc metas := by
  intro m hin stamp hstamp
  obtain ⟨t, ht, -⟩ := h m hin
  rw [hstamp] at ht
  cases ht
  rfl

theorem StampedBefore.concat {metas : List SnapshotMeta} {now : Moment} {capture : Capture}
    (h : StampedBefore metas now) (hle : now ≤ capture.taken) (version : Nat) :
    StampedBefore (metas ++ [newMeta readings capture version]) capture.taken := by
  intro m hin
  rcases List.mem_append.mp hin with hold | hnew
  · obtain ⟨t, ht, htle⟩ := h m hold
    exact ⟨t, ht, htle.trans hle⟩
  · rw [List.mem_singleton.mp hnew]
    exact ⟨capture.taken, rfl, le_rfl⟩

theorem holds_concat {metas : List SnapshotMeta} {capture : Capture} {version : Nat}
    {month : Month} :
    Holds (metas ++ [newMeta readings capture version]) month ↔
      Holds metas month ∨ capture.taken.yearMonth = month := by
  constructor
  · rintro ⟨m, hin, stamp, hstamp, hmonth⟩
    rcases List.mem_append.mp hin with hold | hnew
    · exact Or.inl ⟨m, hold, stamp, hstamp, hmonth⟩
    · rw [List.mem_singleton.mp hnew] at hstamp
      cases hstamp
      exact Or.inr hmonth
  · rintro (⟨m, hold, hstamp⟩ | hmonth)
    · exact ⟨m, List.mem_append_left _ hold, hstamp⟩
    · exact ⟨_, List.mem_append_right _ List.mem_cons_self, .ofUtc capture.taken, rfl, hmonth⟩

/-- A month that a prune took is over: no later capture is in it. -/
theorem ne_of_not_keepsMonth {metas : List SnapshotMeta} {now time later : Moment} {month : Month}
    (hstamped : StampedBefore metas time) (h : ¬ KeepsMonth metas now month)
    (hle : time ≤ later) : later.yearMonth ≠ month := by
  rintro rfl
  refine h fun ⟨m, hin, stamp, hstamp, hmonth⟩ => ⟨m, hin, stamp, hstamp, hmonth, ?_⟩
  rintro ⟨-, year, week, -, other, hother, -, stamp', hstamp', -, hlt⟩
  obtain ⟨t, ht, htle⟩ := hstamped other hother
  rw [hstamp'] at ht
  cases ht
  have hmonth' : t.yearMonth ≤ later.yearMonth := Moment.yearMonth_le (htle.trans hle)
  rw [hmonth] at hlt
  exact absurd hlt (not_lt_of_ge hmonth')

/-- The steps of a sequence of captures. -/
def stepsOf (readings : Readings) (directory : Directory) : List Capture → List Step
  | [] => []
  | capture :: rest =>
      { before := directory
        capture
        version := latest (listing readings directory) + 1
        after := afterCapture readings directory capture } ::
        stepsOf readings (afterCapture readings directory capture) rest

theorem captureAll_eq {directory : Directory} (h : Scannable readings directory)
    (captures : List Capture) :
    captureAll readings directory captures = .ok (stepsOf readings directory captures) := by
  induction captures generalizing directory with
  | nil => rfl
  | cons capture rest ih =>
      rw [captureAll, capture_eq h]
      show (captureAll readings (afterCapture readings directory capture) rest >>= _) = _
      rw [ih (captured_afterCapture h capture).scannable]
      rfl

/-- The directory after some steps. -/
def final (directory : Directory) : List Step → Directory
  | [] => directory
  | step :: rest => final step.after rest

/-- What a prune keeps of the snapshots that it is given: the newest version, and for every one it
removes another of its bucket that is as new; pruning again at once changes nothing. -/
structure Retains (readings : Readings) (step : Step) : Prop where
  scanned : scanSnapshots readings step.after = .ok (listing readings step.after)
  newest : ∃ m ∈ listing readings step.after, m.version = step.version ∧
    ∀ other ∈ unpruned readings step, other.version ≤ m.version
  survivor : ∀ m ∈ unpruned readings step, m ∉ listing readings step.after →
    ∃ stamp b, m.timestamp = some stamp ∧ bucketOf step.capture.pruned stamp = some b ∧
      ∃ survivor ∈ listing readings step.after, ∃ stamp', survivor.timestamp = some stamp' ∧
        bucketOf step.capture.pruned stamp' = some b ∧ stamp.utc ≤ stamp'.utc
  again : pruneSnapshots (listing readings step.after) step.capture.pruned step.after = step.after

theorem retains_afterCapture {directory : Directory} (h : Scannable readings directory)
    (capture : Capture) :
    Retains readings
      { before := directory
        capture
        version := latest (listing readings directory) + 1
        after := afterCapture readings directory capture } := by
  have hcaptured := captured_afterCapture h capture
  have hproper := proper_concat readings directory capture
  refine ⟨scan_of_scannable hcaptured.scannable, ?_, ?_, ?_⟩
  · have hnew : newMeta readings capture (latest (listing readings directory) + 1) ∈
        listing readings (afterCapture readings directory capture) := by
      rw [hcaptured.listed, retained_concat capture.pruned lt_latest_succ]
      exact List.mem_append_right _ List.mem_cons_self
    refine ⟨_, hnew, rfl, fun other hother => ?_⟩
    rcases List.mem_append.mp hother with hold | hlast
    · exact (lt_latest_succ other hold).le
    · rw [List.mem_singleton.mp hlast]
  · intro m hin hout
    rw [hcaptured.listed] at hout
    obtain ⟨-, stamp, hdated⟩ := dated_of_notMem_retained hproper hin hout
    obtain ⟨-, b, hbucket, survivor, hstays, -, hstamp'⟩ :=
      exists_survivor_of_notMem hproper hdated hout
    refine ⟨stamp, b, (mem_dated.mp hdated).2, hbucket, survivor, ?_, hstamp'⟩
    rw [hcaptured.listed]
    exact hstays
  · unfold pruneSnapshots
    rw [hcaptured.listed, prunedPaths_retained hproper]
    rfl

theorem NonDecreasing.cons {capture : Capture} {rest : List Capture}
    (h : NonDecreasing (capture :: rest)) :
    capture.taken ≤ capture.pruned ∧ (∀ later ∈ rest, capture.pruned ≤ later.taken) ∧
      NonDecreasing rest := by
  unfold NonDecreasing at h
  rw [List.flatMap_cons, List.pairwise_append] at h
  obtain ⟨hboth, hrest, hbefore⟩ := h
  refine ⟨List.rel_of_pairwise_cons hboth List.mem_cons_self, fun later hin => ?_, hrest⟩
  exact hbefore capture.pruned (List.mem_cons_of_mem _ List.mem_cons_self) later.taken
    (List.mem_flatMap.mpr ⟨later, hin, List.mem_cons_self⟩)

/-- The months that are left after a sequence of captures are those in which a snapshot was taken
and that every prune kept. -/
theorem holds_after (captures : List Capture) (month : Month) : ∀ {directory : Directory}
    {time : Moment}, Scannable readings directory →
      StampedBefore (listing readings directory) time → NonDecreasing captures →
      (∀ capture ∈ captures, time ≤ capture.taken) →
      (Holds (listing readings (final directory (stepsOf readings directory captures))) month ↔
        (Holds (listing readings directory) month ∨
            ∃ capture ∈ captures, capture.taken.yearMonth = month) ∧
          ∀ step ∈ stepsOf readings directory captures,
            KeepsMonth (unpruned readings step) step.capture.pruned month) := by
  induction captures with
  | nil =>
      intro directory time _ _ _ _
      constructor
      · exact fun h => ⟨Or.inl h, List.forall_mem_nil _⟩
      · rintro ⟨h | ⟨capture, hin, -⟩, -⟩
        · exact h
        · cases hin
  | cons capture rest ih =>
      intro directory time hscannable hstamped hclock htime
      obtain ⟨hpruned, hlater, hrest⟩ := hclock.cons
      have hcaptured := captured_afterCapture hscannable capture
      have hunpruned : StampedBefore (unpruned readings ⟨directory, capture,
          latest (listing readings directory) + 1, afterCapture readings directory capture⟩)
          capture.taken := hstamped.concat (htime capture List.mem_cons_self) _
      have hafter : StampedBefore (listing readings (afterCapture readings directory capture))
          capture.pruned := by
        intro m hin
        rw [hcaptured.listed] at hin
        obtain ⟨t, ht, hle⟩ := hunpruned m (mem_retained.mp hin).1
        exact ⟨t, ht, hle.trans hpruned⟩
      have hstep : Holds (retained (unpruned readings ⟨directory, capture,
          latest (listing readings directory) + 1, afterCapture readings directory capture⟩)
          capture.pruned) month ↔ _ :=
        holds_retained (proper_concat readings directory capture) hunpruned.inUtc
      have hmonths : Holds (unpruned readings ⟨directory, capture,
          latest (listing readings directory) + 1, afterCapture readings directory capture⟩) month ↔
          Holds (listing readings directory) month ∨ capture.taken.yearMonth = month := holds_concat
      have hend := ih hcaptured.scannable hafter hrest hlater
      rw [hcaptured.listed] at hend
      refine hend.trans ?_
      show _ ↔ _ ∧ ∀ step ∈ _ :: stepsOf readings (afterCapture readings directory capture) rest, _
      rw [List.forall_mem_cons]
      constructor
      · rintro ⟨hheld | ⟨later, hin, hmonth⟩, hkeeps⟩
        · have hholds : Holds (unpruned readings ⟨directory, capture,
              latest (listing readings directory) + 1,
              afterCapture readings directory capture⟩) month := by
            obtain ⟨m, hm, hrest⟩ := hheld
            exact ⟨m, (mem_retained.mp hm).1, hrest⟩
          refine ⟨?_, fun _ => hstep.mp hheld, hkeeps⟩
          rcases hmonths.mp hholds with hold | hnew
          · exact Or.inl hold
          · exact Or.inr ⟨capture, List.mem_cons_self, hnew⟩
        · refine ⟨Or.inr ⟨later, List.mem_cons_of_mem _ hin, hmonth⟩, ?_, hkeeps⟩
          by_contra hlost
          exact ne_of_not_keepsMonth hunpruned hlost (hpruned.trans (hlater later hin)) hmonth
      · rintro ⟨hfirst, hkeep, hkeeps⟩
        refine ⟨?_, hkeeps⟩
        rcases hfirst with hold | ⟨later, hin, hmonth⟩
        · exact Or.inl (hstep.mpr (hkeep (hmonths.mpr (Or.inl hold))))
        · rcases List.mem_cons.mp hin with rfl | hrest
          · exact Or.inl (hstep.mpr (hkeep (hmonths.mpr (Or.inr hmonth))))
          · exact Or.inr ⟨later, hrest, hmonth⟩

theorem retains_stepsOf (captures : List Capture) : ∀ {directory : Directory},
    Scannable readings directory →
      ∀ step ∈ stepsOf readings directory captures, Retains readings step := by
  induction captures with
  | nil => exact fun _ => List.forall_mem_nil _
  | cons capture rest ih =>
      intro directory h
      exact List.forall_mem_cons.mpr
        ⟨retains_afterCapture h capture, ih (captured_afterCapture h capture).scannable⟩

theorem map_capture_stepsOf (directory : Directory) (captures : List Capture) :
    (stepsOf readings directory captures).map Step.capture = captures := by
  induction captures generalizing directory with
  | nil => rfl
  | cons capture rest ih => exact congrArg (capture :: ·) (ih _)

/-- A directory without snapshots. -/
def noSnapshots : Directory :=
  Table.empty

theorem scannable_noSnapshots : Scannable readings noSnapshots :=
  List.forall_mem_nil _

/-- A month of the captures that has come to be pruned by months at the end. -/
def Aged (captures : List Capture) (month : Month) : Prop :=
  ∃ last, captures.getLast? = some last ∧ ∃ capture ∈ captures,
    capture.taken < last.pruned.minusDays pruneWeeklyDays ∧ capture.taken.yearMonth = month

/-- Over every sequence of captures the newest version stays, whatever is removed leaves a survivor
in its bucket, and pruning again changes nothing; and the months that have aged past the weekly
threshold are all held exactly when no prune took the snapshots of one of them that shared their
weeks with a later month. -/
theorem snapshot_retention_iff (readings : Readings) (captures : List Capture)
    (hclock : NonDecreasing captures) :
    ∃ steps, captureAll readings noSnapshots captures = .ok steps ∧
      steps.map Step.capture = captures ∧ (∀ step ∈ steps, Retains readings step) ∧
      ((∀ month, Aged captures month →
          Holds (listing readings (final noSnapshots steps)) month) ↔
        ∀ month, Aged captures month →
          ∀ step ∈ steps, KeepsMonth (unpruned readings step) step.capture.pruned month) := by
  refine ⟨_, captureAll_eq scannable_noSnapshots captures, map_capture_stepsOf _ captures,
    retains_stepsOf captures scannable_noSnapshots, ?_⟩
  refine forall_congr' fun month => forall_congr' fun haged => ?_
  obtain ⟨last, -, capture, hin, -, hmonth⟩ := haged
  cases captures with
  | nil => cases hin
  | cons first rest =>
      obtain ⟨hpruned, hlater, hrest⟩ := hclock.cons
      have hstart : ∀ c ∈ first :: rest, first.taken ≤ c.taken := by
        intro c hc
        rcases List.mem_cons.mp hc with rfl | hc
        · exact le_rfl
        · exact hpruned.trans (hlater c hc)
      have hstamped : StampedBefore (listing readings noSnapshots) first.taken :=
        List.forall_mem_nil _
      rw [holds_after (first :: rest) month scannable_noSnapshots hstamped hclock hstart]
      exact and_iff_right (Or.inr ⟨capture, hin, hmonth⟩)

/-! ## A month that is lost -/

/-- The last day of April and the first day of May stand in one week. -/
def straddling : List Capture :=
  [emptyCapture ⟨2025, 4, 30, 0⟩, emptyCapture ⟨2025, 5, 1, 0⟩, emptyCapture ⟨2025, 6, 10, 0⟩,
    emptyCapture ⟨2025, 12, 1, 0⟩]

theorem nonDecreasing_straddling : NonDecreasing straddling := by
  unfold NonDecreasing straddling
  decide

theorem snapshot_retention_iff_straddling :
    ∃ steps, captureAll utcReadings noSnapshots straddling = .ok steps ∧
      steps.map Step.capture = straddling ∧ (∀ step ∈ steps, Retains utcReadings step) ∧
      ((∀ month, Aged straddling month →
          Holds (listing utcReadings (final noSnapshots steps)) month) ↔
        ∀ month, Aged straddling month →
          ∀ step ∈ steps, KeepsMonth (unpruned utcReadings step) step.capture.pruned month) :=
  snapshot_retention_iff utcReadings straddling nonDecreasing_straddling

noncomputable def aprilMeta : SnapshotMeta := newMeta utcReadings (emptyCapture ⟨2025, 4, 30, 0⟩) 1
noncomputable def mayMeta : SnapshotMeta := newMeta utcReadings (emptyCapture ⟨2025, 5, 1, 0⟩) 2
noncomputable def juneMeta : SnapshotMeta := newMeta utcReadings (emptyCapture ⟨2025, 6, 10, 0⟩) 3

theorem pinned_june : pinned [aprilMeta, mayMeta, juneMeta] = [canonicalName 3, canonicalName 3] := by
  decide

theorem bucketOf_april :
    bucketOf ⟨2025, 6, 10, 0⟩ (.ofUtc ⟨2025, 4, 30, 0⟩) = some (.week 2025 17) := by
  decide +kernel

theorem bucketOf_may :
    bucketOf ⟨2025, 6, 10, 0⟩ (.ofUtc ⟨2025, 5, 1, 0⟩) = some (.week 2025 17) := by
  decide +kernel

/-- In June the week that both snapshots share keeps the one of May. -/
theorem not_keepsMonth_april :
    ¬ KeepsMonth [aprilMeta, mayMeta, juneMeta] ⟨2025, 6, 10, 0⟩ (toLex (2025, 4)) := by
  intro h
  obtain ⟨m, hin, stamp, hstamp, hmonth, hshares⟩ :=
    h ⟨aprilMeta, List.mem_cons_self, .ofUtc ⟨2025, 4, 30, 0⟩, rfl, rfl⟩
  have hapril : aprilMeta.path ∉ pinned [aprilMeta, mayMeta, juneMeta] := by
    rw [pinned_june]
    decide
  have hmay : mayMeta.path ∉ pinned [aprilMeta, mayMeta, juneMeta] := by
    rw [pinned_june]
    decide
  rcases List.mem_cons.mp hin with rfl | hin
  · cases hstamp
    exact hshares ⟨hapril, 2025, 17, bucketOf_april, mayMeta,
      List.mem_cons_of_mem _ List.mem_cons_self, hmay, .ofUtc ⟨2025, 5, 1, 0⟩, rfl, bucketOf_may,
      by decide⟩
  · rcases List.mem_cons.mp hin with rfl | hin
    · cases hstamp
      exact absurd hmonth (by decide)
    · rw [List.mem_singleton.mp hin] at hstamp
      cases hstamp
      exact absurd hmonth (by decide)

theorem retained_may : retained [aprilMeta, mayMeta] ⟨2025, 5, 1, 0⟩ = [aprilMeta, mayMeta] := by
  have hpruned : prunedPaths [aprilMeta, mayMeta] ⟨2025, 5, 1, 0⟩ = [] := by decide
  rw [retained, hpruned]
  rfl

/-- The directory after the captures of April and May. -/
noncomputable def mayDirectory : Directory :=
  afterCapture utcReadings
    (afterCapture utcReadings noSnapshots (emptyCapture ⟨2025, 4, 30, 0⟩))
    (emptyCapture ⟨2025, 5, 1, 0⟩)

theorem listing_mayDirectory : listing utcReadings mayDirectory = [aprilMeta, mayMeta] := by
  have hapril := captured_afterCapture (scannable_noSnapshots : Scannable utcReadings noSnapshots)
    (emptyCapture ⟨2025, 4, 30, 0⟩)
  have hfirst : listing utcReadings
      (afterCapture utcReadings noSnapshots (emptyCapture ⟨2025, 4, 30, 0⟩)) = [aprilMeta] :=
    hapril.listed
  have hsecond := (captured_afterCapture hapril.scannable (emptyCapture ⟨2025, 5, 1, 0⟩)).listed
  rw [hfirst] at hsecond
  exact hsecond.trans retained_may

/-- The snapshots of April are all gone when it has aged past the weekly threshold. -/
theorem straddling_loses_april :
    NonDecreasing straddling ∧ Aged straddling (toLex (2025, 4)) ∧
      ∃ steps, captureAll utcReadings noSnapshots straddling = .ok steps ∧
        ¬ Holds (listing utcReadings (final noSnapshots steps)) (toLex (2025, 4)) := by
  have haged : Aged straddling (toLex (2025, 4)) :=
    ⟨_, rfl, emptyCapture ⟨2025, 4, 30, 0⟩, List.mem_cons_self, by decide +kernel, rfl⟩
  refine ⟨nonDecreasing_straddling, haged, _, captureAll_eq scannable_noSnapshots _, fun hholds => ?_⟩
  have hstamped : StampedBefore (listing utcReadings noSnapshots) ⟨2025, 4, 30, 0⟩ :=
    List.forall_mem_nil _
  have hkeeps := ((holds_after straddling (toLex (2025, 4)) scannable_noSnapshots hstamped
    nonDecreasing_straddling (by unfold straddling; decide)).mp hholds).2
  have hjune := hkeeps _ (List.mem_cons_of_mem _ (List.mem_cons_of_mem _ List.mem_cons_self))
  have hmetas : unpruned utcReadings ⟨mayDirectory, emptyCapture ⟨2025, 6, 10, 0⟩,
      latest (listing utcReadings mayDirectory) + 1,
      afterCapture utcReadings mayDirectory (emptyCapture ⟨2025, 6, 10, 0⟩)⟩ =
        [aprilMeta, mayMeta, juneMeta] := by
    unfold unpruned
    simp only
    rw [listing_mayDirectory]
    rfl
  exact not_keepsMonth_april (hmetas ▸ hjune)

end Snapshots
end Client
end Nauro
