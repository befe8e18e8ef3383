import Mathlib.Data.List.MinMax
import Mathlib.Order.Nat
import Nauro.Client.Snapshots

/-!
# The versions that captures give

* `fresh_versions_iff` — the directories on which a number of captures overwrites no file.
-/

namespace Nauro
namespace Client
namespace Snapshots

open Foundation Foundation.Json Nauro.Core

variable {readings : Readings}

/-! ## Names -/

theorem canonicalName_injective : Function.Injective canonicalName := by
  intro version version' h
  unfold canonicalName at h
  exact padNumber_injective 3 (List.append_cancel_right (List.cons.inj h).2)

theorem isSnapshotName_canonicalName (version : Nat) :
    isSnapshotName (canonicalName version) = true :=
  List.isSuffixOf_iff_suffix.mpr (List.suffix_append _ _)

/-! ## One file -/

/-- What a scan keeps of one file. -/
def found (readings : Readings) (file : Text × Body) : Option SnapshotMeta :=
  (scanFile readings file).toOption.join

theorem path_of_readMeta {path : Text} {body : Body} {m : SnapshotMeta}
    (h : readMeta readings path body = .ok m) : m.path = path := by
  unfold readMeta at h
  cases body with
  | error e => cases h
  | ok value =>
      cases value with
      | object data =>
          simp only [bind, Except.bind] at h
          split at h
          · split_ifs at h with hversion hfalsy
            · split at h
              · cases h
              · cases h
                rfl
            · split at h
              · cases h
              · split at h
                · cases h
                · cases h
                  rfl
          · cases h
      | null => cases h
      | bool b => cases h
      | int n => cases h
      | float lexeme => cases h
      | string s => cases h
      | array items => cases h

theorem found_eq_some {file : Text × Body} {m : SnapshotMeta}
    (h : found readings file = some m) : m.path = file.1 ∧ file.1 = canonicalName m.version := by
  unfold found scanFile at h
  split_ifs at h with hname
  · split at h
    · cases h
    · cases h
    · rename_i header hread
      split_ifs at h with hcanonical
      · cases h
        exact ⟨path_of_readMeta hread, hcanonical⟩
      · cases h
  · cases h

/-! ## A scan -/

/-- No file of a directory stops a scan. -/
def Scannable (readings : Readings) (directory : Directory) : Prop :=
  ∀ file ∈ directory.entries, scanFile readings file ≠ .error .escaping

/-- What a scan finds in a directory, oldest version first. -/
def listing (readings : Readings) (directory : Directory) : List SnapshotMeta :=
  (directory.entries.filterMap (found readings)).insertionSort fun m m' => m.version ≤ m'.version

theorem scanFile_eq {file : Text × Body} (h : scanFile readings file ≠ .error .escaping) :
    scanFile readings file = .ok (found readings file) := by
  unfold found
  rcases hscan : scanFile readings file with e | header
  · cases e with
    | escaping => exact absurd hscan h
    | corrupt =>
        unfold scanFile at hscan
        split_ifs at hscan
        split at hscan
        · cases hscan
        · cases hscan
        · cases hscan
  · rfl

theorem scan_of_scannable {directory : Directory} (h : Scannable readings directory) :
    scanSnapshots readings directory = .ok (listing readings directory) := by
  have hall : ∀ files : List (Text × Body),
      (∀ file ∈ files, scanFile readings file ≠ .error .escaping) →
        files.mapM (scanFile readings) = .ok (files.map (found readings)) := by
    intro files
    induction files with
    | nil => exact fun _ => rfl
    | cons file rest ih =>
        intro hfiles
        obtain ⟨hfile, hrest⟩ := List.forall_mem_cons.mp hfiles
        rw [List.mapM_cons, scanFile_eq hfile, ih hrest]
        rfl
  unfold scanSnapshots listing
  rw [hall directory.entries h]
  show Except.ok _ = Except.ok _
  rw [List.filterMap_map]
  rfl

/-- A file that stops a scan stops it with its error. -/
theorem scan_of_not_scannable {directory : Directory} (h : ¬ Scannable readings directory) :
    ∃ e, scanSnapshots readings directory = .error e := by
  have hall : ∀ files : List (Text × Body),
      (∃ file ∈ files, scanFile readings file = .error .escaping) →
        ∃ e, files.mapM (scanFile readings) = .error e := by
    intro files
    induction files with
    | nil => rintro ⟨file, hin, -⟩; cases hin
    | cons file rest ih =>
        intro hfiles
        rw [List.mapM_cons]
        rcases hscan : scanFile readings file with e | header
        · exact ⟨e, rfl⟩
        · obtain ⟨bad, hin, hbad⟩ := hfiles
          rcases List.mem_cons.mp hin with rfl | hrest
          · rw [hscan] at hbad
            cases hbad
          · obtain ⟨e, herror⟩ := ih ⟨bad, hrest, hbad⟩
            rw [herror]
            exact ⟨e, rfl⟩
  unfold Scannable at h
  push Not at h
  obtain ⟨e, herror⟩ := hall directory.entries h
  unfold scanSnapshots
  rw [herror]
  exact ⟨e, rfl⟩

/-! ## The listing -/

theorem mem_listing {directory : Directory} {m : SnapshotMeta} :
    m ∈ listing readings directory ↔
      ∃ body, directory.get? m.path = some body ∧ found readings (m.path, body) = some m := by
  unfold listing
  rw [List.mem_insertionSort, List.mem_filterMap]
  constructor
  · rintro ⟨⟨path, body⟩, hin, hfound⟩
    have hpath : m.path = path := (found_eq_some hfound).1
    rw [hpath]
    exact ⟨body, Table.mem_entries_iff.mp hin, hfound⟩
  · rintro ⟨body, hbody, hfound⟩
    exact ⟨(m.path, body), Table.mem_entries_iff.mpr hbody, hfound⟩

theorem path_of_mem_listing {directory : Directory} {m : SnapshotMeta}
    (h : m ∈ listing readings directory) : m.path = canonicalName m.version := by
  obtain ⟨body, -, hfound⟩ := mem_listing.mp h
  exact (found_eq_some hfound).2

/-- The versions of a listing are distinct and go up. -/
def Ascending (metas : List SnapshotMeta) : Prop :=
  metas.Pairwise fun m m' => m.version < m'.version

theorem ascending_listing (directory : Directory) : Ascending (listing readings directory) := by
  have hdistinct : (directory.entries.filterMap (found readings)).Pairwise
      fun m m' => m.version ≠ m'.version := by
    rw [List.pairwise_filterMap]
    refine (List.pairwise_map.mp directory.distinct).imp fun {file file'} hne m hm m' hm' heq => ?_
    exact hne ((found_eq_some hm).2.trans
      ((congrArg canonicalName heq).trans (found_eq_some hm').2.symm))
  have hsorted : (listing readings directory).Pairwise fun m m' => m.version ≤ m'.version :=
    List.pairwise_insertionSort _ _
  have hne : (listing readings directory).Pairwise fun m m' => m.version ≠ m'.version :=
    ((List.perm_insertionSort _ _).pairwise_iff fun h => h.symm).mpr hdistinct
  exact (hsorted.and hne).imp fun h => lt_of_le_of_ne h.1 h.2

theorem Ascending.nodup {metas : List SnapshotMeta} (h : Ascending metas) : metas.Nodup :=
  h.imp fun hlt heq => absurd (heq ▸ hlt) (lt_irrefl _)

/-- Listings with the same snapshots are the same. -/
theorem Ascending.ext {metas metas' : List SnapshotMeta} (h : Ascending metas)
    (h' : Ascending metas') (hmem : ∀ m, m ∈ metas ↔ m ∈ metas') : metas = metas' := by
  refine ((List.perm_ext_iff_of_nodup h.nodup h'.nodup).mpr hmem).eq_of_pairwise ?_ h h'
  intro m m' _ _ hlt hlt'
  exact absurd hlt (lt_asymm hlt')

/-- The greatest version of some snapshots, zero when there is none. -/
def latest (metas : List SnapshotMeta) : Nat :=
  (metas.map SnapshotMeta.version).foldr max 0

theorem version_le_latest {metas : List SnapshotMeta} {m : SnapshotMeta} (h : m ∈ metas) :
    m.version ≤ latest metas :=
  List.le_max_of_le' 0 (List.mem_map_of_mem h) le_rfl

/-- The version of the last of ascending snapshots is the latest. -/
theorem latest_concat {metas : List SnapshotMeta} {last : SnapshotMeta}
    (h : ∀ m ∈ metas, m.version ≤ last.version) : latest (metas ++ [last]) = last.version := by
  refine le_antisymm ?_ (version_le_latest (List.mem_append_right _ List.mem_cons_self))
  refine List.max_le_of_forall_le ((metas ++ [last]).map SnapshotMeta.version) last.version
    fun version hin => ?_
  obtain ⟨m, hm, rfl⟩ := List.mem_map.mp hin
  rcases List.mem_append.mp hm with hfront | hlast
  · exact h m hfront
  · rw [List.mem_singleton.mp hlast]

/-! ## Writing and removing -/

theorem get?_foldl_erase {paths : List Text} {directory : Directory} (path : Text) :
    (paths.foldl Table.erase directory).get? path =
      if path ∈ paths then none else directory.get? path := by
  induction paths generalizing directory with
  | nil => rfl
  | cons first rest ih =>
      rw [List.foldl_cons, ih]
      by_cases hfirst : path = first
      · subst hfirst
        rw [Table.get?_erase_self, if_pos List.mem_cons_self]
        exact ite_self _
      · rw [Table.get?_erase_of_ne hfirst]
        exact if_congr (List.mem_cons.trans (or_iff_right hfirst)).symm rfl rfl

theorem listing_foldl_erase (directory : Directory) (paths : List Text) :
    listing readings (paths.foldl Table.erase directory) =
      (listing readings directory).filter fun m => !paths.contains m.path := by
  refine (ascending_listing _).ext ((ascending_listing directory).sublist List.filter_sublist)
    fun m => ?_
  rw [List.mem_filter, mem_listing, mem_listing, get?_foldl_erase]
  by_cases hin : m.path ∈ paths
  · rw [if_pos hin, List.contains_iff_mem.mpr hin]
    constructor
    · rintro ⟨body, hbody, -⟩
      cases hbody
    · rintro ⟨-, h⟩
      cases h
  · rw [if_neg hin, Bool.eq_false_iff.mpr fun h => hin (List.contains_iff_mem.mp h)]
    exact (and_iff_left rfl).symm

/-- A snapshot written under the name of a version above all others is listed last, whatever
stood under that name. -/
theorem listing_put {directory : Directory} {m : SnapshotMeta} {body : Body}
    (hfound : found readings (m.path, body) = some m)
    (hnew : ∀ old ∈ listing readings directory, old.version < m.version) :
    listing readings (directory.put m.path body) = listing readings directory ++ [m] := by
  have hpath := (found_eq_some hfound).2
  refine (ascending_listing _).ext ?_ fun other => ?_
  · refine List.pairwise_append.mpr ⟨ascending_listing directory, List.pairwise_singleton _ _, ?_⟩
    intro old hold new hin
    rw [List.mem_singleton.mp hin]
    exact hnew old hold
  · rw [List.mem_append, List.mem_singleton, mem_listing]
    by_cases heq : other.path = m.path
    · rw [heq, Table.get?_put_self]
      constructor
      · rintro ⟨body', hbody, hother⟩
        cases hbody
        rw [hfound] at hother
        exact Or.inr (Option.some.inj hother).symm
      · rintro (hold | rfl)
        · have hversion : other.version = m.version :=
            canonicalName_injective (((path_of_mem_listing hold).symm.trans heq).trans hpath)
          exact absurd (hnew other hold) (hversion ▸ lt_irrefl _)
        · exact ⟨body, rfl, hfound⟩
    · rw [Table.get?_put_of_ne heq, ← mem_listing]
      refine (or_iff_left ?_).symm
      rintro rfl
      exact heq rfl

theorem scannable_put {directory : Directory} {m : SnapshotMeta} {body : Body}
    (h : Scannable readings directory) (hfound : found readings (m.path, body) = some m) :
    Scannable readings (directory.put m.path body) := by
  rintro ⟨path, body'⟩ hin hscan
  have hbody := Table.mem_entries_iff.mp hin
  by_cases heq : path = m.path
  · subst heq
    rw [Table.get?_put_self] at hbody
    cases hbody
    rw [found, hscan] at hfound
    cases hfound
  · rw [Table.get?_put_of_ne heq] at hbody
    exact h _ (Table.mem_entries_iff.mpr hbody) hscan

theorem scannable_foldl_erase {directory : Directory} (h : Scannable readings directory)
    (paths : List Text) : Scannable readings (paths.foldl Table.erase directory) := by
  rintro ⟨path, body⟩ hin
  have hbody := Table.mem_entries_iff.mp hin
  rw [get?_foldl_erase] at hbody
  split_ifs at hbody with hpruned
  exact h _ (Table.mem_entries_iff.mpr hbody)

/-! ## One capture -/

/-- The header of the snapshot that a capture writes. -/
def newMeta (readings : Readings) (capture : Capture) (version : Nat) : SnapshotMeta where
  path := canonicalName version
  version := version
  rawTimestamp := readings.isoformat capture.taken
  timestamp := some (.ofUtc capture.taken)
  trigger := capture.trigger
  triggerDetail := capture.triggerDetail
  tokenCount := tokenCountOf (capture.store.filter fun file => isHostedSnapshotContentMember file.1)

/-- The body that a capture writes. -/
def newBody (readings : Readings) (capture : Capture) (version : Nat) : Value :=
  serializeSnapshot (readings.isoformat capture.taken) capture.trigger capture.triggerDetail
    (capture.store.filter fun file => isHostedSnapshotContentMember file.1) version

theorem readMeta_newBody (capture : Capture) {version : Nat} (hpos : 0 < version) :
    readMeta readings (canonicalName version) (.ok (newBody readings capture version)) =
      .ok (newMeta readings capture version) := by
  have hversion : ¬ (version : Int) < 1 := by omega
  have hstamp : parseTimestamp readings (readings.isoformat capture.taken) =
      some (.ofUtc capture.taken) := by
    rw [parseTimestamp, readings.fromisoformat_isoformat]
  unfold readMeta newBody serializeSnapshot newMeta
  simp only [bind, Except.bind]
  rw [show List.lookup (key "version") _ = some (Value.int version) from rfl,
    show List.lookup (key "timestamp") _ = some (Value.string (readings.isoformat capture.taken))
      from rfl]
  simp only
  rw [if_neg hversion,
    show (List.lookup (key "token_count") _).getD Value.null = Value.int (tokenCountOf
      (capture.store.filter fun file => isHostedSnapshotContentMember file.1)) from rfl,
    show (List.lookup (key "trigger") _).getD (Value.string []) = Value.string capture.trigger
      from rfl,
    show (List.lookup (key "trigger_detail") _).getD (Value.string []) =
      Value.string capture.triggerDetail from rfl]
  simp only [toStr, hstamp, Int.toNat_natCast]
  cases tokenCountOf (capture.store.filter fun file => isHostedSnapshotContentMember file.1) with
  | zero => rfl
  | succ n => rfl

/-- What a capture writes is what a scan finds there. -/
theorem found_newBody (readings : Readings) (capture : Capture) {version : Nat}
    (hpos : 0 < version) :
    found readings ((newMeta readings capture version).path,
      .ok (newBody readings capture version)) = some (newMeta readings capture version) := by
  show found readings (canonicalName version, .ok (newBody readings capture version)) = _
  unfold found scanFile
  rw [if_pos (isSnapshotName_canonicalName version), readMeta_newBody capture hpos]
  show (some (if canonicalName version = canonicalName version then _ else none)).join = _
  rw [if_pos rfl]
  rfl

theorem newest_concat {metas : List SnapshotMeta} {last : SnapshotMeta}
    (h : ∀ m ∈ metas, m.version < last.version) :
    Retention.newest SnapshotMeta.version (metas ++ [last]) = some last := by
  have hlast : last ∈ metas ++ [last] := List.mem_append_right _ List.mem_cons_self
  obtain ⟨best, hbest⟩ : ∃ best, Retention.newest SnapshotMeta.version (metas ++ [last]) = some best :=
    Retention.exists_newest (List.ne_nil_of_mem hlast)
  have hle := Retention.le_newest hbest hlast
  rcases List.mem_append.mp (Retention.newest_mem hbest) with hfront | hin
  · exact absurd hle (not_le_of_gt (h best hfront))
  · rw [hbest, List.mem_singleton.mp hin]

/-- The snapshots that outlive a prune. -/
def retained (metas : List SnapshotMeta) (now : Moment) : List SnapshotMeta :=
  metas.filter fun m => !(prunedPaths metas now).contains m.path

theorem mem_pinned_of_newest {metas : List SnapshotMeta} {m : SnapshotMeta}
    (h : Retention.newest SnapshotMeta.version metas = some m) : m.path ∈ pinned metas := by
  rw [pinned, h]
  exact List.mem_append_left _ List.mem_cons_self

theorem mem_prunedPaths {metas : List SnapshotMeta} {now : Moment} {path : Text} :
    path ∈ prunedPaths metas now ↔
      1 < metas.length ∧ (∃ p ∈ dated metas, p.2.path = path) ∧ path ∉ keptPaths metas now := by
  unfold prunedPaths
  split_ifs with hlength
  · exact ⟨fun h => (List.not_mem_nil h).elim, fun h => absurd h.1 (not_lt_of_ge hlength)⟩
  · rw [List.mem_map]
    constructor
    · rintro ⟨p, hp, rfl⟩
      obtain ⟨hdated, hkept⟩ := List.mem_filter.mp hp
      refine ⟨lt_of_not_ge hlength, ⟨p, hdated, rfl⟩, fun hin => ?_⟩
      rw [List.contains_iff_mem.mpr hin] at hkept
      cases hkept
    · rintro ⟨-, ⟨p, hdated, rfl⟩, hkept⟩
      refine ⟨p, List.mem_filter.mpr ⟨hdated, ?_⟩, rfl⟩
      rw [Bool.eq_false_iff.mpr fun h => hkept (List.contains_iff_mem.mp h)]
      rfl

theorem mem_dated {metas : List SnapshotMeta} {p : Stamp × SnapshotMeta} :
    p ∈ dated metas ↔ p.2 ∈ metas ∧ p.2.timestamp = some p.1 := by
  obtain ⟨stamp, m⟩ := p
  unfold dated
  rw [List.mem_filterMap]
  constructor
  · rintro ⟨m', hin, h⟩
    obtain ⟨stamp', hstamp, heq⟩ := Option.map_eq_some_iff.mp h
    cases heq
    exact ⟨hin, hstamp⟩
  · rintro ⟨hin, hstamp⟩
    exact ⟨m, hin, by rw [hstamp]; rfl⟩

/-- The newest version outlives a prune. -/
theorem notMem_prunedPaths_of_newest {metas : List SnapshotMeta} {m : SnapshotMeta} (now : Moment)
    (h : Retention.newest SnapshotMeta.version metas = some m) :
    m.path ∉ prunedPaths metas now := by
  intro hin
  refine (mem_prunedPaths.mp hin).2.2 ?_
  exact List.mem_append_left _ (List.mem_append_left _ (mem_pinned_of_newest h))

theorem retained_concat {metas : List SnapshotMeta} {last : SnapshotMeta} (now : Moment)
    (h : ∀ m ∈ metas, m.version < last.version) :
    retained (metas ++ [last]) now =
      (metas.filter fun m => !(prunedPaths (metas ++ [last]) now).contains m.path) ++ [last] := by
  have hlast := notMem_prunedPaths_of_newest now (newest_concat h)
  rw [retained, List.filter_append, List.filter_singleton,
    Bool.eq_false_iff.mpr fun hin => hlast (List.contains_iff_mem.mp hin)]
  rfl

/-- The directory after a capture: the file is written, and those that are pruned go. -/
def afterCapture (readings : Readings) (directory : Directory) (capture : Capture) : Directory :=
  let version := latest (listing readings directory) + 1
  pruneSnapshots (listing readings directory ++ [newMeta readings capture version]) capture.pruned
    (directory.put (newMeta readings capture version).path
      (.ok (newBody readings capture version)))

/-- What holds after a capture. -/
structure Captured (readings : Readings) (directory : Directory) (capture : Capture)
    (after : Directory) : Prop where
  listed : listing readings after = retained
    (listing readings directory ++
      [newMeta readings capture (latest (listing readings directory) + 1)]) capture.pruned
  scannable : Scannable readings after
  /-- Names of later versions stand after the capture when they stood before it. -/
  above : ∀ version, latest (listing readings directory) + 1 < version →
    (canonicalName version ∈ after.keys ↔ canonicalName version ∈ directory.keys)

theorem lt_latest_succ {metas : List SnapshotMeta} :
    ∀ m ∈ metas, m.version < latest metas + 1 :=
  fun _ hin => Nat.lt_succ_of_le (version_le_latest hin)

/-- One capture gives the version after the latest one. -/
theorem capture_eq {directory : Directory} (h : Scannable readings directory) (capture : Capture) :
    captureSnapshot readings directory capture =
      .ok (afterCapture readings directory capture, latest (listing readings directory) + 1) := by
  unfold captureSnapshot
  rw [scan_of_scannable h]
  rfl

theorem captured_afterCapture {directory : Directory} (h : Scannable readings directory)
    (capture : Capture) :
    Captured readings directory capture (afterCapture readings directory capture) := by
  have hfound := found_newBody readings capture
    (Nat.succ_pos (latest (listing readings directory)))
  have hput := listing_put hfound lt_latest_succ
  refine ⟨?_, ?_, ?_⟩
  · refine (listing_foldl_erase _ _).trans ?_
    rw [hput]
    rfl
  · exact scannable_foldl_erase (scannable_put h hfound) _
  · intro version hlt
    have hne : canonicalName version ≠ canonicalName (latest (listing readings directory) + 1) :=
      fun heq => absurd (canonicalName_injective heq) (ne_of_gt hlt)
    have hpruned : canonicalName version ∉ prunedPaths (listing readings directory ++
        [newMeta readings capture (latest (listing readings directory) + 1)]) capture.pruned := by
      intro hin
      obtain ⟨p, hp, hpath⟩ := (mem_prunedPaths.mp hin).2.1
      rcases List.mem_append.mp (mem_dated.mp hp).1 with hfront | hlast
      · have hversion := canonicalName_injective ((path_of_mem_listing hfront).symm.trans hpath)
        have hle := version_le_latest hfront
        omega
      · rw [List.mem_singleton.mp hlast] at hpath
        exact hne hpath.symm
    rw [Table.mem_keys_iff, Table.mem_keys_iff]
    show ((List.foldl Table.erase _ _).get? _).isSome = true ↔ _
    rw [get?_foldl_erase, if_neg hpruned]
    exact iff_of_eq (congrArg (fun o => Option.isSome o = true) (Table.get?_put_of_ne hne _))

theorem Captured.latest_eq {directory after : Directory} {capture : Capture}
    (h : Captured readings directory capture after) :
    latest (listing readings after) = latest (listing readings directory) + 1 := by
  rw [h.listed, retained_concat capture.pruned lt_latest_succ]
  refine latest_concat fun m hin => ?_
  exact (lt_latest_succ m (List.mem_filter.mp hin).1).le

/-- The snapshot that was captured is listed last. -/
theorem Captured.scan {directory after : Directory} {capture : Capture}
    (h : Captured readings directory capture after) :
    ∃ metas, scanSnapshots readings after = .ok
      (metas ++ [newMeta readings capture (latest (listing readings directory) + 1)]) := by
  have hlisted := h.listed
  rw [retained_concat capture.pruned lt_latest_succ] at hlisted
  exact ⟨_, (scan_of_scannable h.scannable).trans (congrArg Except.ok hlisted)⟩

/-! ## Sequences of captures -/

/-- Every capture writes a new file, under a version above those before it, and a scan lists the
snapshot as the newest one right after it. -/
structure FreshVersions (readings : Readings) (steps : List Step) : Prop where
  fresh : ∀ step ∈ steps, canonicalName step.version ∉ step.before.keys
  increasing : steps.Pairwise fun step step' => step.version < step'.version
  newest : ∀ step ∈ steps, ∃ metas last,
    scanSnapshots readings step.after = .ok (metas ++ [last]) ∧ last.version = step.version

/-- What a sequence of captures gives: the versions after the latest one, and files that are new
as far as no file stands under their names at the start. -/
theorem captureAll_spec (captures : List Capture) : ∀ {directory : Directory},
    Scannable readings directory →
      ∃ steps, captureAll readings directory captures = .ok steps ∧
        steps.map Step.version =
          List.range' (latest (listing readings directory) + 1) captures.length ∧
        (∀ step ∈ steps, ∃ metas last,
          scanSnapshots readings step.after = .ok (metas ++ [last]) ∧
            last.version = step.version) ∧
        ((∀ step ∈ steps, canonicalName step.version ∉ step.before.keys) ↔
          ∀ i < captures.length,
            canonicalName (latest (listing readings directory) + 1 + i) ∉ directory.keys) := by
  induction captures with
  | nil =>
      intro directory _
      refine ⟨[], rfl, rfl, List.forall_mem_nil _, ?_⟩
      exact ⟨fun _ i hi => absurd hi (Nat.not_lt_zero i), fun _ => List.forall_mem_nil _⟩
  | cons capture rest ih =>
      intro directory h
      have hcaptured := captured_afterCapture h capture
      obtain ⟨steps, hsteps, hversions, hnewest, hfresh⟩ := ih hcaptured.scannable
      rw [hcaptured.latest_eq] at hversions hfresh
      refine ⟨⟨directory, capture, latest (listing readings directory) + 1,
        afterCapture readings directory capture⟩ :: steps, ?_, ?_, ?_, ?_⟩
      · rw [captureAll, capture_eq h]
        show (captureAll readings (afterCapture readings directory capture) rest >>= _) = _
        rw [hsteps]
        rfl
      · rw [List.map_cons, hversions, List.length_cons, List.range'_succ]
      · refine List.forall_mem_cons.mpr ⟨?_, hnewest⟩
        obtain ⟨metas, hscan⟩ := hcaptured.scan
        exact ⟨metas, _, hscan, rfl⟩
      · rw [List.forall_mem_cons, hfresh]
        have habove : ∀ i, canonicalName (latest (listing readings directory) + 1 + 1 + i) ∈
            (afterCapture readings directory capture).keys ↔
            canonicalName (latest (listing readings directory) + 1 + (i + 1)) ∈
              directory.keys := by
          intro i
          rw [hcaptured.above _ (by omega), Nat.add_assoc _ 1 i, Nat.add_comm 1 i]
        constructor
        · rintro ⟨hfirst, hrest⟩ i hi
          cases i with
          | zero => exact hfirst
          | succ i => exact fun hin => hrest i (Nat.lt_of_succ_lt_succ hi) ((habove i).mpr hin)
        · intro hall
          exact ⟨hall 0 (Nat.succ_pos _),
            fun i hi hin => hall (i + 1) (Nat.succ_lt_succ hi) ((habove i).mp hin)⟩

/-- Captures give fresh versions on the directories that can be scanned and have no file under the
names that come next. -/
theorem fresh_versions_iff (readings : Readings) (directory : Directory)
    (captures : List Capture) :
    (∃ steps, captureAll readings directory captures = .ok steps ∧ FreshVersions readings steps) ↔
      (captures ≠ [] → Scannable readings directory) ∧
        ∀ i < captures.length,
          canonicalName (latest (listing readings directory) + 1 + i) ∉ directory.keys := by
  by_cases h : Scannable readings directory
  · obtain ⟨steps, hsteps, hversions, hnewest, hfresh⟩ := captureAll_spec captures h
    have hincreasing : steps.Pairwise fun step step' => step.version < step'.version := by
      have hrange : (List.range' (latest (listing readings directory) + 1)
          captures.length).Pairwise (· < ·) := List.pairwise_lt_range'
      rw [← hversions] at hrange
      exact List.pairwise_map.mp hrange
    constructor
    · rintro ⟨steps', hsteps', hvalid⟩
      rw [hsteps] at hsteps'
      cases hsteps'
      exact ⟨fun _ => h, hfresh.mp hvalid.fresh⟩
    · rintro ⟨-, hnames⟩
      exact ⟨steps, hsteps, hfresh.mpr hnames, hincreasing, hnewest⟩
  · cases captures with
    | nil =>
        refine iff_of_true ⟨[], rfl, List.forall_mem_nil _, List.Pairwise.nil,
          List.forall_mem_nil _⟩ ⟨fun hne => absurd rfl hne, ?_⟩
        exact fun i hi => absurd hi (Nat.not_lt_zero i)
    | cons capture rest =>
        refine iff_of_false ?_ fun hall => h (hall.1 (List.cons_ne_nil _ _))
        rintro ⟨steps, hsteps, -⟩
        obtain ⟨e, herror⟩ := scan_of_not_scannable h
        rw [captureAll, captureSnapshot, herror] at hsteps
        cases hsteps

/-- A damaged file that stands where the first version goes. -/
def damagedFirst : Directory :=
  ⟨[(canonicalName 1, .error .corrupt)], List.nodup_singleton _⟩

/-- A capture with nothing in the store. -/
def emptyCapture (m : Moment) : Capture where
  store := []
  trigger := []
  triggerDetail := []
  taken := m
  pruned := m

/-- The capture overwrites the damaged file. -/
theorem fresh_versions_damaged :
    (∃ after, captureSnapshot utcReadings damagedFirst (emptyCapture ⟨2026, 5, 1, 0⟩) =
        .ok (after, 1)) ∧
      canonicalName 1 ∈ damagedFirst.keys := by
  have hname : ∀ file ∈ damagedFirst.entries, scanFile utcReadings file = .ok none :=
    List.forall_mem_singleton.mpr (if_pos (isSnapshotName_canonicalName 1))
  have hscannable : Scannable utcReadings damagedFirst := by
    intro file hin hescape
    rw [hname file hin] at hescape
    cases hescape
  have hlisting : listing utcReadings damagedFirst = [] := by
    refine List.eq_nil_iff_forall_not_mem.mpr fun m hin => ?_
    obtain ⟨body, hbody, hfound⟩ := mem_listing.mp hin
    rw [found, hname _ (Table.mem_entries_iff.mpr hbody)] at hfound
    cases hfound
  have hcapture := capture_eq hscannable (emptyCapture ⟨2026, 5, 1, 0⟩)
  rw [hlisting] at hcapture
  exact ⟨⟨_, hcapture⟩, List.mem_cons_self⟩

end Snapshots
end Client
end Nauro
