import Nauro.Client.Acquisition
import Nauro.Client.MigrationPlan

/-!
# Which plans cover a store and are read back

* `migration_plan_iff` — the stores whose plans are read back.
-/

namespace Nauro
namespace Client
namespace Migration

open Foundation Foundation.EscapedUtf8 Nauro.Core Nauro.Sync Installation

variable {rules : ProjectionRules}

/-! ## Plans that are read back -/

/-- A plan has one entry for every file of a store but the control lock, and one place for it. -/
structure Covers (sha256 : Bytes → Digest) (tree : FileTree)
    (entries : List LegacyMigrationPlanEntry) : Prop where
  files : ∀ path size digest,
    (∃ entry ∈ entries, entry.sourcePath = path ∧ entry.size = size ∧ entry.sha256 = digest) ↔
      path ≠ controlLockName ∧ ∃ file : RegularFile,
        nodeAt tree path = some (.leaf (.regular file)) ∧ size = file.content.length ∧
          digest = (sha256 file.content).text
  sources : (entries.map LegacyMigrationPlanEntry.sourcePath).Nodup
  destinations : (entries.map LegacyMigrationPlanEntry.destinationPath).Nodup

theorem covers_of_perm {sha256 : Bytes → Digest} {tree : FileTree} {found : Inventory}
    (htells : Tells sha256 tree found) {entries : List LegacyMigrationPlanEntry}
    {entryFor : LegacyFileStamp → LegacyMigrationPlanEntry}
    (hentry : ∀ stamp, EntryOf stamp (entryFor stamp))
    (hperm : entries.Perm (found.files.map entryFor)) : Covers sha256 tree entries where
  files path size digest := by
    constructor
    · rintro ⟨entry, hin, rfl, rfl, rfl⟩
      obtain ⟨stamp, hstamp, rfl⟩ := List.mem_map.mp (hperm.mem_iff.mp hin)
      obtain ⟨hname, file, hnode, hsize, hsha⟩ := (htells.files stamp).mp hstamp
      rw [(hentry stamp).source, (hentry stamp).size, (hentry stamp).sha256, hsize, hsha]
      exact ⟨hname, file, hnode, rfl, rfl⟩
    · rintro ⟨hname, file, hnode, rfl, rfl⟩
      have hstamp := (htells.files ⟨path, file.content.length, sha256 file.content⟩).mpr
        ⟨hname, file, hnode, rfl, rfl⟩
      exact ⟨_, hperm.mem_iff.mpr (List.mem_map_of_mem hstamp), (hentry _).source,
        (hentry _).size, (hentry _).sha256⟩
  sources := by
    rw [(hperm.map _).nodup_iff, List.map_map]
    have hsources : LegacyMigrationPlanEntry.sourcePath ∘ entryFor = LegacyFileStamp.path :=
      funext fun stamp => (hentry stamp).source
    rw [hsources]
    exact htells.distinct
  destinations := by
    rw [(hperm.map _).nodup_iff, List.map_map]
    refine List.Nodup.map_on (fun stamp hin stamp' hin' heq => ?_) htells.distinct.of_map
    exact List.inj_on_of_nodup_map htells.distinct hin hin'
      ((hentry stamp).path_eq (hentry stamp') heq)

theorem checkAll_ok_iff {A : Type} {check : A → Except DecodeError Unit} {xs : List A} :
    checkAll check xs = .ok () ↔ ∀ x ∈ xs, check x = .ok () := by
  induction xs with
  | nil => exact ⟨fun _ => List.forall_mem_nil _, fun _ => rfl⟩
  | cons x xs ih =>
      rw [List.forall_mem_cons, ← ih, checkAll]
      cases hx : check x with
      | error error => exact iff_of_false (fun h => by cases h) fun h => by cases h.1
      | ok u => exact ⟨fun h => ⟨rfl, h⟩, fun h => h.2⟩

theorem checkEntry_ok_iff {stamp : LegacyFileStamp} {entry : LegacyMigrationPlanEntry}
    (h : EntryOf stamp entry) : checkEntry entry = .ok () ↔ relative stamp.path = .ok stamp.path := by
  unfold checkEntry
  rw [h.source]
  cases hrelative : relative stamp.path with
  | error error => exact iff_of_false (fun h => by cases h) fun h => by cases h
  | ok source =>
      obtain ⟨rfl, -⟩ := relative_ok hrelative
      refine iff_of_true ?_ rfl
      have hsize : ¬ entry.size < 0 := by
        rw [h.size]
        omega
      have hdigest : isDigest entry.sha256 = true := by
        rw [h.sha256]
        exact stamp.sha256.valid
      simp only [bind, Except.bind, h.destination, ne_eq, not_true_eq_false, hsize, or_self,
        if_false, hdigest, if_true]

/-- A character that no name of a backup has to be read for. -/
def IsPlain (c : Char) : Prop := c ≠ '/' ∧ c ≠ '\\'

theorem isPlain_of_ulid (id : Ulid) {c : Char} (hin : c ∈ id.text) : IsPlain c := by
  have hvalid := id.valid
  simp only [isUlid, Bool.and_eq_true] at hvalid
  have hc := List.all_eq_true.mp hvalid.2 c hin
  have hslash : isCrockford '/' = false := by decide
  have hback : isCrockford '\\' = false := by decide
  refine ⟨fun heq => ?_, fun heq => ?_⟩
  · rw [heq, hslash] at hc
    cases hc
  · rw [heq, hback] at hc
    cases hc

theorem isPlain_of_filenameTime {createdAt : Timestamp} {c : Char}
    (hin : c ∈ filenameTime createdAt) : IsPlain c := by
  have hc := (List.mem_filter.mp hin).2
  have hslash : ('/'.isDigit || decide ('/' = 'T') || decide ('/' = 'Z')) = false := by decide
  have hback : ('\\'.isDigit || decide ('\\' = 'T') || decide ('\\' = 'Z')) = false := by decide
  refine ⟨fun heq => ?_, fun heq => ?_⟩
  · rw [heq, hslash] at hc
    cases hc
  · rw [heq, hback] at hc
    cases hc

/-- The characters of the name of a backup. -/
theorem isPlain_of_backupName (projectId : Ulid) (identity : MigrationIdentity) :
    ∀ c ∈ backupName projectId.text identity, IsPlain c := by
  have hfront : ∀ c ∈ "legacy-backup-".toList, IsPlain c := by
    unfold IsPlain
    exact forall_mem_of_all (by decide)
  have hdash : ∀ c ∈ "-".toList, IsPlain c := by
    unfold IsPlain
    exact forall_mem_of_all (by decide)
  have hleading : ∀ c ∈ backupPrefix projectId.text, IsPlain c :=
    List.forall_mem_append.mpr ⟨List.forall_mem_append.mpr ⟨hfront, fun _ =>
      isPlain_of_ulid projectId⟩, hdash⟩
  exact List.forall_mem_append.mpr ⟨List.forall_mem_append.mpr ⟨List.forall_mem_append.mpr
    ⟨hleading, fun _ => isPlain_of_filenameTime⟩, hdash⟩, fun _ =>
      isPlain_of_ulid identity.migrationId⟩

theorem relative_backupName (projectId : Ulid) (identity : MigrationIdentity) :
    relative (backupName projectId.text identity) = .ok (backupName projectId.text identity) := by
  refine relative_of_parts (fun hin => (isPlain_of_backupName projectId identity _ hin).2 rfl) ?_
  rw [List.splitOn_eq_singleton fun hin => (isPlain_of_backupName projectId identity _ hin).1 rfl]
  intro segment hsegment
  rw [List.mem_singleton.mp hsegment]
  have hhead : (backupName projectId.text identity).head? = some 'l' := rfl
  refine ⟨fun heq => ?_, fun heq => ?_, fun heq => ?_⟩
  · rw [heq] at hhead
    cases hhead
  · rw [heq] at hhead
    exact absurd hhead (by decide)
  · rw [heq] at hhead
    exact absurd hhead (by decide)

/-- No name of a store reads with a backslash. -/
def NoBackslash (tree : FileTree) : Prop :=
  ∀ e ∈ tree.entries, ∀ name ∈ e.1, Point.scalar '\\' ∉ name.points

/-- That is so when no path that an inventory tells has one. -/
theorem noBackslash_iff {sha256 : Bytes → Digest} {tree : FileTree} {found : Inventory}
    (htells : Tells sha256 tree found) :
    NoBackslash tree ↔
      (∀ d ∈ found.directories, '\\' ∉ d) ∧ ∀ stamp ∈ found.files, '\\' ∉ stamp.path := by
  have hslash : Point.scalar '\\' ≠ Point.scalar '/' := by decide
  have htext {path : List FileName} {text : Text} (h : pathPoints path = pointsOf text) :
      '\\' ∈ text ↔ ∃ name ∈ path, Point.scalar '\\' ∈ name.points := by
    rw [← mem_pathPoints hslash, h, pointsOf, List.mem_map_of_injective scalar_injective]
  have hplain (hnone : NoBackslash tree) {text : Text} {node : TreeNode Leaf}
      (hnode : nodeAt tree text = some node) : '\\' ∉ text := by
    obtain ⟨path, hpoints, hin⟩ := nodeAt_iff_mem.mp hnode
    rw [htext hpoints]
    rintro ⟨name, hname, hback⟩
    exact hnone _ hin name hname hback
  constructor
  · intro hnone
    refine ⟨fun d hd => hplain hnone ((htells.directories d).mp hd), fun stamp hstamp => ?_⟩
    obtain ⟨-, file, hnode, -⟩ := (htells.files stamp).mp hstamp
    exact hplain hnone hnode
  · rintro ⟨hdirectories, hfiles⟩ ⟨path, node⟩ hin name hname hback
    by_cases hlock : pathPoints path = pointsOf controlLockName
    · exact absurd ((htext hlock).mpr ⟨name, hname, hback⟩) (by decide)
    · obtain ⟨⟨text, hpoints⟩, hnode⟩ := htells.regular _ hin hlock
      have hbad := (htext hpoints).mpr ⟨name, hname, hback⟩
      rcases hnode with rfl | ⟨file, rfl⟩
      · exact hdirectories text
          ((htells.directories text).mpr (nodeAt_iff_mem.mpr ⟨path, hpoints, hin⟩)) hbad
      · refine hfiles ⟨text, file.content.length, sha256 file.content⟩
          ((htells.files _).mpr ⟨fun heq => hlock ?_, file,
            nodeAt_iff_mem.mpr ⟨path, hpoints, hin⟩, rfl, rfl⟩) hbad
        rw [← heq]
        exact hpoints

/-! ## The plan of a ready assessment -/

/-- The record of the admission of a plan. -/
structure Matches (record : MigrationAdmission) (assessment : LegacyMigrationAssessment rules)
    (plan : LegacyMigrationPlan) : Prop where
  migrationId : record.migrationId = plan.migrationId
  projectId : record.projectId = assessment.projection.target.identity.projectId
  actor : record.actor = assessment.projection.target.identity.installedForUserId
  endpoint : assessment.projection.target.binding.serverUrl = some record.endpoint
  planDigest : record.planDigest = plan.planDigest

theorem append_isSuffixOf (front back : Text) : back.isSuffixOf (front ++ back) = true :=
  List.isSuffixOf_iff_suffix.mpr (List.suffix_append front back)

theorem relative_ok_iff {value : Text} :
    (relative value).map (fun _ => ()) = .ok () ↔ relative value = .ok value := by
  cases hrelative : relative value with
  | error error => exact iff_of_false (fun h => by cases h) fun h => by cases h
  | ok found =>
      rw [(relative_ok hrelative).1]
      exact iff_of_true rfl rfl

theorem relative_iff_of_nodeAt {tree : FileTree} {text : Text} {node : TreeNode Leaf}
    (h : nodeAt tree text = some node) : relative text = .ok text ↔ '\\' ∉ text := by
  obtain ⟨path, hpoints, hin⟩ := nodeAt_iff_mem.mp h
  exact ⟨fun hok => (relative_ok hok).2,
    relative_of_path (DirectoryTree.ne_nil_of_mem hin) hpoints⟩

/-- Past the binding and the location a plan is read back when all its paths are. -/
theorem decodeMigrationPlan_ok_iff {format : PlanFormat} {raw : Bytes} {payload : PlanPayload}
    {record : MigrationAdmission} {identity : MigrationIdentity}
    (hload : format.load? raw = some payload) (hurl : payload.serverUrl = some record.endpoint)
    (hid : payload.migrationId = record.migrationId.text)
    (hproject : payload.projectId = record.projectId.text)
    (hactor : payload.projection.installedForUserId = record.actor)
    (hprojection : payload.projection.projectId = record.projectId)
    (hsources : (payload.entries.map LegacyMigrationPlanEntry.sourcePath).Nodup)
    (hidentity : record.migrationId = identity.migrationId)
    (hname : payload.backupDirectoryName = backupName record.projectId.text identity)
    (decoded : PlanPayload) :
    decodeMigrationPlan format raw record = .ok decoded ↔
      decoded = payload ∧ (∀ d ∈ payload.directoryPaths, relative d = .ok d) ∧
        ∀ entry ∈ payload.entries, checkEntry entry = .ok () := by
  have hlocated : ¬ ('/' ∈ backupName record.projectId.text identity ∨
      (!(backupPrefix record.projectId.text).isPrefixOf
        (backupName record.projectId.text identity)) = true ∨
      (!("-".toList ++ record.migrationId.text).isSuffixOf
        (backupName record.projectId.text identity)) = true) := by
    have hleading : (backupPrefix record.projectId.text).isPrefixOf
        (backupName record.projectId.text identity) = true := by
      refine List.isPrefixOf_iff_prefix.mpr ?_
      rw [backupName, List.append_assoc, List.append_assoc]
      exact List.prefix_append _ _
    have hsuffix : ("-".toList ++ record.migrationId.text).isSuffixOf
        (backupName record.projectId.text identity) = true := by
      rw [backupName, hidentity, List.append_assoc]
      exact append_isSuffixOf _ _
    rw [hleading, hsuffix]
    rintro (hin | hfalse | hfalse)
    · exact (isPlain_of_backupName record.projectId identity _ hin).1 rfl
    · cases hfalse
    · cases hfalse
  have hchecks : decodeMigrationPlan format raw record = (do
      checkAll (fun directory => (relative directory).map fun _ => ()) payload.directoryPaths
      checkAll checkEntry payload.entries
      .ok payload) := by
    unfold decodeMigrationPlan
    simp only [hload, hurl, hid, hproject, hactor, hprojection, hsources, ne_eq, not_true_eq_false,
      or_self, if_false, hname, relative_backupName, bind, Except.bind, if_neg hlocated]
  have hdirectories : checkAll (fun directory => (relative directory).map fun _ => ())
      payload.directoryPaths = .ok () ↔ ∀ d ∈ payload.directoryPaths, relative d = .ok d := by
    rw [checkAll_ok_iff]
    exact forall₂_congr fun _ _ => relative_ok_iff
  rw [hchecks, ← hdirectories, ← checkAll_ok_iff]
  cases checkAll (fun directory => (relative directory).map fun _ => ())
      payload.directoryPaths with
  | error error => exact iff_of_false (fun h => by cases h) fun h => by cases h.2.1
  | ok u =>
      cases checkAll checkEntry payload.entries with
      | error error => exact iff_of_false (fun h => by cases h) fun h => by cases h.2.2
      | ok u => exact ⟨fun h => ⟨(Except.ok.inj h).symm, rfl, rfl⟩, fun h => congrArg _ h.1.symm⟩

/-- The plan of a ready assessment has one entry and one place for every file, and it is read back
as it is, when no name of the store has a backslash, and only then. -/
theorem migration_plan_iff (rules : ProjectionRules) (capture : Capture → Bytes)
    (format : PlanFormat) (projection : VerifiedProjection rules) (tree : FileTree)
    (identity : MigrationIdentity) (assessment : LegacyMigrationAssessment rules)
    (hassessed : assessLegacyMigration capture projection tree = .ok assessment)
    (hready : assessment.readyForBackup = true)
    (hformat : ∀ payload, preparePayload assessment identity = .ok payload →
      format.load? (format.dump payload) = some payload) :
    ∃ plan, prepareLegacyMigrationPlan format assessment identity = .ok plan ∧
      ∀ record, Matches record assessment plan →
        ((Covers rules.sha256 tree plan.entries ∧
            ∃ decoded, decodeMigrationPlan format plan.manifestJson record = .ok decoded ∧
              decoded.entries = plan.entries) ↔
          NoBackslash tree) := by
  obtain ⟨found, htells, rfl⟩ := assessLegacyMigration_ok hassessed
  obtain ⟨entries, hentries, hperm⟩ := planEntries?_classify capture projection found
  have hcovers := covers_of_perm htells (entryOf_entryFor _) hperm
  have hvalid := validateAssessment_classify htells.distinct hready
  have hpayload : preparePayload (classify capture projection found) identity = .ok
      { migrationId := identity.migrationId.text
        createdAt := identity.createdAt.text
        backupDirectoryName :=
          backupName projection.target.identity.projectId.text identity
        projectId := projection.target.identity.projectId.text
        serverUrl := projection.target.binding.serverUrl
        directoryPaths := found.directories
        assessmentCaptureDigest := (classify capture projection found).captureDigest.text
        projection := projection.target.identity
        serverOnlyPaths := (classify capture projection found).serverOnlyPaths
        entries := entries } := by
    unfold preparePayload
    simp only [hvalid, hentries, bind, Except.bind]
    rfl
  have hload := hformat _ hpayload
  refine ⟨_, by rw [prepareLegacyMigrationPlan, hpayload]; rfl, fun record hrecord => ?_⟩
  have hproject : record.projectId = projection.target.identity.projectId := hrecord.projectId
  have hname : backupName projection.target.identity.projectId.text identity =
      backupName record.projectId.text identity := by rw [hproject]
  have hmigration : record.migrationId = identity.migrationId := hrecord.migrationId
  have hdecode := decodeMigrationPlan_ok_iff hload hrecord.endpoint
    (congrArg Ulid.text hmigration.symm) (congrArg Ulid.text hproject.symm) hrecord.actor.symm
    hproject.symm hcovers.sources hmigration hname
  have hentry : ∀ stamp ∈ found.files,
      (checkEntry (entryFor (classify capture projection found) stamp) = .ok () ↔
        '\\' ∉ stamp.path) := by
    intro stamp hin
    obtain ⟨-, file, hnode, -⟩ := (htells.files stamp).mp hin
    rw [checkEntry_ok_iff (entryOf_entryFor _ stamp), relative_iff_of_nodeAt hnode]
  have hdirectory : ∀ d ∈ found.directories, (relative d = .ok d ↔ '\\' ∉ d) := fun d hd =>
    relative_iff_of_nodeAt ((htells.directories d).mp hd)
  rw [noBackslash_iff htells]
  constructor
  · rintro ⟨-, decoded, hdecoded, -⟩
    obtain ⟨-, hdirectories, hchecked⟩ := (hdecode decoded).mp hdecoded
    refine ⟨fun d hd => (hdirectory d hd).mp (hdirectories d hd), fun stamp hin => ?_⟩
    exact (hentry stamp hin).mp (hchecked _ (hperm.mem_iff.mpr (List.mem_map_of_mem hin)))
  · rintro ⟨hdirectories, hfiles⟩
    refine ⟨hcovers, _, (hdecode _).mpr ⟨rfl, fun d hd => (hdirectory d hd).mpr
      (hdirectories d hd), fun entry hin => ?_⟩, rfl⟩
    obtain ⟨stamp, hstamp, rfl⟩ := List.mem_map.mp (hperm.mem_iff.mp hin)
    exact (hentry stamp hstamp).mpr (hfiles stamp hstamp)

/-! ## A store with one file -/

def sampleIdentity : MigrationIdentity where
  migrationId := ⟨"01K00000000000000000000002".toList, by decide⟩
  createdAt := sampleCommittedAt

/-- The bytes of the capture of a store with one file, whose path is spelled as in JSON. -/
@[irreducible] def captureJson (spelled : String) : Bytes :=
  utf8 ([
    "\x7b\"directories\":[],\"evidence\":[\x7b\"path\":\"", spelled,
    "\",\"sha256\":\"fd7857a92e47cc4600220c9a1b4acb5a9dd6001985dc0baa6b2f35e6845435",
    "84\",\"size\":8\x7d],\"pending\":[],\"projection\":\x7b\"committed_at\":\"2026",
    "-07-12T10:00:00.000000Z\",\"generation_id\":\"01K00000000000000000000001\",\"i",
    "nstalled_for_user_id\":\"01K00000000000000000000000\",\"manifest_digest\":\"b9",
    "7ac5c40bcfdf82161be275a34ff3ab1308a80c25c27a9c65b849432d65ca2f\",\"project_id",
    "\":\"01K00000000000000000000000\",\"projection_class\":\"viewer\",\"projection",
    "_scope_id\":\"5f161c9149882e0e10124bc5dd5c11f0fbe8ec452edd52bcec76b01e9252cb33",
    "\",\"store_format_version\":1\x7d,\"protected\":[],\"schema_version\":1,\"serv",
    "er_url\":\"https://mcp.nauro.ai\",\"snapshots\":[],\"unsupported\":[\"", spelled,
    "\"]\x7d"].flatMap String.toList)

/-- The bytes of its plan. -/
@[irreducible] def planJson (spelled capture : String) : Bytes :=
  utf8 ([
    "\x7b\"assessment_capture_digest\":\"", capture,
    "\",\"backup_directory_name\":\"legacy-backup-01K00000000000000000000000-202607",
    "12T100000000000Z-01K00000000000000000000002\",\"created_at\":\"2026-07-12T10:0",
    "0:00.000000Z\",\"directory_paths\":[],\"entries\":[\x7b\"destination_path\":\"",
    "legacy/", spelled,
    "\",\"disposition\":\"legacy_backup\",\"offer_export\":true,\"recovery_kind\":",
    "\"preserved_unsupported\",\"recovery_routes\":[],\"sha256\":\"fd7857a92e47cc46",
    "00220c9a1b4acb5a9dd6001985dc0baa6b2f35e684543584\",\"size\":8,\"source_class\"",
    ":\"evidence\",\"source_path\":\"", spelled,
    "\"\x7d],\"migration_id\":\"01K00000000000000000000002\",\"project_id\":\"01K00",
    "000000000000000000000\",\"projection\":\x7b\"committed_at\":\"2026-07-12T10:00",
    ":00.000000Z\",\"generation_id\":\"01K00000000000000000000001\",\"installed_for",
    "_user_id\":\"01K00000000000000000000000\",\"manifest_digest\":\"b97ac5c40bcfdf",
    "82161be275a34ff3ab1308a80c25c27a9c65b849432d65ca2f\",\"project_id\":\"01K00000",
    "000000000000000000\",\"projection_class\":\"viewer\",\"projection_scope_id\":",
    "\"5f161c9149882e0e10124bc5dd5c11f0fbe8ec452edd52bcec76b01e9252cb33\",\"store_f",
    "ormat_version\":1\x7d,\"schema_version\":1,\"server_only_paths\":[\"stack.md\"",
    ",\"state.md\"],\"server_url\":\"https://mcp.nauro.ai\"\x7d"].flatMap String.toList)

def backslashCapture : Bytes := captureJson "notes\\\\draft.txt"
def plainCapture : Bytes := captureJson "draft.txt"

def backslashPlan : Bytes :=
  planJson "notes\\\\draft.txt" "324a437b44bfa04429abb1b7e2924549373f0b0e8cfe445f9dfba294f43939de"
def plainPlan : Bytes :=
  planJson "draft.txt" "823f1c6e779e6dd0c81e2ecc89ab78049d2940b8f3bd4051724981a1d8e5c896"

def backslashCaptureDigest : Digest :=
  ⟨"324a437b44bfa04429abb1b7e2924549373f0b0e8cfe445f9dfba294f43939de".toList, by decide⟩
def plainCaptureDigest : Digest :=
  ⟨"823f1c6e779e6dd0c81e2ecc89ab78049d2940b8f3bd4051724981a1d8e5c896".toList, by decide⟩
def backslashPlanDigest : Digest :=
  ⟨"684c2a986426ab52dc81ddd4683e8112f46ecc767fe1a168baea7fa44b53426b".toList, by decide⟩
def plainPlanDigest : Digest :=
  ⟨"755c347a89c2b6a5747368e3297e35f762afc8dce4be0896e5ae9ffc62d2ad8a".toList, by decide⟩

def sampleMigrationRules : ProjectionRules where
  sha256 material :=
    if material = backslashCapture then backslashCaptureDigest
    else if material = plainCapture then plainCaptureDigest
    else if material = backslashPlan then backslashPlanDigest
    else if material = plainPlan then plainPlanDigest
    else sampleProjectionRules.sha256 material
  manifest := sampleProjectionRules.manifest

theorem sample_bytes_distinct :
    [heldJson, stackBytes, stateBytes, backslashCapture, plainCapture, backslashPlan,
      plainPlan].Nodup := by
  decide +kernel

theorem sampleMigrationRules_other {material : Bytes}
    (hother : material ∉ [backslashCapture, plainCapture, backslashPlan, plainPlan]) :
    sampleMigrationRules.sha256 material = sampleProjectionRules.sha256 material := by
  simp only [List.mem_cons, List.not_mem_nil, or_false, not_or] at hother
  obtain ⟨hback, hplain, hbackPlan, hplainPlan⟩ := hother
  show (if _ then _ else _) = _
  rw [if_neg hback, if_neg hplain, if_neg hbackPlan, if_neg hplainPlan]

theorem sample_migration_digests :
    sampleMigrationRules.sha256 heldJson = heldDigest ∧
      sampleMigrationRules.sha256 stackBytes = stackDigest ∧
      sampleMigrationRules.sha256 stateBytes = stateDigest ∧
      sampleMigrationRules.sha256 backslashCapture = backslashCaptureDigest ∧
      sampleMigrationRules.sha256 plainCapture = plainCaptureDigest ∧
      sampleMigrationRules.sha256 backslashPlan = backslashPlanDigest ∧
      sampleMigrationRules.sha256 plainPlan = plainPlanDigest := by
  have hdistinct := sample_bytes_distinct
  simp only [List.nodup_cons, List.mem_cons, List.not_mem_nil, or_false, not_or] at hdistinct
  obtain ⟨hheld, hstack, hstate, hback, hplain, hbackPlan, -⟩ := hdistinct
  obtain ⟨hheldDigest, -, hstackDigest, hstateDigest, -⟩ := sample_digests
  refine ⟨?_, ?_, ?_, if_pos rfl, ?_, ?_, ?_⟩
  · rw [sampleMigrationRules_other (by simp [hheld]), hheldDigest]
  · rw [sampleMigrationRules_other (by simp [hstack]), hstackDigest]
  · rw [sampleMigrationRules_other (by simp [hstate]), hstateDigest]
  · exact (if_neg (Ne.symm hback.1)).trans (if_pos rfl)
  · exact (if_neg (Ne.symm hback.2.1)).trans ((if_neg (Ne.symm hplain.1)).trans (if_pos rfl))
  · exact (if_neg (Ne.symm hback.2.2)).trans ((if_neg (Ne.symm hplain.2)).trans
      ((if_neg (Ne.symm hbackPlan)).trans (if_pos rfl)))

def sampleMigrationProjection : VerifiedProjection sampleMigrationRules where
  target := heldProjection.target
  manifestJson := heldJson
  manifest := heldManifest
  artifacts := heldProjection.artifacts
  parsed := by
    obtain ⟨hheld, -⟩ := sample_migration_digests
    have hload : sampleMigrationRules.manifest.load? heldJson = some heldManifest := by
      show (if heldJson = heldJson then some heldManifest else _) = _
      exact if_pos rfl
    have hdump : sampleMigrationRules.manifest.dump heldManifest = heldJson := by
      show (if heldManifest.artifacts.length = 2 then heldJson else priorJson) = _
      exact if_pos rfl
    exact parseManifest_of_canonical hheld hload hdump rfl (by decide)
  listed := by
    obtain ⟨-, hstack, hstate, -⟩ := sample_migration_digests
    show [_, _].map _ = _
    rw [List.map_cons, List.map_singleton, hstack, hstate]
    rfl

/-- A store with one file. -/
def sampleStore (name : FileName) : FileTree where
  entries := [([name], .leaf (.regular ⟨stateBytes, 0, (1, 2)⟩))]
  distinct := List.nodup_singleton _
  nested e hin := ⟨[], name, by rw [List.mem_singleton.mp hin]; rfl, Or.inl rfl⟩

def backslashPath : Text := "notes\\draft.txt".toList
def plainPath : Text := "draft.txt".toList
def backslashName : FileName := ⟨utf8 backslashPath, by decide, by decide⟩
def plainName : FileName := ⟨utf8 plainPath, by decide, by decide⟩

def sampleCapture (capture : Capture) : Bytes :=
  if capture.unsupported = [backslashPath] then backslashCapture else plainCapture

def sampleInventory (path : Text) : Inventory where
  files := [⟨path, 8, stateDigest⟩]
  directories := []
  pending := []

def sampleAssessment (path : Text) : LegacyMigrationAssessment sampleMigrationRules :=
  classify sampleCapture sampleMigrationProjection (sampleInventory path)

def samplePayload (path : Text) (capture : Digest) : PlanPayload where
  migrationId := sampleIdentity.migrationId.text
  createdAt := sampleIdentity.createdAt.text
  backupDirectoryName :=
    "legacy-backup-01K00000000000000000000000-20260712T100000000000Z-01K00000000000000000000002".toList
  projectId := sampleProjectId.text
  serverUrl := some "https://mcp.nauro.ai".toList
  directoryPaths := []
  assessmentCaptureDigest := capture.text
  projection := heldProjection.target.identity
  serverOnlyPaths := ["stack.md".toList, "state.md".toList]
  entries :=
    [{ sourcePath := path
       destinationPath := "legacy/".toList ++ path
       size := 8
       sha256 := stateDigest.text
       sourceClass := .evidence
       disposition := .legacyBackup
       recoveryKind := .preservedUnsupported
       recoveryRoutes := []
       offerExport := true }]

def samplePlanFormat : PlanFormat where
  dump payload := if payload.entries.map LegacyMigrationPlanEntry.sourcePath = [backslashPath] then
    backslashPlan else plainPlan
  load? raw :=
    if raw = backslashPlan then some (samplePayload backslashPath backslashCaptureDigest)
    else if raw = plainPlan then some (samplePayload plainPath plainCaptureDigest)
    else none

def sampleRecord (planDigest : Digest) : MigrationAdmission where
  migrationId := sampleIdentity.migrationId
  projectId := sampleProjectId
  actor := sampleProjectId
  endpoint := "https://mcp.nauro.ai".toList
  planDigest := planDigest

theorem sample_inventory :
    inventory sampleMigrationRules.sha256 (sampleStore backslashName) =
        .ok (sampleInventory backslashPath) ∧
      inventory sampleMigrationRules.sha256 (sampleStore plainName) =
        .ok (sampleInventory plainPath) := by
  decide +kernel

theorem sample_captureDigest :
    (sampleAssessment backslashPath).captureDigest = backslashCaptureDigest ∧
      (sampleAssessment plainPath).captureDigest = plainCaptureDigest := by
  obtain ⟨-, -, -, hbackslash, hplain, -⟩ := sample_migration_digests
  exact ⟨hbackslash, hplain⟩

theorem sample_preparePayload :
    preparePayload (sampleAssessment backslashPath) sampleIdentity =
        .ok (samplePayload backslashPath backslashCaptureDigest) ∧
      preparePayload (sampleAssessment plainPath) sampleIdentity =
        .ok (samplePayload plainPath plainCaptureDigest) := by
  obtain ⟨hbackslash, hplain⟩ := sample_captureDigest
  have hpayloads : preparePayload { sampleAssessment backslashPath with
          captureDigest := backslashCaptureDigest } sampleIdentity =
        .ok (samplePayload backslashPath backslashCaptureDigest) ∧
      preparePayload { sampleAssessment plainPath with
          captureDigest := plainCaptureDigest } sampleIdentity =
        .ok (samplePayload plainPath plainCaptureDigest) := by
    decide +kernel
  have hof : ∀ (assessment : LegacyMigrationAssessment sampleMigrationRules) (digest : Digest)
      (payload : PlanPayload), assessment.captureDigest = digest →
      preparePayload { assessment with captureDigest := digest } sampleIdentity = .ok payload →
        preparePayload assessment sampleIdentity = .ok payload := by
    rintro assessment digest payload rfl hpayload
    exact hpayload
  exact ⟨hof _ _ _ hbackslash hpayloads.1, hof _ _ _ hplain hpayloads.2⟩

theorem plainPlan_ne : plainPlan ≠ backslashPlan := by
  have hdistinct := sample_bytes_distinct
  simp only [List.nodup_cons, List.mem_cons, List.not_mem_nil, or_false, not_or] at hdistinct
  exact Ne.symm hdistinct.2.2.2.2.2.1

def samplePlan (path : Text) (capture : Digest) (manifestJson : Bytes) (planDigest : Digest) :
    LegacyMigrationPlan where
  migrationId := sampleIdentity.migrationId
  createdAt := sampleIdentity.createdAt
  backupDirectoryName := (samplePayload path capture).backupDirectoryName
  entries := (samplePayload path capture).entries
  manifestJson := manifestJson
  planDigest := planDigest


theorem sample_prepared :
    prepareLegacyMigrationPlan samplePlanFormat (sampleAssessment backslashPath) sampleIdentity =
        .ok (samplePlan backslashPath backslashCaptureDigest backslashPlan backslashPlanDigest) ∧
      prepareLegacyMigrationPlan samplePlanFormat (sampleAssessment plainPath) sampleIdentity =
        .ok (samplePlan plainPath plainCaptureDigest plainPlan plainPlanDigest) := by
  obtain ⟨-, -, -, -, -, hbackslash, hplain⟩ := sample_migration_digests
  constructor
  · rw [prepareLegacyMigrationPlan, sample_preparePayload.1]
    show Except.ok (LegacyMigrationPlan.mk _ _ _ _ backslashPlan
      (sampleMigrationRules.sha256 backslashPlan)) = _
    rw [hbackslash]
    rfl
  · rw [prepareLegacyMigrationPlan, sample_preparePayload.2]
    show Except.ok (LegacyMigrationPlan.mk _ _ _ _ plainPlan
      (sampleMigrationRules.sha256 plainPlan)) = _
    rw [hplain]
    rfl

theorem sample_assessed :
    assessLegacyMigration sampleCapture sampleMigrationProjection (sampleStore backslashName) =
        .ok (sampleAssessment backslashPath) ∧
      assessLegacyMigration sampleCapture sampleMigrationProjection (sampleStore plainName) =
        .ok (sampleAssessment plainPath) := by
  have hroot : ∀ name ∈ [backslashName, plainName],
      requireLegacyRoot (sampleStore name) = .ok () ∧
        requireEmptyControlLock (sampleStore name) = .ok () := by
    decide +kernel
  have hassess : ∀ name ∈ [backslashName, plainName], ∀ path,
      inventory sampleMigrationRules.sha256 (sampleStore name) = .ok (sampleInventory path) →
        assessLegacyMigration sampleCapture sampleMigrationProjection (sampleStore name) =
          .ok (sampleAssessment path) := by
    intro name hin path hfound
    rw [assessLegacyMigration, (hroot name hin).1, (hroot name hin).2, hfound]
    rfl
  exact ⟨hassess _ List.mem_cons_self _ sample_inventory.1,
    hassess _ (List.mem_cons_of_mem _ List.mem_cons_self) _ sample_inventory.2⟩

/-- The plan of a store with one plain file covers the store, and it is read back. -/
theorem migration_plan_iff_sample :
    ∃ plan, prepareLegacyMigrationPlan samplePlanFormat (sampleAssessment plainPath)
          sampleIdentity = .ok plan ∧
        Covers sampleMigrationRules.sha256 (sampleStore plainName) plan.entries ∧
        ∃ decoded, decodeMigrationPlan samplePlanFormat plan.manifestJson
            (sampleRecord plainPlanDigest) = .ok decoded ∧ decoded.entries = plan.entries := by
  have hformat : ∀ payload, preparePayload (sampleAssessment plainPath) sampleIdentity =
      .ok payload → samplePlanFormat.load? (samplePlanFormat.dump payload) = some payload := by
    intro payload hpayload
    rw [sample_preparePayload.2] at hpayload
    cases hpayload
    show (if plainPlan = backslashPlan then _ else if plainPlan = plainPlan then _ else _) = _
    rw [if_neg plainPlan_ne, if_pos rfl]
  obtain ⟨plan, hplan, hiff⟩ := migration_plan_iff sampleMigrationRules sampleCapture
    samplePlanFormat sampleMigrationProjection (sampleStore plainName) sampleIdentity
    (sampleAssessment plainPath) sample_assessed.2 rfl hformat
  have hsample := hplan
  rw [sample_prepared.2] at hsample
  cases hsample
  refine ⟨_, hplan, (hiff (sampleRecord plainPlanDigest) ⟨rfl, rfl, rfl, rfl, rfl⟩).mpr ?_⟩
  intro e hin name hname
  rw [List.mem_singleton.mp hin] at hname
  rw [List.mem_singleton.mp hname]
  decide

/-- A plan is prepared for a store with a backslash in a name, and refused when it is read. -/
theorem backslash_plan_refused :
    ∃ assessment plan,
      assessLegacyMigration sampleCapture sampleMigrationProjection (sampleStore backslashName) =
          .ok assessment ∧
        assessment.readyForBackup = true ∧
        prepareLegacyMigrationPlan samplePlanFormat assessment sampleIdentity = .ok plan ∧
        Matches (sampleRecord backslashPlanDigest) assessment plan ∧
        decodeMigrationPlan samplePlanFormat plan.manifestJson
          (sampleRecord backslashPlanDigest) = .error .unsafePath := by
  refine ⟨_, _, sample_assessed.1, rfl, sample_prepared.1, ⟨rfl, rfl, rfl, rfl, rfl⟩, ?_⟩
  have hload : samplePlanFormat.load? backslashPlan =
      some (samplePayload backslashPath backslashCaptureDigest) := if_pos rfl
  show decodeMigrationPlan samplePlanFormat backslashPlan _ = _
  rw [decodeMigrationPlan, hload]
  decide +kernel

end Migration
end Client
end Nauro
