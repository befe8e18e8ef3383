import Nauro.Client.GenerationAudit
import Nauro.Client.LegacyInventory
import Nauro.Client.Restore

/-!
# Plans to preserve a legacy store

A plan has an entry for every file of an assessed store, with the place where the file is kept.
It is written to a file, and read back before anything is preserved.

* `planEntries?_classify` — an assessment has a plan, with one entry for every file.
-/

namespace Nauro
namespace Client
namespace Migration

open Foundation Foundation.EscapedUtf8 Nauro.Core Nauro.Sync Installation

/-! ## Entries -/

inductive SourceClass where
  | identical
  | divergent
  | localOnly
  | snapshot
  | evidence
deriving DecidableEq

inductive Disposition where
  | legacyBackup
  | quarantine
deriving DecidableEq

inductive RecoveryKind where
  | archiveOnly
  | restoreOnly
  | typedResubmission
  | preservedUnsupported
deriving DecidableEq

inductive RecoveryRoute where
  | proposeDecision
deriving DecidableEq

structure LegacyMigrationPlanEntry where
  sourcePath : Text
  destinationPath : Text
  size : Int
  sha256 : Text
  sourceClass : SourceClass
  disposition : Disposition
  recoveryKind : RecoveryKind
  recoveryRoutes : List RecoveryRoute
  offerExport : Bool
deriving DecidableEq

def decisionsPrefix : Text := "decisions/".toList

/-- The directory that a disposition leads to, with its slash. -/
def Disposition.prefixText : Disposition → Text
  | .legacyBackup => "legacy/".toList
  | .quarantine => "quarantine/".toList

/-- `_recovery_routes`. -/
def recoveryRoutes (path : Text) : List RecoveryRoute :=
  if decisionsPrefix.isPrefixOf path then [.proposeDecision] else []

/-- `_protected_entry`. -/
def protectedEntry (stamp : LegacyFileStamp) (sourceClass : SourceClass) :
    LegacyMigrationPlanEntry :=
  if sourceClass = .identical then
    { sourcePath := stamp.path
      destinationPath := "legacy/".toList ++ stamp.path
      size := stamp.size
      sha256 := stamp.sha256.text
      sourceClass := sourceClass
      disposition := .legacyBackup
      recoveryKind := .restoreOnly
      recoveryRoutes := []
      offerExport := false }
  else
    let routes := recoveryRoutes stamp.path
    { sourcePath := stamp.path
      destinationPath := "quarantine/".toList ++ stamp.path
      size := stamp.size
      sha256 := stamp.sha256.text
      sourceClass := sourceClass
      disposition := .quarantine
      recoveryKind := if routes = [] then .preservedUnsupported else .typedResubmission
      recoveryRoutes := routes
      offerExport := routes = [] }

/-- `_archive_entry`. -/
def archiveEntry (sourceClass : SourceClass) (stamp : LegacyFileStamp) :
    LegacyMigrationPlanEntry where
  sourcePath := stamp.path
  destinationPath := "legacy/".toList ++ stamp.path
  size := stamp.size
  sha256 := stamp.sha256.text
  sourceClass := sourceClass
  disposition := .legacyBackup
  recoveryKind := if sourceClass = .snapshot then .archiveOnly else .preservedUnsupported
  recoveryRoutes := []
  offerExport := true

/-! ## Preparing -/

inductive PlanError where
  | pendingPaths
  | malformedProtected
  | overlappingClasses
  | incompleteClasses
  | divergingClasses
  | malformedSnapshots
  /-- A key error: a protected file has no class. -/
  | unclassified
deriving DecidableEq

variable {rules : ProjectionRules}

/-- Two lists of one set. -/
def sameSet (xs ys : List Text) : Bool :=
  xs.all ys.contains && ys.all xs.contains

def disjoint (xs ys : List Text) : Bool :=
  xs.all fun x => !ys.contains x

/-- `_validate_assessment`. -/
def validateAssessment (assessment : LegacyMigrationAssessment rules) : Except PlanError Unit :=
  let protectedPaths := assessment.protectedFiles.map LegacyFileStamp.path
  let server := serverDigests assessment.projection
  let serverPaths := server.map Prod.fst
  let identical := (assessment.protectedFiles.filter fun stamp =>
    server.lookup stamp.path = some stamp.sha256).map LegacyFileStamp.path
  let divergent := protectedPaths.filter fun path =>
    serverPaths.contains path && !identical.contains path
  let localOnly := protectedPaths.filter fun path => !serverPaths.contains path
  let serverOnly := serverPaths.filter fun path => !protectedPaths.contains path
  if !assessment.readyForBackup then .error .pendingPaths
  else if ¬ protectedPaths.Nodup then .error .malformedProtected
  else if !disjoint assessment.identicalPaths assessment.divergentPaths ||
      !disjoint assessment.identicalPaths assessment.localOnlyPaths ||
      !disjoint assessment.divergentPaths assessment.localOnlyPaths then
    .error .overlappingClasses
  else if !sameSet (assessment.identicalPaths ++ assessment.divergentPaths ++
      assessment.localOnlyPaths) protectedPaths then
    .error .incompleteClasses
  else if !sameSet assessment.identicalPaths identical ||
      !sameSet assessment.divergentPaths divergent ||
      !sameSet assessment.localOnlyPaths localOnly ||
      !sameSet assessment.serverOnlyPaths serverOnly then
    .error .divergingClasses
  else if !assessment.snapshotFiles.all fun stamp => snapshotsPrefix.isPrefixOf stamp.path then
    .error .malformedSnapshots
  else if ¬ (assessment.snapshotFiles.map LegacyFileStamp.path).Nodup then
    .error .malformedSnapshots
  else .ok ()

/-- The class of a protected path; a later class replaces an earlier one. -/
def classOf? (assessment : LegacyMigrationAssessment rules) (path : Text) : Option SourceClass :=
  if assessment.localOnlyPaths.contains path then some .localOnly
  else if assessment.divergentPaths.contains path then some .divergent
  else if assessment.identicalPaths.contains path then some .identical
  else none

/-- `_migration_identity`, without the name of the file. -/
structure MigrationIdentity where
  migrationId : Ulid
  createdAt : Timestamp

/-- The time with neither hyphens nor colons nor points. -/
def filenameTime (createdAt : Timestamp) : Text :=
  createdAt.text.filter fun c => c.isDigit || c = 'T' || c = 'Z'

def backupPrefix (projectId : Text) : Text :=
  "legacy-backup-".toList ++ projectId ++ "-".toList

def backupName (projectId : Text) (identity : MigrationIdentity) : Text :=
  backupPrefix projectId ++ filenameTime identity.createdAt ++ "-".toList ++
    identity.migrationId.text

/-- The contents of a plan file, of the one schema there is. -/
structure PlanPayload where
  migrationId : Text
  createdAt : Text
  backupDirectoryName : Text
  projectId : Text
  serverUrl : Option Text
  directoryPaths : List Text
  assessmentCaptureDigest : Text
  projection : ProjectionIdentity
  serverOnlyPaths : List Text
  entries : List LegacyMigrationPlanEntry
deriving DecidableEq

/-- The entries of an assessment that was validated; none when a protected file has no class. -/
def planEntries? (assessment : LegacyMigrationAssessment rules) :
    Option (List LegacyMigrationPlanEntry) := do
  let kept ← assessment.protectedFiles.mapM fun stamp =>
    (classOf? assessment stamp.path).map (protectedEntry stamp)
  let entries := kept ++ assessment.snapshotFiles.map (archiveEntry .snapshot) ++
    assessment.evidenceFiles.map (archiveEntry .evidence)
  some (entries.insertionSort fun a b => a.sourcePath ≤ b.sourcePath)

def preparePayload (assessment : LegacyMigrationAssessment rules) (identity : MigrationIdentity) :
    Except PlanError PlanPayload := do
  validateAssessment assessment
  match planEntries? assessment with
  | none => .error .unclassified
  | some entries =>
      let projectId := assessment.projection.target.identity.projectId.text
      .ok
        { migrationId := identity.migrationId.text
          createdAt := identity.createdAt.text
          backupDirectoryName := backupName projectId identity
          projectId := projectId
          serverUrl := assessment.projection.target.binding.serverUrl
          directoryPaths := assessment.directoryPaths
          assessmentCaptureDigest := assessment.captureDigest.text
          projection := assessment.projection.target.identity
          serverOnlyPaths := assessment.serverOnlyPaths
          entries := entries }

structure LegacyMigrationPlan where
  migrationId : Ulid
  createdAt : Timestamp
  backupDirectoryName : Text
  entries : List LegacyMigrationPlanEntry
  manifestJson : Bytes
  planDigest : Digest

/-- The canonical bytes of plans, and the strict reader of the plan model. -/
abbrev PlanFormat := Codec PlanPayload Bytes

def prepareLegacyMigrationPlan (format : PlanFormat)
    (assessment : LegacyMigrationAssessment rules) (identity : MigrationIdentity) :
    Except PlanError LegacyMigrationPlan := do
  let payload ← preparePayload assessment identity
  let manifestJson := format.dump payload
  .ok
    { migrationId := identity.migrationId
      createdAt := identity.createdAt
      backupDirectoryName := payload.backupDirectoryName
      entries := payload.entries
      manifestJson := manifestJson
      planDigest := rules.sha256 manifestJson }

/-! ## Reading back -/

/-- What an admission says of the plan it admits. -/
structure MigrationAdmission where
  migrationId : Ulid
  projectId : Ulid
  actor : Ulid
  endpoint : Text
  planDigest : Digest

inductive DecodeError where
  | invalid
  | bindingDiffers
  | unsafePath
  | locationDiffers
  | entryDiffers
  | invalidDigest
deriving DecidableEq

/-- `_relative`. -/
def relative (value : Text) : Except DecodeError Text :=
  if value = [] ∨ value = ".".toList ∨ value.head? = some '/' ∨ "..".toList ∈ pathParts value ∨
      '\\' ∈ value ∨ asPosix value ≠ value then
    .error .unsafePath
  else .ok value

/-- The checks of one entry. -/
def checkEntry (entry : LegacyMigrationPlanEntry) : Except DecodeError Unit := do
  let source ← relative entry.sourcePath
  if entry.destinationPath ≠ entry.disposition.prefixText ++ source ∨ entry.size < 0 then
    .error .entryDiffers
  else if isDigest entry.sha256 then .ok ()
  else .error .invalidDigest

/-- The checks of one thing after another. -/
def checkAll {A : Type} (check : A → Except DecodeError Unit) : List A → Except DecodeError Unit
  | [] => .ok ()
  | a :: rest => do
      check a
      checkAll check rest

/-- `decode_migration_plan`. -/
def decodeMigrationPlan (format : PlanFormat) (raw : Bytes) (record : MigrationAdmission) :
    Except DecodeError PlanPayload :=
  match format.load? raw with
  | none => .error .invalid
  | some plan =>
      match plan.serverUrl with
      | none => .error .invalid
      | some serverUrl =>
          if plan.migrationId ≠ record.migrationId.text ∨ plan.projectId ≠ record.projectId.text ∨
              serverUrl ≠ record.endpoint ∨ plan.projection.installedForUserId ≠ record.actor ∨
              plan.projection.projectId ≠ record.projectId ∨
              ¬ (plan.entries.map LegacyMigrationPlanEntry.sourcePath).Nodup then
            .error .bindingDiffers
          else do
            let name ← relative plan.backupDirectoryName
            if '/' ∈ name ∨ !(backupPrefix record.projectId.text).isPrefixOf name ∨
                !("-".toList ++ record.migrationId.text).isSuffixOf name then
              .error .locationDiffers
            else do
              checkAll (fun directory => (relative directory).map fun _ => ()) plan.directoryPaths
              checkAll checkEntry plan.entries
              .ok plan

/-! ## Relative paths -/

theorem relative_ok {value found : Text} (h : relative value = .ok found) :
    found = value ∧ '\\' ∉ value := by
  unfold relative at h
  split_ifs at h with hunsafe
  simp only [not_or] at hunsafe
  exact ⟨(Except.ok.inj h).symm, hunsafe.2.2.2.2.1⟩

/-- A text whose parts are names is refused for a backslash only. -/
theorem relative_of_parts {value : Text} (hplain : '\\' ∉ value)
    (hparts : ∀ segment ∈ value.splitOn '/',
      segment ≠ [] ∧ segment ≠ ".".toList ∧ segment ≠ "..".toList) : relative value = .ok value := by
  have hpathParts : pathParts value = value.splitOn '/' := by
    rw [pathParts, List.filter_eq_self]
    intro segment hsegment
    obtain ⟨hne, hdot, -⟩ := hparts segment hsegment
    exact decide_eq_true ⟨hne, hdot⟩
  have hposix : asPosix value = value := by
    rw [asPosix, hpathParts, if_neg (List.splitOn_ne_nil '/' value), List.intercalate_splitOn]
  refine if_neg ?_
  rw [hpathParts, hposix]
  simp only [not_or, not_not]
  refine ⟨?_, ?_, ?_, fun hin => (hparts _ hin).2.2 rfl, hplain, trivial⟩
  · rintro rfl
    exact (hparts [] (List.mem_singleton_self _)).1 rfl
  · rintro rfl
    exact (hparts ".".toList (List.mem_singleton_self _)).2.1 rfl
  · intro hhead
    obtain ⟨rest, rfl⟩ := List.head?_eq_some_iff.mp hhead
    refine (hparts [] ?_).1 rfl
    rw [LineText.splitOn_cons_sep]
    exact List.mem_cons_self

theorem relative_of_path {path : List FileName} {value : Text} (hne : path ≠ [])
    (hpath : pathPoints path = pointsOf value) (hplain : '\\' ∉ value) :
    relative value = .ok value := by
  refine relative_of_parts hplain fun segment hsegment => ?_
  have hnative := nativePath?_eq_some_iff_map.mp ((nativePath?_eq_some_iff hne).mpr hpath)
  have hin : pointsOf segment ∈ path.map FileName.points := by
    rw [hnative]
    exact List.mem_map_of_mem hsegment
  obtain ⟨name, -, hname⟩ := List.mem_map.mp hin
  have hbytes : name.bytes = utf8 segment := by
    rw [← encode_decode name.bytes, show decode name.bytes = pointsOf segment from hname]
    rfl
  obtain ⟨hempty, hdot, hdots⟩ := name.named
  refine ⟨?_, ?_, ?_⟩
  · rintro rfl
    exact hempty hbytes
  · rintro rfl
    exact hdot hbytes
  · rintro rfl
    exact hdots hbytes

/-! ## The plan of an assessment -/

theorem not_isProtectedMember_of_isSnapshot {stamp : LegacyFileStamp}
    (h : isSnapshot stamp = true) : isProtectedMember stamp.path = false := by
  refine eq_false_of_ne_true fun hmember => ?_
  obtain ⟨rest, hrest⟩ := List.isPrefixOf_iff_prefix.mp (Bool.and_eq_true_iff.mp h).1
  have hsplit : stamp.path.splitOn '/' = "snapshots".toList :: rest.splitOn '/' := by
    rw [← hrest]
    show ("snapshots".toList ++ '/' :: rest).splitOn '/' = _
    rw [List.splitOn_append_cons_self, List.splitOn_eq_singleton (by decide)]
    rfl
  rcases isProtectedMember_shape hmember with ⟨-, htop⟩ | ⟨dir, name, hdir, hbelow⟩
  · rw [hsplit] at htop
    exact List.splitOn_ne_nil '/' rest (List.cons.inj htop).2
  · rw [hsplit] at hbelow
    have hhead := (List.cons.inj hbelow).1
    rcases hdir with rfl | rfl
    · exact absurd hhead (by decide)
    · exact absurd hhead (by decide)

/-- An entry for a file. -/
structure EntryOf (stamp : LegacyFileStamp) (entry : LegacyMigrationPlanEntry) : Prop where
  source : entry.sourcePath = stamp.path
  size : entry.size = stamp.size
  sha256 : entry.sha256 = stamp.sha256.text
  destination : entry.destinationPath = entry.disposition.prefixText ++ stamp.path

theorem entryOf_protectedEntry (stamp : LegacyFileStamp) (sourceClass : SourceClass) :
    EntryOf stamp (protectedEntry stamp sourceClass) := by
  unfold protectedEntry
  split
  · exact ⟨rfl, rfl, rfl, rfl⟩
  · exact ⟨rfl, rfl, rfl, rfl⟩

theorem entryOf_archiveEntry (sourceClass : SourceClass) (stamp : LegacyFileStamp) :
    EntryOf stamp (archiveEntry sourceClass stamp) :=
  ⟨rfl, rfl, rfl, rfl⟩

theorem path_eq_of_prefixText {disposition disposition' : Disposition} {path path' : Text}
    (h : disposition.prefixText ++ path = disposition'.prefixText ++ path') : path = path' := by
  have hheads : some 'l' ≠ some 'q' := by decide
  cases disposition with
  | legacyBackup =>
      cases disposition' with
      | legacyBackup => exact List.append_cancel_left h
      | quarantine => exact absurd (congrArg List.head? h) hheads
  | quarantine =>
      cases disposition' with
      | legacyBackup => exact absurd (congrArg List.head? h).symm hheads
      | quarantine => exact List.append_cancel_left h

/-- The destinations of two files are two. -/
theorem EntryOf.path_eq {stamp stamp' : LegacyFileStamp} {entry entry' : LegacyMigrationPlanEntry}
    (h : EntryOf stamp entry) (h' : EntryOf stamp' entry')
    (hdestination : entry.destinationPath = entry'.destinationPath) :
    stamp.path = stamp'.path := by
  rw [h.destination, h'.destination] at hdestination
  exact path_eq_of_prefixText hdestination

/-! ## The classes of an assessment -/

section Classes

variable {capture : Capture → Bytes} {projection : VerifiedProjection rules} {found : Inventory}

theorem mem_pathsWhere {stamps : List LegacyFileStamp} {server : List (Text × Digest)}
    {told : LegacyFileStamp → Option Digest → Bool} {path : Text} :
    path ∈ pathsWhere stamps server told ↔
      ∃ stamp ∈ stamps, told stamp (server.lookup stamp.path) = true ∧ stamp.path = path := by
  rw [pathsWhere, mem_sortPaths, List.mem_map]
  constructor
  · rintro ⟨stamp, hin, rfl⟩
    obtain ⟨hin, htold⟩ := List.mem_filter.mp hin
    exact ⟨stamp, hin, htold, rfl⟩
  · rintro ⟨stamp, hin, htold, rfl⟩
    exact ⟨stamp, List.mem_filter.mpr ⟨hin, htold⟩, rfl⟩

/-- A file has a path in a class just when it is of that class. -/
theorem mem_pathsWhere_iff {stamps : List LegacyFileStamp} {server : List (Text × Digest)}
    {told : LegacyFileStamp → Option Digest → Bool}
    (hdistinct : (stamps.map LegacyFileStamp.path).Nodup) {stamp : LegacyFileStamp}
    (hin : stamp ∈ stamps) :
    stamp.path ∈ pathsWhere stamps server told ↔
      told stamp (server.lookup stamp.path) = true := by
  rw [mem_pathsWhere]
  constructor
  · rintro ⟨other, hother, htold, hpath⟩
    rwa [List.inj_on_of_nodup_map hdistinct hother hin hpath] at htold
  · exact fun htold => ⟨stamp, hin, htold, rfl⟩

theorem sameSet_iff {xs ys : List Text} : sameSet xs ys = true ↔ ∀ path, path ∈ xs ↔ path ∈ ys := by
  simp only [sameSet, Bool.and_eq_true, List.all_eq_true, List.contains_iff_mem]
  exact ⟨fun h path => ⟨h.1 path, h.2 path⟩, fun h => ⟨fun path => (h path).mp, fun path =>
    (h path).mpr⟩⟩

theorem disjoint_iff {xs ys : List Text} : disjoint xs ys = true ↔ ∀ path ∈ xs, path ∉ ys := by
  simp only [disjoint, List.all_eq_true, Bool.not_eq_true', List.contains_eq_mem,
    decide_eq_false_iff_not]

/-- Two classes that exclude each other share no path. -/
theorem disjoint_pathsWhere {stamps : List LegacyFileStamp} {server : List (Text × Digest)}
    {told told' : LegacyFileStamp → Option Digest → Bool}
    (hdistinct : (stamps.map LegacyFileStamp.path).Nodup)
    (hexclude : ∀ stamp digest, told stamp digest = true → told' stamp digest = false) :
    disjoint (pathsWhere stamps server told) (pathsWhere stamps server told') = true := by
  rw [disjoint_iff]
  intro path hpath hpath'
  obtain ⟨stamp, hin, htold, rfl⟩ := mem_pathsWhere.mp hpath
  have htold' := (mem_pathsWhere_iff hdistinct hin).mp hpath'
  rw [hexclude stamp _ htold] at htold'
  cases htold'

theorem isIdentical_cases (stamp : LegacyFileStamp) (digest : Option Digest) :
    (isIdentical stamp digest = true ∧ digest = some stamp.sha256) ∨
      (isDivergent stamp digest = true ∧ ∃ other, digest = some other ∧ other ≠ stamp.sha256) ∨
        digest = none := by
  cases digest with
  | none => exact Or.inr (Or.inr rfl)
  | some other =>
      by_cases hsame : other = stamp.sha256
      · exact Or.inl ⟨decide_eq_true (congrArg some hsame), congrArg some hsame⟩
      · exact Or.inr (Or.inl ⟨decide_eq_true hsame, other, rfl, hsame⟩)

theorem mem_keys_iff {server : List (Text × Digest)} {path : Text} :
    path ∈ server.map Prod.fst ↔ ∃ digest, server.lookup path = some digest := by
  constructor
  · intro hin
    cases hlookup : server.lookup path with
    | some digest => exact ⟨digest, rfl⟩
    | none =>
        obtain ⟨row, hrow, rfl⟩ := List.mem_map.mp hin
        have hmiss := List.lookup_eq_none_iff.mp hlookup row hrow
        exact absurd rfl (bne_iff_ne.mp hmiss)
  · rintro ⟨digest, hlookup⟩
    exact List.mem_map_of_mem (f := Prod.fst) (Table.mem_of_lookup hlookup)

theorem sameSet_divergent {stamps : List LegacyFileStamp} {server : List (Text × Digest)}
    (hdistinct : (stamps.map LegacyFileStamp.path).Nodup) :
    sameSet (pathsWhere stamps server isDivergent)
      ((stamps.map LegacyFileStamp.path).filter fun path =>
        (server.map Prod.fst).contains path &&
          !((stamps.filter fun stamp => server.lookup stamp.path = some stamp.sha256).map
            LegacyFileStamp.path).contains path) = true := by
  refine sameSet_iff.mpr fun path => ?_
  rw [List.mem_filter]
  simp only [Bool.and_eq_true, Bool.not_eq_true', List.contains_eq_mem, decide_eq_true_eq,
    decide_eq_false_iff_not]
  have hidentical {stamp : LegacyFileStamp} (hin : stamp ∈ stamps) :
      stamp.path ∈ (stamps.filter fun stamp =>
          server.lookup stamp.path = some stamp.sha256).map LegacyFileStamp.path ↔
        server.lookup stamp.path = some stamp.sha256 := by
    rw [← mem_sortPaths]
    show stamp.path ∈ pathsWhere stamps server isIdentical ↔ _
    rw [mem_pathsWhere_iff hdistinct hin]
    exact decide_eq_true_iff
  constructor
  · intro hpath
    obtain ⟨stamp, hin, htold, rfl⟩ := mem_pathsWhere.mp hpath
    obtain ⟨digest, hlookup, hother⟩ := (Option.any_eq_true ..).mp htold
    refine ⟨List.mem_map_of_mem hin, mem_keys_iff.mpr ⟨digest, hlookup⟩, ?_⟩
    rw [hidentical hin, hlookup]
    exact fun heq => of_decide_eq_true hother (Option.some.inj heq)
  · rintro ⟨hpath, hserver, hdiffers⟩
    obtain ⟨stamp, hin, rfl⟩ := List.mem_map.mp hpath
    obtain ⟨digest, hlookup⟩ := mem_keys_iff.mp hserver
    rw [hidentical hin, hlookup] at hdiffers
    refine mem_pathsWhere.mpr ⟨stamp, hin, ?_, rfl⟩
    rw [hlookup]
    exact decide_eq_true fun heq => hdiffers (congrArg some heq)

theorem sameSet_localOnly {stamps : List LegacyFileStamp} {server : List (Text × Digest)} :
    sameSet (pathsWhere stamps server fun _ digest => digest.isNone)
      ((stamps.map LegacyFileStamp.path).filter fun path =>
        !(server.map Prod.fst).contains path) = true := by
  refine sameSet_iff.mpr fun path => ?_
  have hlookup (path : Text) : (server.lookup path).isNone = true ↔ path ∉ server.map Prod.fst := by
    rw [mem_keys_iff, Option.isNone_iff_eq_none]
    cases server.lookup path <;> simp
  rw [mem_pathsWhere, List.mem_filter]
  simp only [Bool.not_eq_true', List.contains_eq_mem, decide_eq_false_iff_not]
  constructor
  · rintro ⟨stamp, hin, htold, rfl⟩
    exact ⟨List.mem_map_of_mem hin, (hlookup _).mp htold⟩
  · rintro ⟨hpath, hserver⟩
    obtain ⟨stamp, hin, rfl⟩ := List.mem_map.mp hpath
    exact ⟨stamp, hin, (hlookup _).mpr hserver, rfl⟩

/-- Every protected file has one of three classes. -/
theorem sameSet_classes (stamps : List LegacyFileStamp) (server : List (Text × Digest)) :
    sameSet (pathsWhere stamps server isIdentical ++ pathsWhere stamps server isDivergent ++
      pathsWhere stamps server fun _ digest => digest.isNone)
      (stamps.map LegacyFileStamp.path) = true := by
  refine sameSet_iff.mpr fun path => ?_
  rw [List.mem_append, List.mem_append]
  constructor
  · rintro ((hpath | hpath) | hpath)
    · obtain ⟨stamp, hin, -, rfl⟩ := mem_pathsWhere.mp hpath
      exact List.mem_map_of_mem hin
    · obtain ⟨stamp, hin, -, rfl⟩ := mem_pathsWhere.mp hpath
      exact List.mem_map_of_mem hin
    · obtain ⟨stamp, hin, -, rfl⟩ := mem_pathsWhere.mp hpath
      exact List.mem_map_of_mem hin
  · intro hpath
    obtain ⟨stamp, hin, rfl⟩ := List.mem_map.mp hpath
    rcases isIdentical_cases stamp (server.lookup stamp.path) with
      ⟨htold, -⟩ | ⟨htold, -⟩ | hnone
    · exact Or.inl (Or.inl (mem_pathsWhere.mpr ⟨stamp, hin, htold, rfl⟩))
    · exact Or.inl (Or.inr (mem_pathsWhere.mpr ⟨stamp, hin, htold, rfl⟩))
    · exact Or.inr (mem_pathsWhere.mpr ⟨stamp, hin, by rw [hnone]; rfl, rfl⟩)

theorem isDivergent_excludes (stamp : LegacyFileStamp) (digest : Option Digest)
    (h : isDivergent stamp digest = true) : digest.isNone = false := by
  cases digest with
  | none => cases h
  | some other => rfl

theorem isIdentical_excludes (stamp : LegacyFileStamp) (digest : Option Digest)
    (h : isIdentical stamp digest = true) :
    isDivergent stamp digest = false ∧ digest.isNone = false := by
  rw [isIdentical, decide_eq_true_iff] at h
  rw [h]
  exact ⟨decide_eq_false (not_not.mpr rfl), rfl⟩

/-- An assessment that is ready is one that a plan accepts. -/
theorem validateAssessment_classify
    (hdistinct : (found.files.map LegacyFileStamp.path).Nodup)
    (hready : (classify capture projection found).readyForBackup = true) :
    validateAssessment (classify capture projection found) = .ok () := by
  have hprotected : ((found.files.filter fun stamp => isProtectedMember stamp.path).map
      LegacyFileStamp.path).Nodup := (List.filter_sublist.map _).nodup hdistinct
  have hsnapshots : ((found.files.filter isSnapshot).map LegacyFileStamp.path).Nodup :=
    (List.filter_sublist.map _).nodup hdistinct
  have hleading : ((found.files.filter isSnapshot).all fun stamp =>
      snapshotsPrefix.isPrefixOf stamp.path) = true := by
    rw [List.all_eq_true]
    exact fun stamp hin => (Bool.and_eq_true_iff.mp (List.mem_filter.mp hin).2).1
  have hpending : found.pending.isEmpty = true := hready
  have hsorted (paths : List Text) : sameSet (sortPaths paths) paths = true :=
    sameSet_iff.mpr fun _ => mem_sortPaths
  unfold validateAssessment
  simp only [LegacyMigrationAssessment.readyForBackup, classify, hpending, Bool.not_true,
    Bool.false_eq_true, if_false, hprotected,
    not_true_eq_false, hleading, hsnapshots,
    disjoint_pathsWhere hprotected fun s d h => (isIdentical_excludes s d h).1,
    disjoint_pathsWhere hprotected fun s d h => (isIdentical_excludes s d h).2,
    disjoint_pathsWhere hprotected isDivergent_excludes, Bool.or_self, sameSet_classes,
    sameSet_localOnly, hsorted, Bool.or_false]
  refine if_neg ?_
  rw [Bool.not_eq_true, Bool.or_eq_false_iff, Bool.not_eq_false', Bool.not_eq_false']
  exact ⟨hsorted _, sameSet_divergent hprotected⟩

theorem mapM_eq_some_map {A B : Type} {f : A → Option B} {g : A → B} {xs : List A}
    (h : ∀ x ∈ xs, f x = some (g x)) : xs.mapM f = some (xs.map g) := by
  induction xs with
  | nil => rfl
  | cons x xs ih =>
      obtain ⟨hx, hxs⟩ := List.forall_mem_cons.mp h
      rw [List.mapM_cons, hx, ih hxs]
      rfl

theorem classOf?_isSome {stamp : LegacyFileStamp}
    (hin : stamp ∈ (classify capture projection found).protectedFiles) :
    ((classOf? (classify capture projection found) stamp.path)).isSome = true := by
  have hclasses := sameSet_iff.mp (sameSet_classes (classify capture projection found).protectedFiles
    (serverDigests projection))
  have hclass := (hclasses stamp.path).mpr (List.mem_map_of_mem hin)
  rw [List.mem_append, List.mem_append] at hclass
  unfold classOf?
  split_ifs with hlocal hdivergent hidentical
  · rfl
  · rfl
  · rfl
  · rw [List.contains_iff_mem] at hlocal hdivergent hidentical
    rcases hclass with (hpath | hpath) | hpath
    · exact absurd hpath hidentical
    · exact absurd hpath hdivergent
    · exact absurd hpath hlocal

/-- The entry that a plan has for a file. -/
def entryFor (assessment : LegacyMigrationAssessment rules) (stamp : LegacyFileStamp) :
    LegacyMigrationPlanEntry :=
  if isProtectedMember stamp.path then
    protectedEntry stamp ((classOf? assessment stamp.path).getD .identical)
  else if isSnapshot stamp then archiveEntry .snapshot stamp
  else archiveEntry .evidence stamp

theorem entryOf_entryFor (assessment : LegacyMigrationAssessment rules)
    (stamp : LegacyFileStamp) : EntryOf stamp (entryFor assessment stamp) := by
  unfold entryFor
  split_ifs
  · exact entryOf_protectedEntry stamp _
  · exact entryOf_archiveEntry .snapshot stamp
  · exact entryOf_archiveEntry .evidence stamp

theorem filter_append_filter_perm {A : Type} {p q : A → Bool} {xs : List A}
    (h : ∀ x, q x = true → p x = false) :
    (xs.filter p ++ xs.filter q).Perm (xs.filter fun x => p x || q x) := by
  have hsplit := List.filter_append_perm p (xs.filter fun x => p x || q x)
  rw [List.filter_filter, List.filter_filter] at hsplit
  have hp : (fun x => p x && (p x || q x)) = p := by
    funext x
    cases p x <;> rfl
  have hq : (fun x => !p x && (p x || q x)) = q := by
    funext x
    cases hx : q x with
    | true => rw [h x hx]; rfl
    | false => cases p x <;> rfl
  rwa [hp, hq] at hsplit

/-- A path is known when its file is a member or a snapshot. -/
theorem known_iff {stamp : LegacyFileStamp} (hin : stamp ∈ found.files) :
    stamp.path ∈ (found.files.filter (fun stamp => isProtectedMember stamp.path) ++
        found.files.filter isSnapshot).map LegacyFileStamp.path ↔
      (isProtectedMember stamp.path || isSnapshot stamp) = true := by
  rw [List.map_append, List.mem_append, Bool.or_eq_true]
  constructor
  · rintro (hpath | hpath)
    · obtain ⟨other, hother, heq⟩ := List.mem_map.mp hpath
      rw [← heq]
      exact Or.inl (List.mem_filter.mp hother).2
    · obtain ⟨other, hother, heq⟩ := List.mem_map.mp hpath
      have hsnapshot := (List.mem_filter.mp hother).2
      unfold isSnapshot at hsnapshot ⊢
      rw [← heq]
      exact Or.inr hsnapshot
  · rintro (hmember | hsnapshot)
    · exact Or.inl (List.mem_map_of_mem (List.mem_filter.mpr ⟨hin, hmember⟩))
    · exact Or.inr (List.mem_map_of_mem (List.mem_filter.mpr ⟨hin, hsnapshot⟩))

/-- The plan has one entry for every file. -/
theorem planEntries?_classify (capture : Capture → Bytes) (projection : VerifiedProjection rules)
    (found : Inventory) :
    ∃ entries, planEntries? (classify capture projection found) = some entries ∧
      entries.Perm (found.files.map (entryFor (classify capture projection found))) := by
  have hkept : (classify capture projection found).protectedFiles.mapM (fun stamp =>
      (classOf? (classify capture projection found) stamp.path).map (protectedEntry stamp)) =
        some ((classify capture projection found).protectedFiles.map
          (entryFor (classify capture projection found))) := by
    refine mapM_eq_some_map fun stamp hin => ?_
    obtain ⟨sourceClass, hclass⟩ := Option.isSome_iff_exists.mp (classOf?_isSome hin)
    have hmember : isProtectedMember stamp.path = true := (List.mem_filter.mp hin).2
    rw [hclass, entryFor, if_pos hmember, hclass]
    rfl
  have hsnapshots : (classify capture projection found).snapshotFiles.map
      (archiveEntry .snapshot) = (classify capture projection found).snapshotFiles.map
        (entryFor (classify capture projection found)) := by
    refine List.map_congr_left fun stamp hin => ?_
    have hsnapshot : isSnapshot stamp = true := (List.mem_filter.mp hin).2
    rw [entryFor, not_isProtectedMember_of_isSnapshot hsnapshot, if_neg Bool.false_ne_true,
      if_pos hsnapshot]
  have hevidenceFiles : (classify capture projection found).evidenceFiles =
      found.files.filter fun stamp => !(isProtectedMember stamp.path || isSnapshot stamp) := by
    refine List.filter_congr fun stamp hin => ?_
    rw [List.contains_eq_mem, Bool.not_inj_iff, Bool.eq_iff_iff, decide_eq_true_iff]
    exact known_iff hin
  have hevidence : (classify capture projection found).evidenceFiles.map
      (archiveEntry .evidence) = (classify capture projection found).evidenceFiles.map
        (entryFor (classify capture projection found)) := by
    rw [hevidenceFiles]
    refine List.map_congr_left fun stamp hin => ?_
    have hneither := (List.mem_filter.mp hin).2
    rw [Bool.not_eq_true', Bool.or_eq_false_iff] at hneither
    rw [entryFor, hneither.1, if_neg Bool.false_ne_true, hneither.2, if_neg Bool.false_ne_true]
  have hfiles : ((classify capture projection found).protectedFiles ++
      (classify capture projection found).snapshotFiles ++
        (classify capture projection found).evidenceFiles).Perm found.files := by
    rw [hevidenceFiles]
    refine List.Perm.trans ((filter_append_filter_perm fun stamp =>
      not_isProtectedMember_of_isSnapshot).append_right _) ?_
    exact List.filter_append_perm _ found.files
  have hentries : planEntries? (classify capture projection found) =
      some ((((classify capture projection found).protectedFiles ++
        (classify capture projection found).snapshotFiles ++
          (classify capture projection found).evidenceFiles).map
            (entryFor (classify capture projection found))).insertionSort
              fun a b => a.sourcePath ≤ b.sourcePath) := by
    unfold planEntries?
    rw [hkept]
    simp only [bind, Option.bind, hsnapshots, hevidence, List.map_append]
  exact ⟨_, hentries, (List.perm_insertionSort _ _).trans (hfiles.map _)⟩

end Classes

end Migration
end Client
end Nauro
