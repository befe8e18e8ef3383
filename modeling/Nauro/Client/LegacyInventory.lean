import Nauro.Client.GenerationTree

/-!
# The inventory of a legacy store

A store that no generation is installed in is read file by file and compared with a verified
projection of the server.

* `inventory_ok` — an inventory tells every entry but the control lock, each one once.
-/

namespace Nauro
namespace Client
namespace Migration

open Foundation Foundation.EscapedUtf8 Nauro.Core Nauro.Sync Installation

structure LegacyFileStamp where
  path : Text
  size : Nat
  sha256 : Digest
deriving DecidableEq

/-! ## The walk -/

inductive AssessmentError where
  | generationAuthority
  | unsafeControlLock
  /-- A link, somewhere on the way to the path. -/
  | link (path : List Point)
  | irregular (path : List Point)
  /-- A name that is no UTF-8 has no place in the digest of the capture. -/
  | unencodable
deriving DecidableEq

def controlLockName : Text := ".replica-control.lock".toList
def replicaDirName : Text := ".replica".toList

/-- What the walk does with one entry; only the control lock is passed over. -/
def inspectLegacy (e : List FileName × TreeNode Leaf) : Except AssessmentError Bool :=
  let relative := pathPoints e.1
  if relative = pointsOf controlLockName then .ok false
  else if relative = pointsOf replicaDirName then .error .generationAuthority
  else
    match e.2 with
    | .leaf .link => .error (.link relative)
    | .leaf .irregular => .error (.irregular relative)
    | .directory | .leaf (.regular _) => .ok true

/-- The text of a path, when it has one. -/
def textOf? (points : List Point) : Option Text :=
  points.mapM fun point =>
    match point with
    | .scalar c => some c
    | .escaped _ => none

/-- A name that waits to become another one, or a spool of a pull. -/
def isPendingName (name : List Point) : Bool :=
  isTmpName name || (pointsOf spoolDirPrefix).isPrefixOf name

structure Inventory where
  files : List LegacyFileStamp
  directories : List Text
  pending : List Text
deriving DecidableEq

/-- `sorted`, of stamps with distinct paths. -/
def sortStamps (stamps : List LegacyFileStamp) : List LegacyFileStamp :=
  stamps.insertionSort fun a b => a.path ≤ b.path

def sortPaths (paths : List Text) : List Text :=
  paths.insertionSort (· ≤ ·)

/-- The stamp of a regular file; none for what is no file or has no text. -/
def stamp? (sha256 : Bytes → Digest) (e : List FileName × TreeNode Leaf) :
    Option LegacyFileStamp :=
  match e.2 with
  | .leaf (.regular file) =>
      (textOf? (pathPoints e.1)).map fun path => ⟨path, file.content.length, sha256 file.content⟩
  | _ => none

/-- `_inventory`: the directories wait in a queue. -/
def inventory (sha256 : Bytes → Digest) (tree : FileTree) : Except AssessmentError Inventory := do
  let found ← tree.walk inspectLegacy fun pending found => pending ++ found
  if found.all fun e => (textOf? (pathPoints e.1)).isSome then
    let paths (entries : List (List FileName × TreeNode Leaf)) : List Text :=
      entries.filterMap fun e => textOf? (pathPoints e.1)
    .ok
      { files := sortStamps (found.filterMap (stamp? sha256))
        directories := sortPaths (paths (found.filter fun e => e.2 = .directory))
        pending := sortPaths (paths (found.filter fun e =>
          e.1.getLast?.any fun name => isPendingName name.points)) }
  else .error .unencodable

/-! ## The assessment -/

/-- The digest of a capture stands for the whole of it. -/
structure Capture where
  serverUrl : Option Text
  projection : ProjectionIdentity
  protectedFiles : List LegacyFileStamp
  snapshotFiles : List LegacyFileStamp
  evidenceFiles : List LegacyFileStamp
  directories : List Text
  pending : List Text
  unsupported : List Text

variable {rules : ProjectionRules}

structure LegacyMigrationAssessment (rules : ProjectionRules) where
  projection : VerifiedProjection rules
  protectedFiles : List LegacyFileStamp
  snapshotFiles : List LegacyFileStamp
  evidenceFiles : List LegacyFileStamp
  directoryPaths : List Text
  identicalPaths : List Text
  divergentPaths : List Text
  localOnlyPaths : List Text
  serverOnlyPaths : List Text
  pendingPaths : List Text
  unsupportedPaths : List Text
  captureDigest : Digest

def LegacyMigrationAssessment.readyForBackup (assessment : LegacyMigrationAssessment rules) :
    Bool :=
  assessment.pendingPaths.isEmpty

def snapshotsPrefix : Text := "snapshots/".toList
def lockSuffix : Text := ".lock".toList

def isSnapshot (stamp : LegacyFileStamp) : Bool :=
  snapshotsPrefix.isPrefixOf stamp.path && !lockSuffix.isSuffixOf stamp.path

/-- `{artifact.path: artifact.digest for artifact in projection.artifacts}`. -/
def serverDigests (projection : VerifiedProjection rules) : List (Text × Digest) :=
  projection.artifacts.map fun artifact => (artifact.1, rules.sha256 artifact.2)

/-- The paths of some stamps whose server digest is as told. -/
def pathsWhere (stamps : List LegacyFileStamp) (server : List (Text × Digest))
    (told : LegacyFileStamp → Option Digest → Bool) : List Text :=
  sortPaths ((stamps.filter fun stamp => told stamp (server.lookup stamp.path)).map
    LegacyFileStamp.path)

def isIdentical (stamp : LegacyFileStamp) (digest : Option Digest) : Bool :=
  digest = some stamp.sha256

def isDivergent (stamp : LegacyFileStamp) (digest : Option Digest) : Bool :=
  digest.any fun digest => digest ≠ stamp.sha256

/-- `_classify`; `capture` writes the canonical bytes of a capture. -/
def classify (capture : Capture → Bytes) (projection : VerifiedProjection rules)
    (found : Inventory) : LegacyMigrationAssessment rules :=
  let protectedFiles := found.files.filter fun stamp => isProtectedMember stamp.path
  let snapshots := found.files.filter isSnapshot
  let known := (protectedFiles ++ snapshots).map LegacyFileStamp.path
  let evidence := found.files.filter fun stamp => !known.contains stamp.path
  let server := serverDigests projection
  let unsupported := evidence.map LegacyFileStamp.path
  { projection := projection
    protectedFiles := protectedFiles
    snapshotFiles := snapshots
    evidenceFiles := evidence
    directoryPaths := found.directories
    identicalPaths := pathsWhere protectedFiles server isIdentical
    divergentPaths := pathsWhere protectedFiles server isDivergent
    localOnlyPaths := pathsWhere protectedFiles server fun _ digest => digest.isNone
    serverOnlyPaths := sortPaths ((server.map Prod.fst).filter fun path =>
      !(protectedFiles.map LegacyFileStamp.path).contains path)
    pendingPaths := found.pending
    unsupportedPaths := unsupported
    captureDigest := rules.sha256 (capture
      { serverUrl := projection.target.binding.serverUrl
        projection := projection.target.identity
        protectedFiles := protectedFiles
        snapshotFiles := snapshots
        evidenceFiles := evidence
        directories := found.directories
        pending := found.pending
        unsupported := unsupported }) }

/-- `_require_legacy_root`. -/
def requireLegacyRoot (tree : FileTree) : Except AssessmentError Unit :=
  if (nodeAt tree replicaDirName).isSome then .error .generationAuthority else .ok ()

/-- `_require_empty_control_lock`. -/
def requireEmptyControlLock (tree : FileTree) : Except AssessmentError Unit :=
  match nodeAt tree controlLockName with
  | none => .ok ()
  | some (.leaf (.regular file)) =>
      if file.content ≠ [] ∨ file.links ≠ 1 then .error .unsafeControlLock else .ok ()
  | some _ => .error .unsafeControlLock

/-- `assess_legacy_migration` of a store that has no authority marker. -/
def assessLegacyMigration (capture : Capture → Bytes) (projection : VerifiedProjection rules)
    (tree : FileTree) : Except AssessmentError (LegacyMigrationAssessment rules) := do
  requireLegacyRoot tree
  requireEmptyControlLock tree
  let found ← inventory rules.sha256 tree
  .ok (classify capture projection found)

/-! ## What an inventory tells -/

theorem textOf?_eq_some_iff {points : List Point} {text : Text} :
    textOf? points = some text ↔ points = pointsOf text := by
  have hpoint : ∀ (point : Point) (c : Char),
      (match point with
        | .scalar c => some c
        | .escaped _ => none) = some c ↔ Point.scalar c = id point := by
    intro point c
    cases point with
    | scalar d => exact ⟨fun h => congrArg _ (Option.some.inj h).symm,
        fun h => congrArg some (Point.scalar.inj h).symm⟩
    | escaped b => exact iff_of_false (fun h => by cases h) (fun h => by cases h)
  rw [textOf?, mapM_eq_some_iff hpoint, List.map_id, eq_comm]
  rfl

def lockFile : FileName := ⟨utf8 controlLockName, by decide, by decide⟩

theorem inspectLegacy_ok {e : List FileName × TreeNode Leaf} {keep : Bool}
    (h : inspectLegacy e = .ok keep) :
    (keep = false ↔ pathPoints e.1 = pointsOf controlLockName) ∧
      (keep = true → e.2 = .directory ∨ ∃ file, e.2 = .leaf (.regular file)) := by
  unfold inspectLegacy at h
  simp only at h
  split_ifs at h with hlock hreplica
  · cases h
    exact ⟨iff_of_true rfl hlock, fun hkeep => absurd hkeep Bool.false_ne_true⟩
  · obtain ⟨path, node⟩ := e
    rcases node with - | (file | - | -)
    · cases h
      exact ⟨iff_of_false Bool.true_eq_false_eq_False hlock, fun _ => Or.inl rfl⟩
    · cases h
      exact ⟨iff_of_false Bool.true_eq_false_eq_False hlock, fun _ => Or.inr ⟨file, rfl⟩⟩
    · cases h
    · cases h

/-- What an inventory tells of a store. -/
structure Tells (sha256 : Bytes → Digest) (tree : FileTree) (found : Inventory) : Prop where
  regular : ∀ e ∈ tree.entries, pathPoints e.1 ≠ pointsOf controlLockName →
    (∃ text, pathPoints e.1 = pointsOf text) ∧
      (e.2 = .directory ∨ ∃ file, e.2 = .leaf (.regular file))
  files : ∀ stamp, stamp ∈ found.files ↔ stamp.path ≠ controlLockName ∧
    ∃ file : RegularFile, nodeAt tree stamp.path = some (.leaf (.regular file)) ∧
      stamp.size = file.content.length ∧ stamp.sha256 = sha256 file.content
  directories : ∀ d, d ∈ found.directories ↔ nodeAt tree d = some .directory
  distinct : (found.files.map LegacyFileStamp.path).Nodup

theorem nodeAt_iff_mem {tree : FileTree} {text : Text} {node : TreeNode Leaf} :
    nodeAt tree text = some node ↔
      ∃ path, pathPoints path = pointsOf text ∧ (path, node) ∈ tree.entries := by
  rw [nodeAt_eq_some_iff]
  constructor
  · rintro ⟨path, hnative, hnode⟩
    exact ⟨path, (nativePath?_eq_some_iff (nativePath?_ne_nil hnative)).mp hnative,
      DirectoryTree.node?_eq_some_iff.mp hnode⟩
  · rintro ⟨path, hpoints, hin⟩
    exact ⟨path, (nativePath?_eq_some_iff (DirectoryTree.ne_nil_of_mem hin)).mpr hpoints,
      DirectoryTree.node?_eq_some_iff.mpr hin⟩

theorem stamp?_eq_some_iff {sha256 : Bytes → Digest} {e : List FileName × TreeNode Leaf}
    {stamp : LegacyFileStamp} :
    stamp? sha256 e = some stamp ↔ pathPoints e.1 = pointsOf stamp.path ∧
      ∃ file : RegularFile, e.2 = .leaf (.regular file) ∧ stamp.size = file.content.length ∧
        stamp.sha256 = sha256 file.content := by
  obtain ⟨path, node⟩ := e
  obtain ⟨text, size, digest⟩ := stamp
  rcases node with - | (file | - | -)
  · exact iff_of_false (fun h => by cases h) fun ⟨_, _, h, _⟩ => by cases h
  · show (textOf? (pathPoints path)).map _ = _ ↔ _
    rw [Option.map_eq_some_iff]
    constructor
    · rintro ⟨text, htext, heq⟩
      cases heq
      exact ⟨textOf?_eq_some_iff.mp htext, file, rfl, rfl, rfl⟩
    · rintro ⟨hpath, file', hfile, rfl, rfl⟩
      cases hfile
      exact ⟨text, textOf?_eq_some_iff.mpr hpath, rfl⟩
  · exact iff_of_false (fun h => by cases h) fun ⟨_, _, h, _⟩ => by cases h
  · exact iff_of_false (fun h => by cases h) fun ⟨_, _, h, _⟩ => by cases h

theorem mem_sortPaths {paths : List Text} {path : Text} : path ∈ sortPaths paths ↔ path ∈ paths :=
  (List.perm_insertionSort _ paths).mem_iff

theorem sortStamps_perm (stamps : List LegacyFileStamp) : (sortStamps stamps).Perm stamps :=
  List.perm_insertionSort _ stamps

/-- The files of entries with distinct paths have distinct paths. -/
theorem stamps_nodup {sha256 : Bytes → Digest} {tree : FileTree}
    {found : List (List FileName × TreeNode Leaf)} (hsub : ∀ e ∈ found, e ∈ tree.entries)
    (hdistinct : found.Nodup) :
    ((found.filterMap (stamp? sha256)).map LegacyFileStamp.path).Nodup := by
  rw [List.map_filterMap]
  refine List.pairwise_filterMap.mpr (hdistinct.imp_of_mem fun {e e'} hin hin' hne => ?_)
  intro path hpath path' hpath' heq
  obtain ⟨stamp, hstamp, rfl⟩ := Option.map_eq_some_iff.mp hpath
  obtain ⟨stamp', hstamp', rfl⟩ := Option.map_eq_some_iff.mp hpath'
  have hpoints := (stamp?_eq_some_iff.mp hstamp).1
  rw [heq, ← (stamp?_eq_some_iff.mp hstamp').1] at hpoints
  have hpath := pathPoints_injOn (DirectoryTree.ne_nil_of_mem (hsub e hin))
    (DirectoryTree.ne_nil_of_mem (hsub e' hin')) hpoints
  exact hne (DirectoryTree.eq_of_path (hsub e hin) (hsub e' hin') hpath)

/-- An inventory tells every entry of a store but its control lock. -/
theorem inventory_ok {sha256 : Bytes → Digest} {tree : FileTree} {found : Inventory}
    (hlock : nodeAt tree controlLockName ≠ some .directory)
    (h : inventory sha256 tree = .ok found) : Tells sha256 tree found := by
  unfold inventory at h
  cases hwalk : tree.walk inspectLegacy fun pending found => pending ++ found with
  | error error => rw [hwalk] at h; cases h
  | ok entries =>
      simp only [hwalk, bind, Except.bind] at h
      split_ifs at h with htexts
      cases h
      have hfinds := DirectoryTree.walk_ok (fun _ _ => List.Perm.refl _) hwalk
      obtain ⟨hinspected, hmem⟩ := hfinds.mem_iff_of_passed fun dir hin hfalse =>
        hlock (nodeAt_iff_mem.mpr ⟨dir, (inspectLegacy_ok hfalse).1.mp rfl, hin⟩)
      have hkept : ∀ e, e ∈ entries ↔
          e ∈ tree.entries ∧ pathPoints e.1 ≠ pointsOf controlLockName := by
        intro e
        rw [hmem]
        refine and_congr_right fun hin => ?_
        obtain ⟨keep, hkeep⟩ := hinspected e hin
        rw [Ne, ← (inspectLegacy_ok hkeep).1, hkeep]
        cases keep <;> decide
      have hnode : ∀ e ∈ entries, (∃ text, pathPoints e.1 = pointsOf text) ∧
          (e.2 = .directory ∨ ∃ file, e.2 = .leaf (.regular file)) := by
        intro e hin
        obtain ⟨text, htext⟩ := Option.isSome_iff_exists.mp (List.all_eq_true.mp htexts e hin)
        exact ⟨⟨text, textOf?_eq_some_iff.mp htext⟩,
          (inspectLegacy_ok ((hmem e).mp hin).2).2 rfl⟩
      refine ⟨fun e hin hpath => hnode e ((hkept e).mpr ⟨hin, hpath⟩), fun stamp => ?_,
        fun d => ?_, ?_⟩
      · rw [(sortStamps_perm _).mem_iff, List.mem_filterMap]
        constructor
        · rintro ⟨e, hin, hstamp⟩
          obtain ⟨hpoints, file, hfile, htold⟩ := stamp?_eq_some_iff.mp hstamp
          obtain ⟨hentry, hpath⟩ := (hkept e).mp hin
          refine ⟨fun heq => hpath (heq ▸ hpoints), file, ?_, htold⟩
          exact nodeAt_iff_mem.mpr ⟨e.1, hpoints, hfile ▸ hentry⟩
        · rintro ⟨hname, file, hnode, htold⟩
          obtain ⟨path, hpoints, hin⟩ := nodeAt_iff_mem.mp hnode
          refine ⟨_, (hkept _).mpr ⟨hin, fun heq => hname ?_⟩,
            stamp?_eq_some_iff.mpr ⟨hpoints, file, rfl, htold⟩⟩
          exact pointsOf_injective (hpoints.symm.trans heq)
      · rw [mem_sortPaths, List.mem_filterMap]
        constructor
        · rintro ⟨e, hin, htext⟩
          obtain ⟨hin, hdir⟩ := List.mem_filter.mp hin
          refine nodeAt_iff_mem.mpr ⟨e.1, textOf?_eq_some_iff.mp htext, ?_⟩
          rw [← of_decide_eq_true hdir]
          exact ((hkept e).mp hin).1
        · intro hdir
          obtain ⟨path, hpoints, hin⟩ := nodeAt_iff_mem.mp hdir
          refine ⟨_, List.mem_filter.mpr ⟨(hkept _).mpr ⟨hin, fun heq => ?_⟩,
            decide_eq_true rfl⟩, textOf?_eq_some_iff.mpr hpoints⟩
          exact hlock (nodeAt_iff_mem.mpr ⟨path, heq, hin⟩)
      · exact ((sortStamps_perm _).map _).nodup_iff.mpr
          (stamps_nodup (fun e hin => ((hkept e).mp hin).1) hfinds.distinct)

/-- An assessed store has a file in the place of the control lock, if anything. -/
theorem assessLegacyMigration_ok {rules : ProjectionRules} {capture : Capture → Bytes}
    {projection : VerifiedProjection rules} {tree : FileTree}
    {assessment : LegacyMigrationAssessment rules}
    (h : assessLegacyMigration capture projection tree = .ok assessment) :
    ∃ found, Tells rules.sha256 tree found ∧ assessment = classify capture projection found := by
  unfold assessLegacyMigration at h
  cases hroot : requireLegacyRoot tree with
  | error error => rw [hroot] at h; cases h
  | ok root =>
      cases hlock : requireEmptyControlLock tree with
      | error error =>
          simp only [hroot, hlock, bind, Except.bind] at h
          cases h
      | ok lock =>
          cases hfound : inventory rules.sha256 tree with
          | error error =>
              simp only [hroot, hlock, hfound, bind, Except.bind] at h
              cases h
          | ok found =>
              simp only [hroot, hlock, hfound, bind, Except.bind] at h
              cases h
              refine ⟨found, inventory_ok (fun hdir => ?_) hfound, rfl⟩
              rw [requireEmptyControlLock, hdir] at hlock
              cases hlock

end Migration
end Client
end Nauro
