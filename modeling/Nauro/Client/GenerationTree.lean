import Mathlib.Data.List.Dedup
import Nauro.Client.Projection
import Nauro.Foundation.FileNames
import Nauro.Foundation.Table
import Nauro.Foundation.TreeWrites
import Nauro.Sync.PushPlan

/-!
# The tree of a generation root

An installed generation is a directory with a manifest and a store of artifacts. One audit holds
the tree against a projection in memory, another against the manifest that it finds there.

* `walkTree_ok`, `exists_walkTree` — what the walk admits.
-/

namespace Nauro
namespace Client
namespace Installation

open Foundation Foundation.EscapedUtf8 Nauro.Core Nauro.Sync

/-! ## Files -/

/-- The device and the inode of a file. -/
abbrev FileIdentity := Nat × Nat

structure RegularFile where
  content : Bytes
  /-- How many more names the file has than this one. -/
  otherNames : Nat
  identity : FileIdentity
deriving DecidableEq

/-- `st_nlink`. -/
def RegularFile.links (file : RegularFile) : Nat := file.otherNames + 1

inductive Leaf where
  | regular (file : RegularFile)
  | link
  | irregular
deriving DecidableEq

abbrev FileTree := DirectoryTree FileName Leaf

/-- A text as the code points of a name or of a path. -/
def pointsOf (text : Text) : List Point := text.map Point.scalar

/-- What the system finds at a relative path. -/
def nodeAt (tree : FileTree) (relative : Text) : Option (TreeNode Leaf) :=
  (nativePath? relative).bind tree.node?

/-- `is_tmp_sibling`, of any name of the system. -/
def isTmpName (name : List Point) : Bool :=
  let token := ((name.take (name.length - tmpSuffix.length)).splitOn (.scalar '.')).getLastD []
  (pointsOf ".".toList).isPrefixOf name && (pointsOf tmpSuffix).isSuffixOf name &&
    token.length == tmpTokenLength &&
    token.all fun p => (pointsOf "0123456789abcdef".toList).contains p

/-! ## The walk -/

/-- Why an audit fails; a path is as the system spells it, not as the message displays it. -/
inductive AuditError where
  | unreadable (path : List Point)
  | link (path : List Point)
  | partialWrite (path : List Point)
  | irregular (path : List Point)
  | unexpected (path : List Point)
  | linkedFile (path : List Point)
  | missing (relative : Text)
  /-- A key error: a file is expected where a directory was seen. -/
  | unobserved (relative : Text)
  | changed (path : List Point)
  | manifestDiverges
  | artifactDiverges (path : Text)
  | verification (error : GenerationError)

/-- The files with the lengths they may be read to, and the directories. -/
structure ExpectedEntries where
  files : List (Text × Nat)
  directories : List Text

def manifestName : Text := "manifest.json".toList
def storeDir : Text := "store".toList

/-- `f"store/{path}"`. -/
def storeRelative (path : Text) : Text := storeDir ++ '/' :: path

/-- `"/".join(parts[:depth]) for depth in range(1, len(parts))`. -/
def parentsOf (relative : Text) : List Text :=
  let parts := relative.splitOn '/'
  (List.range' 1 (parts.length - 1)).map fun depth => ['/'].intercalate (parts.take depth)

def expectedOf (manifestLength : Nat) (artifacts : List (Text × Nat)) : ExpectedEntries where
  files := (manifestName, manifestLength) ::
    artifacts.map fun artifact => (storeRelative artifact.1, artifact.2)
  directories := storeDir :: artifacts.flatMap fun artifact => parentsOf (storeRelative artifact.1)

/-- What the walk does with one entry; it never passes one over. -/
def inspectEntry (expected : ExpectedEntries) (e : List FileName × TreeNode Leaf) :
    Except AuditError Bool :=
  let relative := pathPoints e.1
  if e.2 = .leaf .link then .error (.link relative)
  else if e.1.getLast?.any fun name => isTmpName name.points then .error (.partialWrite relative)
  else
    match e.2 with
    | .leaf .link => .error (.link relative)
    | .leaf .irregular => .error (.irregular relative)
    | .directory =>
        if (expected.directories.map pointsOf).contains relative then .ok true
        else .error (.unexpected relative)
    | .leaf (.regular file) =>
        if !(expected.files.map fun f => pointsOf f.1).contains relative then
          .error (.unexpected relative)
        else if file.links > 1 then .error (.linkedFile relative)
        else .ok true

/-- The identities of the files that a walk kept. -/
def identitiesOf (found : List (List FileName × TreeNode Leaf)) :
    List (List Point × FileIdentity) :=
  found.filterMap fun e =>
    match e.2 with
    | .leaf (.regular file) => some (pathPoints e.1, file.identity)
    | _ => none

/-- `sorted(directories | files.keys())`. -/
def expectedPaths (expected : ExpectedEntries) : List Text :=
  (expected.directories ++ expected.files.map Prod.fst).dedup.insertionSort (· ≤ ·)

/-- `_walk_tree`: the directory that was found last is the next one. -/
def walkTree (tree : FileTree) (expected : ExpectedEntries) :
    Except AuditError (List (List Point × FileIdentity)) := do
  let found ← tree.walk (inspectEntry expected) fun pending found => found.reverse ++ pending
  let observed := identitiesOf found
  let seen := (DirectoryTree.directoriesOf found).map pathPoints
  let absent := (expectedPaths expected).find? fun relative =>
    !seen.contains (pointsOf relative) && !(observed.map Prod.fst).contains (pointsOf relative)
  match absent with
  | some relative => .error (.missing relative)
  | none => .ok observed

/-! ## The audit against a projection -/

variable {rules : ProjectionRules}

/-- `_expected_entries`. -/
def expectedEntries (projection : VerifiedProjection rules) : ExpectedEntries :=
  expectedOf projection.manifestJson.length
    (projection.artifacts.map fun artifact => (artifact.1, artifact.2.length))

/-- `_read_expected`: one byte more than expected at most. -/
def readExpected (tree : FileTree) (relative : Text) (length : Nat) (identity : FileIdentity) :
    Except AuditError Bytes :=
  match nodeAt tree relative with
  | none | some (.leaf .link) => .error (.unreadable (pointsOf relative))
  | some .directory | some (.leaf .irregular) => .error (.changed (pointsOf relative))
  | some (.leaf (.regular file)) =>
      if file.identity ≠ identity then .error (.changed (pointsOf relative))
      else .ok (file.content.take (length + 1))

/-- `_read_expected` of a file that the walk observed. -/
def readObserved (tree : FileTree) (expected : ExpectedEntries)
    (observed : List (List Point × FileIdentity)) (relative : Text) : Except AuditError Bytes :=
  match expected.files.lookup relative, observed.lookup (pointsOf relative) with
  | some length, some identity => readExpected tree relative length identity
  | _, _ => .error (.unobserved relative)

structure GenerationRootAudit where
  manifestDigest : Digest
  artifactCount : Nat
  byteTotal : Nat
deriving DecidableEq

/-- The artifacts one after the other, with the bytes counted so far. -/
def auditArtifacts (tree : FileTree) (projection : VerifiedProjection rules)
    (observed : List (List Point × FileIdentity)) :
    Nat → List (Text × Bytes) → Except AuditError Nat
  | total, [] => .ok total
  | total, artifact :: rest => do
      let content ← readObserved tree (expectedEntries projection) observed
        (storeRelative artifact.1)
      if projection.manifest.digest? artifact.1 ≠ some (rules.sha256 content) then
        .error (.artifactDiverges artifact.1)
      else auditArtifacts tree projection observed (total + content.length) rest

def auditGenerationTree (tree : FileTree) (projection : VerifiedProjection rules) :
    Except AuditError GenerationRootAudit := do
  let expected := expectedEntries projection
  let observed ← walkTree tree expected
  let manifest ← readObserved tree expected observed manifestName
  if manifest ≠ projection.manifestJson ∨
      rules.sha256 manifest ≠ projection.target.identity.manifestDigest then
    .error .manifestDiverges
  else
    let total ← auditArtifacts tree projection observed manifest.length projection.artifacts
    .ok ⟨rules.sha256 manifest, projection.artifacts.length, total⟩

/-! ## The audit against the manifest of the tree -/

/-- `_installed_file`: the identity and the size. -/
def installedFile (tree : FileTree) (relative display : Text) :
    Except AuditError (FileIdentity × Nat) :=
  match nodeAt tree relative with
  | none => .error (.missing display)
  | some (.leaf .link) => .error (.link (pointsOf display))
  | some .directory | some (.leaf .irregular) => .error (.irregular (pointsOf display))
  | some (.leaf (.regular file)) =>
      if file.links > 1 then .error (.linkedFile (pointsOf display))
      else .ok (file.identity, file.content.length)

/-- `_stream_digest`; nothing changes between the two looks at the file. -/
def streamDigest (rules : ProjectionRules) (tree : FileTree) (relative : Text)
    (identity : FileIdentity) (size : Nat) (expected : Digest) (display : Text)
    (mismatch : AuditError) : Except AuditError Nat :=
  match nodeAt tree relative with
  | none | some (.leaf .link) => .error (.unreadable (pointsOf display))
  | some .directory | some (.leaf .irregular) => .error (.changed (pointsOf display))
  | some (.leaf (.regular file)) =>
      if file.links ≠ 1 ∨ file.identity ≠ identity ∨ file.content.length ≠ size then
        .error (.changed (pointsOf display))
      else if rules.sha256 file.content ≠ expected then .error mismatch
      else .ok file.content.length

/-- What a publication knows of its root. -/
structure InstalledGenerationRoot where
  target : GenerationProjectionTarget
  audit : GenerationRootAudit

inductive InstalledAuditError where
  | diverged (error : AuditError)
  | publicationFailed

/-- The artifacts that a manifest lists, with the bytes counted so far. -/
def auditListed (rules : ProjectionRules) (tree : FileTree)
    (observed : List (List Point × FileIdentity)) :
    Nat → List (Text × Digest) → Except AuditError Nat
  | total, [] => .ok total
  | total, artifact :: rest => do
      let (identity, size) ← installedFile tree (storeRelative artifact.1) artifact.1
      if observed.lookup (pointsOf (storeRelative artifact.1)) ≠ some identity then
        .error (.changed (pointsOf artifact.1))
      else
        let read ← streamDigest rules tree (storeRelative artifact.1) identity size artifact.2
          artifact.1 (.artifactDiverges artifact.1)
        auditListed rules tree observed (total + read) rest

/-- What is found at an installed root, with the manifest. -/
def surveyInstalledRoot (rules : ProjectionRules) (tree : FileTree)
    (target : GenerationProjectionTarget) :
    Except AuditError (GenerationRootAudit × ProjectionManifest) := do
  let digest := target.identity.manifestDigest
  let (identity, size) ← installedFile tree manifestName manifestName
  let _ ← streamDigest rules tree manifestName identity size digest manifestName .manifestDiverges
  let manifestJson ← readExpected tree manifestName size identity
  let again ← installedFile tree manifestName manifestName
  if manifestJson.length ≠ size ∨ again ≠ (identity, size) then
    .error (.changed (pointsOf manifestName))
  else
    match parseManifest rules target manifestJson with
    | .error error => .error (.verification error)
    | .ok manifest =>
        let observed ← walkTree tree (expectedOf manifestJson.length
          (manifest.artifacts.map fun artifact => (artifact.1, 0)))
        if observed.lookup (pointsOf manifestName) ≠ some identity then
          .error (.changed (pointsOf manifestName))
        else
          let total ← auditListed rules tree observed manifestJson.length manifest.artifacts
          .ok (⟨digest, manifest.artifacts.length, total⟩, manifest)

/-- `_audit_installed_root`: when the manifest was committed. -/
def auditInstalledRoot (rules : ProjectionRules) (tree : FileTree)
    (installed : InstalledGenerationRoot) : Except InstalledAuditError Timestamp :=
  match surveyInstalledRoot rules tree installed.target with
  | .error error => .error (.diverged error)
  | .ok (audit, manifest) =>
      if audit ≠ installed.audit then .error .publicationFailed else .ok manifest.committedAt


/-! ## What the walk admits -/

theorem pointsOf_injective : Function.Injective pointsOf :=
  List.map_injective_iff.mpr scalar_injective

theorem nodeAt_eq_some_iff {tree : FileTree} {relative : Text} {node : TreeNode Leaf} :
    nodeAt tree relative = some node ↔
      ∃ path, nativePath? relative = some path ∧ tree.node? path = some node :=
  Option.bind_eq_some_iff

/-- An entry that the walk admits. -/
structure Admitted (expected : ExpectedEntries) (e : List FileName × TreeNode Leaf) : Prop where
  settled : (e.1.getLast?.any fun name => isTmpName name.points) = false
  known : (e.2 = .directory ∧ ∃ d ∈ expected.directories, nativePath? d = some e.1) ∨
    ∃ file : RegularFile, e.2 = .leaf (.regular file) ∧ file.otherNames = 0 ∧
      ∃ f ∈ expected.files, nativePath? f.1 = some e.1

theorem mem_map_pointsOf_iff {paths : List Text} {path : List FileName} (hne : path ≠ []) :
    pathPoints path ∈ paths.map pointsOf ↔ ∃ p ∈ paths, nativePath? p = some path := by
  rw [List.mem_map]
  refine exists_congr fun p => and_congr_right fun _ => ?_
  rw [nativePath?_eq_some_iff hne, eq_comm]
  rfl

theorem inspectEntry_ok {expected : ExpectedEntries} {e : List FileName × TreeNode Leaf}
    (hne : e.1 ≠ []) {keep : Bool} (h : inspectEntry expected e = .ok keep) :
    keep = true ∧ Admitted expected e := by
  obtain ⟨path, node⟩ := e
  unfold inspectEntry at h
  simp only at h
  by_cases hlink : node = .leaf .link
  · rw [if_pos hlink] at h
    cases h
  rw [if_neg hlink] at h
  cases hsettled : path.getLast?.any fun name => isTmpName name.points with
  | true =>
      rw [hsettled, if_pos rfl] at h
      cases h
  | false => ?_
  rw [hsettled, if_neg Bool.false_ne_true] at h
  rcases node with - | (file | - | -)
  · simp only at h
    split_ifs at h with hin
    refine ⟨(Except.ok.inj h).symm, hsettled, Or.inl ⟨rfl, ?_⟩⟩
    exact (mem_map_pointsOf_iff hne).mp (List.contains_iff_mem.mp hin)
  · simp only at h
    split_ifs at h with hin hlinks
    refine ⟨(Except.ok.inj h).symm, hsettled, Or.inr ⟨file, rfl, ?_, ?_⟩⟩
    · rw [RegularFile.links] at hlinks
      omega
    · have hmem : pathPoints path ∈ (expected.files.map Prod.fst).map pointsOf := by
        rw [List.map_map]
        simpa using hin
      obtain ⟨p, hp, hnative⟩ := (mem_map_pointsOf_iff hne).mp hmem
      obtain ⟨f, hf, rfl⟩ := List.mem_map.mp hp
      exact ⟨f, hf, hnative⟩
  · cases h
  · cases h

theorem Admitted.inspect {expected : ExpectedEntries} {e : List FileName × TreeNode Leaf}
    (h : Admitted expected e) : inspectEntry expected e = .ok true := by
  obtain ⟨hsettled, hknown⟩ := h
  obtain ⟨path, node⟩ := e
  unfold inspectEntry
  simp only at hsettled hknown ⊢
  rcases hknown with ⟨rfl, d, hd, hnative⟩ | ⟨file, rfl, hlinks, f, hf, hnative⟩
  · have hin := (mem_map_pointsOf_iff (nativePath?_ne_nil hnative)).mpr ⟨d, hd, hnative⟩
    rw [if_neg (by decide), hsettled, if_neg Bool.false_ne_true]
    exact if_pos (List.contains_iff_mem.mpr hin)
  · have hin : pathPoints path ∈ (expected.files.map Prod.fst).map pointsOf :=
      (mem_map_pointsOf_iff (nativePath?_ne_nil hnative)).mpr
        ⟨f.1, List.mem_map_of_mem hf, hnative⟩
    rw [List.map_map] at hin
    have hcontains : (expected.files.map fun f => pointsOf f.1).contains (pathPoints path) = true :=
      List.contains_iff_mem.mpr hin
    have hone : ¬ file.links > 1 := by
      rw [RegularFile.links]
      omega
    have hplain : TreeNode.leaf (Leaf.regular file) ≠ .leaf .link := fun heq => by cases heq
    rw [if_neg hplain, hsettled, if_neg Bool.false_ne_true, hcontains]
    simp only [Bool.not_true, Bool.false_eq_true, if_false, if_neg hone]

/-- A tree of expected entries, in which none of them is missing. -/
structure Layout (tree : FileTree) (expected : ExpectedEntries) : Prop where
  admitted : ∀ e ∈ tree.entries, Admitted expected e
  present : ∀ relative, relative ∈ expected.directories ∨ relative ∈ expected.files.map Prod.fst →
    ∃ node, nodeAt tree relative = some node

/-- The identities of the files of a tree by their paths. -/
def Observes (tree : FileTree) (observed : List (List Point × FileIdentity)) : Prop :=
  ∀ path, path ≠ [] → ∀ identity, observed.lookup (pathPoints path) = some identity ↔
    ∃ file : RegularFile, tree.node? path = some (.leaf (.regular file)) ∧ file.identity = identity

theorem mem_identitiesOf {found : List (List FileName × TreeNode Leaf)}
    {entry : List Point × FileIdentity} :
    entry ∈ identitiesOf found ↔ ∃ path file, (path, TreeNode.leaf (Leaf.regular file)) ∈ found ∧
      entry = (pathPoints path, file.identity) := by
  rw [identitiesOf, List.mem_filterMap]
  constructor
  · rintro ⟨⟨path, node⟩, hin, hentry⟩
    rcases node with - | (file | - | -)
    · cases hentry
    · exact ⟨path, file, hin, (Option.some.inj hentry).symm⟩
    · cases hentry
    · cases hentry
  · rintro ⟨path, file, hin, rfl⟩
    exact ⟨_, hin, rfl⟩

theorem identitiesOf_sublist (found : List (List FileName × TreeNode Leaf)) :
    ((identitiesOf found).map Prod.fst).Sublist ((found.map Prod.fst).map pathPoints) := by
  induction found with
  | nil => exact List.Sublist.refl _
  | cons e found ih =>
      obtain ⟨path, node⟩ := e
      rcases node with - | (file | - | -)
      · exact ih.cons _
      · exact ih.cons_cons _
      · exact ih.cons _
      · exact ih.cons _

theorem observes_identitiesOf {tree : FileTree} {found : List (List FileName × TreeNode Leaf)}
    (hperm : found.Perm tree.entries) : Observes tree (identitiesOf found) := by
  have hdistinct : ((identitiesOf found).map Prod.fst).Nodup := by
    refine (identitiesOf_sublist found).nodup ?_
    refine ((hperm.map Prod.fst).nodup_iff.mpr tree.distinct).map_on fun path hin other hin' heq => ?_
    obtain ⟨e, he, rfl⟩ := List.mem_map.mp hin
    obtain ⟨e', he', rfl⟩ := List.mem_map.mp hin'
    exact pathPoints_injOn (DirectoryTree.ne_nil_of_mem (hperm.mem_iff.mp he))
      (DirectoryTree.ne_nil_of_mem (hperm.mem_iff.mp he')) heq
  intro path hne identity
  constructor
  · intro h
    obtain ⟨path', file, hin, heq⟩ := mem_identitiesOf.mp (Table.mem_of_lookup h)
    obtain ⟨hpath, rfl⟩ := Prod.mk.inj heq
    have hentry := hperm.mem_iff.mp hin
    rw [pathPoints_injOn hne (DirectoryTree.ne_nil_of_mem hentry) hpath]
    exact ⟨file, DirectoryTree.node?_eq_some_iff.mpr hentry, rfl⟩
  · rintro ⟨file, hnode, rfl⟩
    have hin := hperm.mem_iff.mpr (DirectoryTree.node?_eq_some_iff.mp hnode)
    exact Table.lookup_of_mem hdistinct (mem_identitiesOf.mpr ⟨path, file, hin, rfl⟩)

theorem mem_expectedPaths {expected : ExpectedEntries} {relative : Text} :
    relative ∈ expectedPaths expected ↔
      relative ∈ expected.directories ∨ relative ∈ expected.files.map Prod.fst := by
  rw [expectedPaths, (List.perm_insertionSort _ _).mem_iff, List.mem_dedup, List.mem_append]

/-- What a walk over all of a tree has seen or observed at an expected path. -/
theorem seen_or_observed_iff {tree : FileTree} {expected : ExpectedEntries}
    {found : List (List FileName × TreeNode Leaf)} (hperm : found.Perm tree.entries)
    (hadmitted : ∀ e ∈ tree.entries, Admitted expected e) {relative : Text} :
    (pointsOf relative ∈ (DirectoryTree.directoriesOf found).map pathPoints ∨
      pointsOf relative ∈ (identitiesOf found).map Prod.fst) ↔
      ∃ node, nodeAt tree relative = some node := by
  constructor
  · rintro (hseen | hobserved)
    · obtain ⟨path, hpath, heq⟩ := List.mem_map.mp hseen
      have hin := hperm.mem_iff.mp (DirectoryTree.mem_directoriesOf.mp hpath)
      have hnative := (nativePath?_eq_some_iff (DirectoryTree.ne_nil_of_mem hin)).mpr heq
      exact ⟨_, nodeAt_eq_some_iff.mpr ⟨path, hnative, DirectoryTree.node?_eq_some_iff.mpr hin⟩⟩
    · obtain ⟨entry, hentry, heq⟩ := List.mem_map.mp hobserved
      obtain ⟨path, file, hin, rfl⟩ := mem_identitiesOf.mp hentry
      have hin := hperm.mem_iff.mp hin
      have hnative := (nativePath?_eq_some_iff (DirectoryTree.ne_nil_of_mem hin)).mpr heq
      exact ⟨_, nodeAt_eq_some_iff.mpr ⟨path, hnative, DirectoryTree.node?_eq_some_iff.mpr hin⟩⟩
  · rintro ⟨node, hnode⟩
    obtain ⟨path, hnative, hnode⟩ := nodeAt_eq_some_iff.mp hnode
    have hentry := DirectoryTree.node?_eq_some_iff.mp hnode
    have hin := hperm.mem_iff.mpr hentry
    have heq := (nativePath?_eq_some_iff (DirectoryTree.ne_nil_of_mem hentry)).mp hnative
    rcases (hadmitted _ hentry).known with ⟨rfl, -⟩ | ⟨file, rfl, -⟩
    · exact Or.inl (List.mem_map.mpr ⟨path, DirectoryTree.mem_directoriesOf.mpr hin, heq⟩)
    · exact Or.inr (List.mem_map.mpr ⟨_, mem_identitiesOf.mpr ⟨path, file, hin, rfl⟩, heq⟩)

theorem stack_perm {paths found : List (List FileName)} :
    (found.reverse ++ paths).Perm (paths ++ found) :=
  (List.perm_append_comm).trans ((List.reverse_perm found).append_left paths)

/-- A tree that the walk accepts is one of expected entries, and their identities are told. -/
theorem walkTree_ok {tree : FileTree} {expected : ExpectedEntries}
    {observed : List (List Point × FileIdentity)} (h : walkTree tree expected = .ok observed) :
    Layout tree expected ∧ Observes tree observed := by
  unfold walkTree at h
  cases hfound : tree.walk (inspectEntry expected) fun pending found => found.reverse ++ pending with
  | error error => rw [hfound] at h; cases h
  | ok found =>
      simp only [hfound, bind, Except.bind] at h
      have hstrict : ∀ e ∈ tree.entries, inspectEntry expected e ≠ .ok false := fun e hin heq =>
        absurd (inspectEntry_ok (DirectoryTree.ne_nil_of_mem hin) heq).1 Bool.false_ne_true
      obtain ⟨hall, hperm⟩ := (DirectoryTree.walk_ok (fun _ _ => stack_perm) hfound).all hstrict
      have hadmitted : ∀ e ∈ tree.entries, Admitted expected e := fun e hin =>
        (inspectEntry_ok (DirectoryTree.ne_nil_of_mem hin) (hall e hin)).2
      split at h
      · cases h
      · next habsent =>
          cases h
          refine ⟨⟨hadmitted, fun relative hrelative => ?_⟩, observes_identitiesOf hperm⟩
          rw [List.find?_eq_none] at habsent
          have hseen := habsent relative (mem_expectedPaths.mpr hrelative)
          refine (seen_or_observed_iff hperm hadmitted).mp ?_
          simp only [Bool.and_eq_true, Bool.not_eq_true', not_and_or, Bool.not_eq_false,
            List.contains_iff_mem] at hseen
          exact hseen

theorem exists_walkTree {tree : FileTree} {expected : ExpectedEntries}
    (h : Layout tree expected) : ∃ observed, walkTree tree expected = .ok observed := by
  have hkept : ∀ e ∈ tree.entries, inspectEntry expected e = .ok true := fun e hin =>
    (h.admitted e hin).inspect
  obtain ⟨found, hfound, hperm⟩ := DirectoryTree.exists_walk_perm (fun _ _ => stack_perm) hkept
  refine ⟨identitiesOf found, ?_⟩
  unfold walkTree
  simp only [hfound, bind, Except.bind]
  have habsent : ((expectedPaths expected).find? fun relative =>
      !((DirectoryTree.directoriesOf found).map pathPoints).contains (pointsOf relative) &&
        !((identitiesOf found).map Prod.fst).contains (pointsOf relative)) = none := by
    rw [List.find?_eq_none]
    intro relative hin
    have hseen := (seen_or_observed_iff hperm h.admitted).mpr
      (h.present relative (mem_expectedPaths.mp hin))
    simp only [Bool.and_eq_true, Bool.not_eq_true', not_and_or, Bool.not_eq_false,
      List.contains_iff_mem]
    exact hseen
  rw [habsent]

end Installation
end Client
end Nauro
