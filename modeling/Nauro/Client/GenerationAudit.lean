import Nauro.Client.GenerationTree

/-!
# What the audits of a generation root accept

* `surveyInstalledRoot_ok`, `HoldsExactly.survey` — the audit against the manifest of the tree.
-/

namespace Nauro
namespace Client
namespace Installation

open Foundation Foundation.EscapedUtf8 Nauro.Core Nauro.Sync

/-! ## The paths of a generation root -/

def manifestFile : FileName := ⟨utf8 manifestName, by decide, by decide⟩
def storeName : FileName := ⟨utf8 storeDir, by decide, by decide⟩

theorem manifestFile_points : manifestFile.points = pointsOf manifestName :=
  decode_utf8 manifestName

theorem storeName_points : storeName.points = pointsOf storeDir :=
  decode_utf8 storeDir

theorem nativePath?_of_points {text : Text} {name : FileName} (h : name.points = pointsOf text) :
    nativePath? text = some [name] := by
  rw [nativePath?_eq_some_iff (List.cons_ne_nil name [])]
  show [Point.scalar '/'].intercalate [name.points] = _
  rw [List.intercalate_singleton]
  exact h

theorem nativePath?_manifestName : nativePath? manifestName = some [manifestFile] :=
  nativePath?_of_points manifestFile_points

theorem nativePath?_storeDir : nativePath? storeDir = some [storeName] :=
  nativePath?_of_points storeName_points

theorem splitOn_storeRelative (path : Text) :
    (storeRelative path).splitOn '/' = storeDir :: path.splitOn '/' := by
  rw [storeRelative, List.splitOn_append_cons_self, List.splitOn_eq_singleton (by decide)]
  rfl

theorem nativePath?_eq_some_iff_map {text : Text} {path : List FileName} :
    nativePath? text = some path ↔
      path.map FileName.points = (text.splitOn '/').map pointsOf := by
  rw [nativePath?]
  exact mapM_eq_some_iff fun _ _ => FileName.ofText?_eq_some_iff

theorem nativePath?_storeRelative {path : Text} {native : List FileName} :
    nativePath? (storeRelative path) = some native ↔
      ∃ rest, nativePath? path = some rest ∧ native = storeName :: rest := by
  rw [nativePath?_eq_some_iff_map, splitOn_storeRelative, List.map_cons]
  constructor
  · intro h
    obtain ⟨name, rest, rfl, hname, hrest⟩ := List.map_eq_cons_iff.mp h
    refine ⟨rest, nativePath?_eq_some_iff_map.mpr hrest, ?_⟩
    rw [FileName.points_injective (hname.trans storeName_points.symm)]
  · rintro ⟨rest, hrest, rfl⟩
    rw [List.map_cons, nativePath?_eq_some_iff_map.mp hrest]
    exact congrArg (· :: _) storeName_points

theorem nativePath?_injective {text text' : Text} {path : List FileName}
    (h : nativePath? text = some path) (h' : nativePath? text' = some path) : text = text' := by
  have hne := nativePath?_ne_nil h
  exact pointsOf_injective (((nativePath?_eq_some_iff hne).mp h).symm.trans
    ((nativePath?_eq_some_iff hne).mp h'))

theorem splitOn_intercalate_take {relative : Text} {depth : Nat} (hdepth : 1 ≤ depth) :
    (['/'].intercalate ((relative.splitOn '/').take depth)).splitOn '/' =
      (relative.splitOn '/').take depth := by
  refine List.splitOn_intercalate '/' (fun part hpart => ?_) ?_
  · exact LineText.notMem_of_mem_splitOn (List.mem_of_mem_take hpart)
  · rw [Ne, List.take_eq_nil_iff, not_or]
    exact ⟨by omega, List.splitOn_ne_nil '/' relative⟩

theorem length_of_nativePath? {relative : Text} {path : List FileName}
    (h : nativePath? relative = some path) : path.length = (relative.splitOn '/').length := by
  have hlength := congrArg List.length (nativePath?_eq_some_iff_map.mp h)
  rwa [List.length_map, List.length_map] at hlength

theorem nativePath?_intercalate_take {relative : Text} {path : List FileName}
    (h : nativePath? relative = some path) {depth : Nat} (hdepth : 1 ≤ depth) :
    nativePath? (['/'].intercalate ((relative.splitOn '/').take depth)) =
      some (path.take depth) := by
  rw [nativePath?_eq_some_iff_map, splitOn_intercalate_take hdepth, List.map_take, List.map_take,
    nativePath?_eq_some_iff_map.mp h]

theorem mem_parentsOf {relative d : Text} :
    d ∈ parentsOf relative ↔ ∃ depth, 1 ≤ depth ∧ depth < (relative.splitOn '/').length ∧
      d = ['/'].intercalate ((relative.splitOn '/').take depth) := by
  have hpos := List.length_pos_iff.mpr (List.splitOn_ne_nil '/' relative)
  unfold parentsOf
  simp only [List.mem_map, List.mem_range'_1]
  constructor
  · rintro ⟨depth, ⟨hone, hless⟩, rfl⟩
    exact ⟨depth, hone, by omega, rfl⟩
  · rintro ⟨depth, hone, hless, rfl⟩
    exact ⟨depth, ⟨hone, by omega⟩, rfl⟩

/-- The parents of a path are paths of directories above it. -/
theorem nativePath?_of_mem_parentsOf {relative d : Text} {path : List FileName}
    (h : nativePath? relative = some path) (hd : d ∈ parentsOf relative) :
    ∃ dir, nativePath? d = some dir ∧ dir ≠ [] ∧ dir <+: path ∧ dir ≠ path := by
  obtain ⟨depth, hone, hless, rfl⟩ := mem_parentsOf.mp hd
  refine ⟨_, nativePath?_intercalate_take h hone, ?_, List.take_prefix depth path, fun heq => ?_⟩
  · rw [Ne, List.take_eq_nil_iff, not_or]
    exact ⟨by omega, nativePath?_ne_nil h⟩
  · have hlength := congrArg List.length heq
    rw [List.length_take, length_of_nativePath? h] at hlength
    omega

theorem exists_mem_parentsOf {relative : Text} {path dir : List FileName}
    (h : nativePath? relative = some path) (hne : dir ≠ []) (hleading : dir <+: path)
    (hproper : dir ≠ path) : ∃ d ∈ parentsOf relative, nativePath? d = some dir := by
  have hlt : dir.length < path.length :=
    lt_of_le_of_ne hleading.length_le fun heq => hproper (hleading.eq_of_length heq)
  have hpos := List.length_pos_iff.mpr hne
  rw [length_of_nativePath? h] at hlt
  refine ⟨_, mem_parentsOf.mpr ⟨dir.length, hpos, hlt, rfl⟩, ?_⟩
  rw [nativePath?_intercalate_take h hpos, ← List.prefix_iff_eq_take.mp hleading]

/-! ## Temporary siblings -/

theorem getLast?_of_isTmpName {name : List Point} (h : isTmpName name = true) :
    name.getLast? = some (.scalar 'p') := by
  simp only [isTmpName, Bool.and_eq_true] at h
  obtain ⟨front, rfl⟩ := List.isSuffixOf_iff_suffix.mp h.1.1.2
  rw [List.getLast?_append]
  rfl

/-- No name on the way to a path is one of a temporary sibling. -/
theorem settled_of_nativePath? {relative : Text} {path dir : List FileName}
    (h : nativePath? relative = some path)
    (hends : ∀ segment ∈ relative.splitOn '/', segment.getLast? ≠ some 'p')
    (hleading : dir <+: path) : (dir.getLast?.any fun name => isTmpName name.points) = false := by
  refine eq_false_of_ne_true fun htmp => ?_
  obtain ⟨name, hname, htmp⟩ := (Option.any_eq_true ..).mp htmp
  have hpoints : name.points ∈ (relative.splitOn '/').map pointsOf := by
    rw [← nativePath?_eq_some_iff_map.mp h]
    exact List.mem_map_of_mem (hleading.subset (List.mem_of_getLast? hname))
  obtain ⟨segment, hsegment, hpoints⟩ := List.mem_map.mp hpoints
  have hlast := getLast?_of_isTmpName htmp
  rw [← hpoints, pointsOf, List.getLast?_map, Option.map_eq_some_iff] at hlast
  obtain ⟨c, hc, heq⟩ := hlast
  exact hends segment hsegment (Point.scalar.inj heq ▸ hc)

theorem ends_manifestName : ∀ segment ∈ manifestName.splitOn '/', segment.getLast? ≠ some 'p' := by
  decide

theorem ends_storeDir : ∀ segment ∈ storeDir.splitOn '/', segment.getLast? ≠ some 'p' := by
  decide

theorem ends_storeRelative {path : Text} (h : isProtectedMember path = true) :
    ∀ segment ∈ (storeRelative path).splitOn '/', segment.getLast? ≠ some 'p' := by
  rw [splitOn_storeRelative]
  intro segment hsegment
  rcases List.mem_cons.mp hsegment with rfl | hsegment
  · decide
  · intro hlast
    have hin := getLast?_of_isProtectedMember h segment hsegment
    rw [hlast] at hin
    revert hin
    decide

/-! ## Exact trees -/

variable {rules : ProjectionRules} {projection : VerifiedProjection rules} {tree : FileTree}

/-- A directory that a projection needs: the store, or one above an artifact. -/
def Needed (projection : VerifiedProjection rules) (dir : List FileName) : Prop :=
  dir = [storeName] ∨ ∃ artifact ∈ projection.artifacts, ∃ path,
    nativePath? (storeRelative artifact.1) = some path ∧ dir ≠ [] ∧ dir <+: path ∧ dir ≠ path

/-- The tree holds the manifest, the artifacts in the store and the directories of these, and
nothing else; none of its files has another name. -/
structure HoldsExactly (tree : FileTree) (projection : VerifiedProjection rules) : Prop where
  manifest : ∃ identity, tree.node? [manifestFile] =
    some (.leaf (.regular ⟨projection.manifestJson, 0, identity⟩))
  artifact : ∀ artifact ∈ projection.artifacts, ∃ path identity,
    nativePath? (storeRelative artifact.1) = some path ∧
      tree.node? path = some (.leaf (.regular ⟨artifact.2, 0, identity⟩))
  directory : ∀ dir, Needed projection dir → tree.node? dir = some .directory
  only : ∀ e ∈ tree.entries, e.1 = [manifestFile] ∨
    (∃ artifact ∈ projection.artifacts, nativePath? (storeRelative artifact.1) = some e.1) ∨
      Needed projection e.1

theorem isProtectedMember_of_mem {artifact : Text × Bytes} (h : artifact ∈ projection.artifacts) :
    isProtectedMember artifact.1 = true := by
  have hin : (artifact.1, rules.sha256 artifact.2) ∈ projection.manifest.artifacts := by
    rw [← projection.listed]
    exact List.mem_map_of_mem h
  exact projection.manifest.members _ hin

/-- A regular file of a tree that the walk accepts has one name. -/
theorem otherNames_of_layout {expected : ExpectedEntries} (hlayout : Layout tree expected)
    {path : List FileName} {file : RegularFile}
    (h : tree.node? path = some (.leaf (.regular file))) : file.otherNames = 0 := by
  rcases (hlayout.admitted _ (DirectoryTree.node?_eq_some_iff.mp h)).known with
    ⟨hdir, -⟩ | ⟨file', hfile, hone, -⟩
  · cases hdir
  · cases hfile
    exact hone

section Layout

variable {manifestLength : Nat} {artifacts : List (Text × Nat)}
  (hnames : artifacts.map Prod.fst = projection.artifacts.map Prod.fst)

include hnames

theorem mem_expectedOf_files {relative : Text} :
    relative ∈ (expectedOf manifestLength artifacts).files.map Prod.fst ↔
      relative = manifestName ∨
        ∃ artifact ∈ projection.artifacts, relative = storeRelative artifact.1 := by
  have hfiles : (expectedOf manifestLength artifacts).files.map Prod.fst =
      manifestName :: (projection.artifacts.map Prod.fst).map storeRelative := by
    rw [← hnames, List.map_map, expectedOf, List.map_cons, List.map_map]
    rfl
  rw [hfiles, List.mem_cons, List.map_map, List.mem_map]
  refine or_congr_right (exists_congr fun artifact => and_congr_right fun _ => ?_)
  exact eq_comm

theorem mem_expectedOf_directories {d : Text} :
    d ∈ (expectedOf manifestLength artifacts).directories ↔
      d = storeDir ∨ ∃ artifact ∈ projection.artifacts, d ∈ parentsOf (storeRelative artifact.1) := by
  have hdirectories : (expectedOf manifestLength artifacts).directories =
      storeDir :: (projection.artifacts.map Prod.fst).flatMap fun path =>
        parentsOf (storeRelative path) := by
    rw [← hnames, List.flatMap_map]
    rfl
  rw [hdirectories, List.mem_cons, List.flatMap_map, List.mem_flatMap]

/-- The walk admits every entry of an exact tree, and misses none. -/
theorem HoldsExactly.layout (h : HoldsExactly tree projection) :
    Layout tree (expectedOf manifestLength artifacts) where
  admitted e hin := by
    have hnode := DirectoryTree.node?_eq_some_iff.mpr hin
    rcases h.only e hin with hpath | ⟨artifact, hartifact, hnative⟩ | hneeded
    · obtain ⟨identity, hfile⟩ := h.manifest
      rw [← hpath, hnode] at hfile
      have hnative := nativePath?_manifestName
      rw [← hpath] at hnative
      obtain ⟨f, hf, hname⟩ := List.mem_map.mp ((mem_expectedOf_files hnames).mpr (Or.inl rfl))
      exact ⟨settled_of_nativePath? hnative ends_manifestName (List.prefix_refl _),
        Or.inr ⟨_, Option.some.inj hfile, rfl, f, hf, hname ▸ hnative⟩⟩
    · obtain ⟨path, identity, hnative', hfile⟩ := h.artifact artifact hartifact
      rw [← Option.some.inj (hnative.symm.trans hnative'), hnode] at hfile
      obtain ⟨f, hf, hname⟩ := List.mem_map.mp
        ((mem_expectedOf_files hnames).mpr (Or.inr ⟨artifact, hartifact, rfl⟩))
      exact ⟨settled_of_nativePath? hnative
          (ends_storeRelative (isProtectedMember_of_mem hartifact)) (List.prefix_refl _),
        Or.inr ⟨_, Option.some.inj hfile, rfl, f, hf, hname ▸ hnative⟩⟩
    · have hdir := h.directory e.1 hneeded
      rw [hnode] at hdir
      rcases hneeded with hpath | ⟨artifact, hartifact, path, hnative, hne, hleading, hproper⟩
      · have hnative := nativePath?_storeDir
        rw [← hpath] at hnative
        exact ⟨settled_of_nativePath? hnative ends_storeDir (List.prefix_refl _),
          Or.inl ⟨Option.some.inj hdir, storeDir,
            (mem_expectedOf_directories hnames).mpr (Or.inl rfl), hnative⟩⟩
      · obtain ⟨d, hd, hnative'⟩ := exists_mem_parentsOf hnative hne hleading hproper
        exact ⟨settled_of_nativePath? hnative
            (ends_storeRelative (isProtectedMember_of_mem hartifact)) hleading,
          Or.inl ⟨Option.some.inj hdir, d,
            (mem_expectedOf_directories hnames).mpr (Or.inr ⟨artifact, hartifact, hd⟩), hnative'⟩⟩
  present relative hrelative := by
    rw [mem_expectedOf_files hnames, mem_expectedOf_directories hnames] at hrelative
    rcases hrelative with (rfl | ⟨artifact, hartifact, hd⟩) | (rfl | ⟨artifact, hartifact, rfl⟩)
    · exact ⟨_, nodeAt_eq_some_iff.mpr
        ⟨_, nativePath?_storeDir, h.directory _ (Or.inl rfl)⟩⟩
    · obtain ⟨path, -, hnative, -⟩ := h.artifact artifact hartifact
      obtain ⟨dir, hdir, hleading⟩ := nativePath?_of_mem_parentsOf hnative hd
      exact ⟨_, nodeAt_eq_some_iff.mpr ⟨dir, hdir, h.directory dir
        (Or.inr ⟨artifact, hartifact, path, hnative, hleading⟩)⟩⟩
    · obtain ⟨identity, hfile⟩ := h.manifest
      exact ⟨_, nodeAt_eq_some_iff.mpr ⟨_, nativePath?_manifestName, hfile⟩⟩
    · obtain ⟨path, identity, hnative, hfile⟩ := h.artifact artifact hartifact
      exact ⟨_, nodeAt_eq_some_iff.mpr ⟨path, hnative, hfile⟩⟩

/-- A tree that the walk accepts is exact when its files hold the bytes of the projection. -/
theorem holdsExactly_of_layout (hlayout : Layout tree (expectedOf manifestLength artifacts))
    (hmanifest : ∃ file : RegularFile, nodeAt tree manifestName = some (.leaf (.regular file)) ∧
      file.content = projection.manifestJson)
    (hartifacts : ∀ artifact ∈ projection.artifacts, ∃ file : RegularFile,
      nodeAt tree (storeRelative artifact.1) = some (.leaf (.regular file)) ∧
        file.content = artifact.2) :
    HoldsExactly tree projection where
  manifest := by
    obtain ⟨⟨content, otherNames, identity⟩, hnode, rfl⟩ := hmanifest
    obtain ⟨path, hpath, hnode⟩ := nodeAt_eq_some_iff.mp hnode
    cases hpath.symm.trans nativePath?_manifestName
    cases otherNames_of_layout hlayout hnode
    exact ⟨identity, hnode⟩
  artifact artifact hartifact := by
    obtain ⟨⟨content, otherNames, identity⟩, hnode, rfl⟩ := hartifacts artifact hartifact
    obtain ⟨path, hpath, hnode⟩ := nodeAt_eq_some_iff.mp hnode
    cases otherNames_of_layout hlayout hnode
    exact ⟨path, identity, hpath, hnode⟩
  directory dir hneeded := by
    rcases hneeded with rfl | ⟨artifact, hartifact, path, hnative, hne, hleading, hproper⟩
    · obtain ⟨node, hnode⟩ := hlayout.present storeDir
        (Or.inl ((mem_expectedOf_directories hnames).mpr (Or.inl rfl)))
      obtain ⟨path, hpath, hnode⟩ := nodeAt_eq_some_iff.mp hnode
      cases hpath.symm.trans nativePath?_storeDir
      rcases (hlayout.admitted _ (DirectoryTree.node?_eq_some_iff.mp hnode)).known with
        ⟨hdir, -⟩ | ⟨file, -, -, f, hf, hnative⟩
      · exact hnode.trans (congrArg some hdir)
      · -- no file has the name of the store
        have hname := (mem_expectedOf_files hnames).mp (List.mem_map_of_mem hf)
        have hpath := nativePath?_injective hnative nativePath?_storeDir
        rw [hpath] at hname
        rcases hname with hname | ⟨artifact, -, hname⟩
        · exact absurd hname (by decide)
        · have hlength := congrArg List.length hname
          rw [storeRelative, List.length_append, List.length_cons] at hlength
          omega
    · obtain ⟨file, hnode, -⟩ := hartifacts artifact hartifact
      obtain ⟨path', hpath, hnode⟩ := nodeAt_eq_some_iff.mp hnode
      cases hpath.symm.trans hnative
      exact DirectoryTree.node?_of_isPrefix hnode hleading hproper hne
  only e hin := by
    rcases (hlayout.admitted e hin).known with ⟨-, d, hd, hnative⟩ | ⟨file, -, -, f, hf, hnative⟩
    · rcases (mem_expectedOf_directories hnames).mp hd with rfl | ⟨artifact, hartifact, hd⟩
      · exact Or.inr (Or.inr (Or.inl (Option.some.inj
          (hnative.symm.trans nativePath?_storeDir))))
      · obtain ⟨file, hnode, -⟩ := hartifacts artifact hartifact
        obtain ⟨path, hpath, -⟩ := nodeAt_eq_some_iff.mp hnode
        obtain ⟨dir, hdir, hleading⟩ := nativePath?_of_mem_parentsOf hpath hd
        rw [Option.some.inj (hnative.symm.trans hdir)]
        exact Or.inr (Or.inr (Or.inr ⟨artifact, hartifact, path, hpath, hleading⟩))
    · rcases (mem_expectedOf_files hnames).mp (List.mem_map_of_mem hf) with
        hname | ⟨artifact, hartifact, hname⟩
      · rw [hname] at hnative
        exact Or.inl (Option.some.inj (hnative.symm.trans nativePath?_manifestName))
      · exact Or.inr (Or.inl ⟨artifact, hartifact, hname ▸ hnative⟩)

end Layout

/-! ## Reading the files -/

theorem storeRelative_injective : Function.Injective storeRelative := fun _ _ h =>
  (List.cons.inj (List.append_cancel_left h)).2

theorem storeRelative_ne_manifestName (path : Text) : storeRelative path ≠ manifestName := by
  intro h
  have hhead : some 's' = some 'm' := congrArg List.head? h
  exact absurd (Option.some.inj hhead) (by decide)

theorem artifacts_paths : projection.artifacts.map Prod.fst = projection.manifest.paths := by
  rw [ProjectionManifest.paths, ← projection.listed, List.map_map]
  rfl

theorem lookup_expectedEntries {artifact : Text × Bytes} (h : artifact ∈ projection.artifacts) :
    (expectedEntries projection).files.lookup (storeRelative artifact.1) =
      some artifact.2.length := by
  have hkeys : (expectedEntries projection).files.map Prod.fst =
      manifestName :: projection.manifest.paths.map storeRelative := by
    rw [← artifacts_paths, List.map_map]
    show manifestName :: (List.map _ _).map _ = _
    rw [List.map_map, List.map_map]
    rfl
  have hdistinct : ((expectedEntries projection).files.map Prod.fst).Nodup := by
    rw [hkeys, List.nodup_cons]
    refine ⟨fun hin => ?_, projection.manifest.paths_nodup.map storeRelative_injective⟩
    obtain ⟨path, -, heq⟩ := List.mem_map.mp hin
    exact storeRelative_ne_manifestName path heq
  have hin : (storeRelative artifact.1, artifact.2.length) ∈ (expectedEntries projection).files :=
    List.mem_cons_of_mem _ (List.mem_map.mpr ⟨(artifact.1, artifact.2.length),
      List.mem_map_of_mem (f := fun artifact => (artifact.1, artifact.2.length)) h, rfl⟩)
  exact Table.lookup_of_mem hdistinct hin

theorem digest?_of_mem {artifact : Text × Bytes} (h : artifact ∈ projection.artifacts) :
    projection.manifest.digest? artifact.1 = some (rules.sha256 artifact.2) := by
  have hin : (artifact.1, rules.sha256 artifact.2) ∈ projection.manifest.artifacts := by
    rw [← projection.listed]
    exact List.mem_map_of_mem (f := fun artifact => (artifact.1, rules.sha256 artifact.2)) h
  exact Table.lookup_of_mem projection.manifest.paths_nodup hin

theorem lookup_of_observes {observed : List (List Point × FileIdentity)}
    (hobserves : Observes tree observed) {relative : Text} {file : RegularFile}
    (h : nodeAt tree relative = some (.leaf (.regular file))) :
    observed.lookup (pointsOf relative) = some file.identity := by
  obtain ⟨path, hnative, hnode⟩ := nodeAt_eq_some_iff.mp h
  have hne := nativePath?_ne_nil hnative
  have hpoints : pathPoints path = pointsOf relative := (nativePath?_eq_some_iff hne).mp hnative
  rw [← hpoints]
  exact (hobserves path hne file.identity).mpr ⟨file, hnode, rfl⟩

/-- What is read of an observed file is what it begins with. -/
theorem readObserved_ok_iff {expected : ExpectedEntries}
    {observed : List (List Point × FileIdentity)} (hobserves : Observes tree observed)
    {relative : Text} {length : Nat} (hlength : expected.files.lookup relative = some length)
    {content : Bytes} :
    readObserved tree expected observed relative = .ok content ↔
      ∃ file : RegularFile, nodeAt tree relative = some (.leaf (.regular file)) ∧
        content = file.content.take (length + 1) := by
  unfold readObserved
  rw [hlength]
  constructor
  · intro h
    cases hidentity : observed.lookup (pointsOf relative) with
    | none => rw [hidentity] at h; cases h
    | some identity =>
        simp only [hidentity, readExpected] at h
        split at h
        · cases h
        · cases h
        · cases h
        · cases h
        · next file hnode =>
            split_ifs at h
            exact ⟨file, hnode, (Except.ok.inj h).symm⟩
  · rintro ⟨file, hnode, rfl⟩
    rw [lookup_of_observes hobserves hnode]
    simp only [readExpected, hnode]
    exact if_neg (not_not.mpr rfl)

/-- What the audits read of a tree. -/
def readings (tree : FileTree) (projection : VerifiedProjection rules) : Set Bytes :=
  {material | ∃ relative length, (relative, length) ∈ (expectedEntries projection).files ∧
    ∃ file : RegularFile, nodeAt tree relative = some (.leaf (.regular file)) ∧
      (material = file.content ∨ material = file.content.take (length + 1))}

theorem eq_of_take_succ {content expected : Bytes}
    (h : content.take (expected.length + 1) = expected) : content = expected := by
  have hlength := congrArg List.length h
  rw [List.length_take] at hlength
  have hshort : content.length ≤ expected.length + 1 := by omega
  rwa [List.take_of_length_le hshort] at h

theorem take_succ_self (content : Bytes) : content.take (content.length + 1) = content :=
  List.take_of_length_le (Nat.le_succ _)

theorem mem_readings {relative : Text} {length : Nat} {file : RegularFile}
    (hlength : (expectedEntries projection).files.lookup relative = some length)
    (hnode : nodeAt tree relative = some (.leaf (.regular file))) :
    file.content ∈ readings tree projection ∧
      file.content.take (length + 1) ∈ readings tree projection :=
  ⟨⟨relative, length, Table.mem_of_lookup hlength, file, hnode, Or.inl rfl⟩,
    ⟨relative, length, Table.mem_of_lookup hlength, file, hnode, Or.inr rfl⟩⟩

/-! ## The audit against the projection -/

/-- What is told of a tree that passes. -/
def auditOf (projection : VerifiedProjection rules) : GenerationRootAudit where
  manifestDigest := projection.target.identity.manifestDigest
  artifactCount := projection.artifacts.length
  byteTotal := projection.manifestJson.length +
    (projection.artifacts.map fun artifact => artifact.2.length).sum

theorem auditArtifacts_ok {observed : List (List Point × FileIdentity)}
    (hobserves : Observes tree observed) {rest : List (Text × Bytes)}
    (hrest : rest ⊆ projection.artifacts) {total sum : Nat}
    (h : auditArtifacts tree projection observed total rest = .ok sum) :
    ∀ artifact ∈ rest, ∃ file : RegularFile,
      nodeAt tree (storeRelative artifact.1) = some (.leaf (.regular file)) ∧
        rules.sha256 (file.content.take (artifact.2.length + 1)) = rules.sha256 artifact.2 := by
  induction rest generalizing total with
  | nil => exact fun _ hin => absurd hin List.not_mem_nil
  | cons first rest ih =>
      obtain ⟨hfirst, hrest⟩ := List.cons_subset.mp hrest
      rw [auditArtifacts] at h
      cases hread : readObserved tree (expectedEntries projection) observed
          (storeRelative first.1) with
      | error error => rw [hread] at h; cases h
      | ok content =>
          simp only [hread, bind, Except.bind] at h
          split_ifs at h with hdigest
          rw [not_not, digest?_of_mem hfirst] at hdigest
          obtain ⟨file, hnode, rfl⟩ :=
            (readObserved_ok_iff hobserves (lookup_expectedEntries hfirst)).mp hread
          exact List.forall_mem_cons.mpr
            ⟨⟨file, hnode, (Option.some.inj hdigest).symm⟩, ih hrest h⟩

/-- An accepted tree is exact when no two byte strings that are read have one digest. -/
theorem auditGenerationTree_ok {audit : GenerationRootAudit}
    (hdistinct : Set.InjOn rules.sha256 (projection.materials ∪ readings tree projection))
    (h : auditGenerationTree tree projection = .ok audit) : HoldsExactly tree projection := by
  unfold auditGenerationTree at h
  simp only at h
  cases hwalk : walkTree tree (expectedEntries projection) with
  | error error => rw [hwalk] at h; cases h
  | ok observed =>
      obtain ⟨hlayout, hobserves⟩ := walkTree_ok hwalk
      simp only [hwalk, bind, Except.bind] at h
      cases hmanifest : readObserved tree (expectedEntries projection) observed manifestName with
      | error error => rw [hmanifest] at h; cases h
      | ok manifest =>
          simp only [hmanifest] at h
          split_ifs at h with hdiverges
          rw [not_or, not_not, not_not] at hdiverges
          cases hartifacts : auditArtifacts tree projection observed manifest.length
              projection.artifacts with
          | error error => rw [hartifacts] at h; cases h
          | ok total =>
              obtain ⟨file, hnode, hcontent⟩ :=
                (readObserved_ok_iff hobserves (List.lookup_cons_self)).mp hmanifest
              rw [hdiverges.1] at hcontent
              refine holdsExactly_of_layout ?_ hlayout ⟨file, hnode, ?_⟩ fun artifact hin => ?_
              · rw [List.map_map]
                rfl
              · exact eq_of_take_succ hcontent.symm
              · obtain ⟨file, hnode, hdigest⟩ :=
                  auditArtifacts_ok hobserves (List.Subset.refl _) hartifacts artifact hin
                refine ⟨file, hnode, eq_of_take_succ (hdistinct (Or.inr ?_) (Or.inl ?_) hdigest)⟩
                · exact (mem_readings (lookup_expectedEntries hin) hnode).2
                · exact Or.inr ⟨artifact.1, hin⟩

theorem nodeAt_artifact (h : HoldsExactly tree projection) {artifact : Text × Bytes}
    (hin : artifact ∈ projection.artifacts) : ∃ identity,
      nodeAt tree (storeRelative artifact.1) =
        some (.leaf (.regular ⟨artifact.2, 0, identity⟩)) := by
  obtain ⟨path, identity, hnative, hnode⟩ := h.artifact artifact hin
  exact ⟨identity, nodeAt_eq_some_iff.mpr ⟨path, hnative, hnode⟩⟩

theorem nodeAt_manifest (h : HoldsExactly tree projection) : ∃ identity,
    nodeAt tree manifestName =
      some (.leaf (.regular ⟨projection.manifestJson, 0, identity⟩)) := by
  obtain ⟨identity, hnode⟩ := h.manifest
  exact ⟨identity, nodeAt_eq_some_iff.mpr ⟨_, nativePath?_manifestName, hnode⟩⟩

theorem HoldsExactly.auditArtifacts (h : HoldsExactly tree projection)
    {observed : List (List Point × FileIdentity)} (hobserves : Observes tree observed)
    {rest : List (Text × Bytes)} (hrest : rest ⊆ projection.artifacts) (total : Nat) :
    auditArtifacts tree projection observed total rest =
      .ok (total + (rest.map fun artifact => artifact.2.length).sum) := by
  induction rest generalizing total with
  | nil => rfl
  | cons first rest ih =>
      obtain ⟨hfirst, hrest⟩ := List.cons_subset.mp hrest
      obtain ⟨identity, hnode⟩ := nodeAt_artifact h hfirst
      have hread := (readObserved_ok_iff hobserves (lookup_expectedEntries hfirst)).mpr
        ⟨_, hnode, rfl⟩
      rw [Installation.auditArtifacts, hread]
      simp only [bind, Except.bind, take_succ_self, digest?_of_mem hfirst, ne_eq, not_true_eq_false,
        if_false]
      rw [ih hrest, List.map_cons, List.sum_cons, Nat.add_assoc]

theorem HoldsExactly.audit (h : HoldsExactly tree projection) :
    auditGenerationTree tree projection = .ok (auditOf projection) := by
  have hnames : (projection.artifacts.map fun artifact => (artifact.1, artifact.2.length)).map
      Prod.fst = projection.artifacts.map Prod.fst := by
    rw [List.map_map]
    rfl
  have hlayout : Layout tree (expectedEntries projection) := h.layout hnames
  obtain ⟨observed, hwalk⟩ := exists_walkTree hlayout
  obtain ⟨-, hobserves⟩ := walkTree_ok hwalk
  obtain ⟨identity, hnode⟩ := nodeAt_manifest h
  have hread : readObserved tree (expectedEntries projection) observed manifestName =
      .ok projection.manifestJson :=
    (readObserved_ok_iff hobserves List.lookup_cons_self).mpr
      ⟨_, hnode, (take_succ_self projection.manifestJson).symm⟩
  have hdigest := (parseManifest_ok projection.parsed).1
  unfold auditGenerationTree
  simp only [hwalk, bind, Except.bind, hread, hdigest, ne_eq, not_true_eq_false, or_self, if_false,
    h.auditArtifacts hobserves (List.Subset.refl _)]
  rfl

/-! ## The audit against the manifest of the tree -/

theorem installedFile_ok_iff {relative display : Text} {identity : FileIdentity} {size : Nat} :
    installedFile tree relative display = .ok (identity, size) ↔
      ∃ file : RegularFile, nodeAt tree relative = some (.leaf (.regular file)) ∧
        file.otherNames = 0 ∧ file.identity = identity ∧ file.content.length = size := by
  unfold installedFile
  constructor
  · intro h
    split at h
    · cases h
    · cases h
    · cases h
    · cases h
    · next file hnode =>
        split_ifs at h with hlinks
        cases h
        rw [RegularFile.links] at hlinks
        exact ⟨file, hnode, by omega, rfl, rfl⟩
  · rintro ⟨file, hnode, hone, rfl, rfl⟩
    rw [hnode]
    refine if_neg ?_
    rw [RegularFile.links, hone]
    omega

theorem streamDigest_ok {relative display : Text} {identity : FileIdentity} {size read : Nat}
    {expected : Digest} {mismatch : AuditError} {file : RegularFile}
    (hnode : nodeAt tree relative = some (.leaf (.regular file)))
    (h : streamDigest rules tree relative identity size expected display mismatch = .ok read) :
    rules.sha256 file.content = expected := by
  unfold streamDigest at h
  rw [hnode] at h
  simp only at h
  split_ifs at h with hchanged hdigest
  exact not_not.mp hdigest

theorem streamDigest_of_node {relative : Text} (display : Text) {content : Bytes}
    {identity : FileIdentity} (mismatch : AuditError)
    (hnode : nodeAt tree relative = some (.leaf (.regular ⟨content, 0, identity⟩))) :
    streamDigest rules tree relative identity content.length (rules.sha256 content) display
      mismatch = .ok content.length := by
  unfold streamDigest
  rw [hnode]
  simp only [RegularFile.links, ne_eq, not_true_eq_false, or_self, if_false]

theorem auditListed_ok {observed : List (List Point × FileIdentity)}
    {rest : List (Text × Digest)} {total sum : Nat}
    (h : auditListed rules tree observed total rest = .ok sum) :
    ∀ artifact ∈ rest, ∃ file : RegularFile,
      nodeAt tree (storeRelative artifact.1) = some (.leaf (.regular file)) ∧
        rules.sha256 file.content = artifact.2 := by
  induction rest generalizing total with
  | nil => exact fun _ hin => absurd hin List.not_mem_nil
  | cons first rest ih =>
      rw [auditListed] at h
      cases hinstalled : installedFile tree (storeRelative first.1) first.1 with
      | error error => rw [hinstalled] at h; cases h
      | ok found =>
          obtain ⟨identity, size⟩ := found
          simp only [hinstalled, bind, Except.bind] at h
          split_ifs at h
          cases hread : streamDigest rules tree (storeRelative first.1) identity size first.2
              first.1 (.artifactDiverges first.1) with
          | error error => rw [hread] at h; cases h
          | ok read =>
              rw [hread] at h
              obtain ⟨file, hnode, -⟩ := installedFile_ok_iff.mp hinstalled
              exact List.forall_mem_cons.mpr ⟨⟨file, hnode, streamDigest_ok hnode hread⟩, ih h⟩

theorem HoldsExactly.auditListed (h : HoldsExactly tree projection)
    {observed : List (List Point × FileIdentity)} (hobserves : Observes tree observed)
    {rest : List (Text × Bytes)} (hrest : rest ⊆ projection.artifacts) (total : Nat) :
    auditListed rules tree observed total
        (rest.map fun artifact => (artifact.1, rules.sha256 artifact.2)) =
      .ok (total + (rest.map fun artifact => artifact.2.length).sum) := by
  induction rest generalizing total with
  | nil => rfl
  | cons first rest ih =>
      obtain ⟨hfirst, hrest⟩ := List.cons_subset.mp hrest
      obtain ⟨identity, hnode⟩ := nodeAt_artifact h hfirst
      have hinstalled : installedFile tree (storeRelative first.1) first.1 =
          .ok (identity, first.2.length) :=
        installedFile_ok_iff.mpr ⟨_, hnode, rfl, rfl, rfl⟩
      rw [List.map_cons, Installation.auditListed]
      simp only [hinstalled, bind, Except.bind, lookup_of_observes hobserves hnode, ne_eq,
        not_true_eq_false, if_false, streamDigest_of_node first.1 _ hnode]
      rw [ih hrest, List.map_cons, List.sum_cons, Nat.add_assoc]

/-- The names that are expected of a manifest are those of its projection. -/
theorem listed_names :
    (projection.manifest.artifacts.map fun artifact => (artifact.1, 0)).map Prod.fst =
      projection.artifacts.map Prod.fst := by
  rw [artifacts_paths, ProjectionManifest.paths, List.map_map]
  rfl

/-- A surveyed tree is exact when no two byte strings that are read have one digest. -/
theorem surveyInstalledRoot_ok {found : GenerationRootAudit × ProjectionManifest}
    (hdistinct : Set.InjOn rules.sha256 (projection.materials ∪ readings tree projection))
    (h : surveyInstalledRoot rules tree projection.target = .ok found) :
    HoldsExactly tree projection := by
  unfold surveyInstalledRoot at h
  simp only at h
  cases hinstalled : installedFile tree manifestName manifestName with
  | error error => rw [hinstalled] at h; cases h
  | ok installed =>
      obtain ⟨identity, size⟩ := installed
      simp only [hinstalled, bind, Except.bind] at h
      obtain ⟨file, hnode, -, hidentity, hsize⟩ := installedFile_ok_iff.mp hinstalled
      cases hstream : streamDigest rules tree manifestName identity size
          projection.target.identity.manifestDigest manifestName .manifestDiverges with
      | error error => rw [hstream] at h; cases h
      | ok read =>
          have hmanifestJson : file.content = projection.manifestJson := by
            refine hdistinct (Or.inr (mem_readings List.lookup_cons_self hnode).1)
              (Or.inl (Or.inl rfl)) ?_
            rw [streamDigest_ok hnode hstream, (parseManifest_ok projection.parsed).1]
          have hread : readExpected tree manifestName size identity =
              .ok projection.manifestJson := by
            unfold readExpected
            rw [hnode]
            simp only [hidentity, ne_eq, not_true_eq_false, if_false]
            rw [← hsize, take_succ_self, hmanifestJson]
          simp only [hstream, hread, projection.parsed] at h
          split_ifs at h
          cases hwalk : walkTree tree (expectedOf projection.manifestJson.length
              (projection.manifest.artifacts.map fun artifact => (artifact.1, 0))) with
          | error error => rw [hwalk] at h; cases h
          | ok observed =>
              obtain ⟨hlayout, -⟩ := walkTree_ok hwalk
              simp only [hwalk] at h
              split_ifs at h
              cases hlisted : auditListed rules tree observed projection.manifestJson.length
                  projection.manifest.artifacts with
              | error error => rw [hlisted] at h; cases h
              | ok total =>
                  refine holdsExactly_of_layout listed_names hlayout ⟨file, hnode, hmanifestJson⟩
                    fun artifact hin => ?_
                  have hlisting : (artifact.1, rules.sha256 artifact.2) ∈
                      projection.manifest.artifacts := by
                    rw [← projection.listed]
                    exact List.mem_map_of_mem
                      (f := fun artifact => (artifact.1, rules.sha256 artifact.2)) hin
                  obtain ⟨file, hnode, hdigest⟩ := auditListed_ok hlisted _ hlisting
                  refine ⟨file, hnode, hdistinct (Or.inr ?_) (Or.inl ?_) hdigest⟩
                  · exact (mem_readings (lookup_expectedEntries hin) hnode).1
                  · exact Or.inr ⟨artifact.1, hin⟩

theorem HoldsExactly.survey (h : HoldsExactly tree projection) :
    surveyInstalledRoot rules tree projection.target =
      .ok (auditOf projection, projection.manifest) := by
  obtain ⟨identity, hnode⟩ := nodeAt_manifest h
  have hinstalled : installedFile tree manifestName manifestName =
      .ok (identity, projection.manifestJson.length) :=
    installedFile_ok_iff.mpr ⟨_, hnode, rfl, rfl, rfl⟩
  have hstream : streamDigest rules tree manifestName identity projection.manifestJson.length
      projection.target.identity.manifestDigest manifestName .manifestDiverges =
        .ok projection.manifestJson.length := by
    rw [← (parseManifest_ok projection.parsed).1]
    exact streamDigest_of_node manifestName _ hnode
  have hread : readExpected tree manifestName projection.manifestJson.length identity =
      .ok projection.manifestJson := by
    unfold readExpected
    rw [hnode]
    simp only [ne_eq, not_true_eq_false, if_false, take_succ_self]
  have hlayout : Layout tree (expectedOf projection.manifestJson.length
      (projection.manifest.artifacts.map fun artifact => (artifact.1, 0))) := h.layout listed_names
  obtain ⟨observed, hwalk⟩ := exists_walkTree hlayout
  obtain ⟨-, hobserves⟩ := walkTree_ok hwalk
  have hlisted := h.auditListed hobserves (List.Subset.refl _) projection.manifestJson.length
  rw [projection.listed] at hlisted
  have hcount : projection.manifest.artifacts.length = projection.artifacts.length := by
    rw [← projection.listed, List.length_map]
  unfold surveyInstalledRoot
  simp only [hinstalled, bind, Except.bind, hstream, hread, ne_eq, not_true_eq_false, or_self,
    if_false, projection.parsed, hwalk, lookup_of_observes hobserves hnode, hlisted, hcount]
  rfl

end Installation
end Client
end Nauro
