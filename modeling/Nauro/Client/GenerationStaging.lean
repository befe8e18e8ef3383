import Nauro.Client.Acquisition
import Nauro.Client.GenerationAudit

/-!
# Staging a generation root

The files of a projection are written one after the other below a directory that was just made.

* `generation_audit_exact` — what the two audits accept.
-/

namespace Nauro
namespace Client
namespace Installation

open Foundation Nauro.Core Nauro.Sync

inductive StageError where
  | notDirectory
  | notStaged (relative : Text)
deriving DecidableEq

/-- Write files with their parents; `inode` tells which identities the system gives out. -/
def stageEntries (inode : List FileName → FileIdentity) (tree : FileTree) :
    List (Text × Bytes) → Except StageError FileTree
  | [] => .ok tree
  | (relative, content) :: rest =>
      match nativePath? relative with
      | none => .error (.notStaged relative)
      | some path =>
          match tree.ensureDirectory? path.dropLast with
          | none => .error .notDirectory
          | some made =>
              match made.put? path (.regular ⟨content, 0, inode path⟩) with
              | none => .error (.notStaged relative)
              | some written => stageEntries inode written rest

variable {rules : ProjectionRules}

/-- The files in the order in which they are written. -/
def stagedEntries (projection : VerifiedProjection rules) : List (Text × Bytes) :=
  projection.artifacts.map (fun artifact => (storeRelative artifact.1, artifact.2)) ++
    [(manifestName, projection.manifestJson)]

/-- `_stage_tree`, below a directory that was just made. -/
def stageTree (inode : List FileName → FileIdentity) (projection : VerifiedProjection rules) :
    Except StageError FileTree :=
  match DirectoryTree.empty.ensureDirectory? [storeName] with
  | none => .error .notDirectory
  | some start => stageEntries inode start (stagedEntries projection)

/-- What stands after some files are written. -/
structure Staged (tree : FileTree) (written : List (Text × Bytes)) : Prop where
  file : ∀ entry ∈ written, ∃ path identity, nativePath? entry.1 = some path ∧
    tree.node? path = some (.leaf (.regular ⟨entry.2, 0, identity⟩))
  store : tree.node? [storeName] = some .directory
  only : ∀ path node, tree.node? path = some node →
    path = [storeName] ∨ ∃ entry ∈ written, ∃ target, nativePath? entry.1 = some target ∧
      path <+: target

theorem staged_start {start : FileTree}
    (h : DirectoryTree.empty.ensureDirectory? [storeName] = some start) : Staged start [] where
  file _ hin := absurd hin List.not_mem_nil
  store := by
    rw [DirectoryTree.node?_ensureDirectory? h]
    exact if_pos ⟨List.cons_ne_nil _ _, List.prefix_refl _⟩
  only path node hnode := by
    rw [DirectoryTree.node?_ensureDirectory? h] at hnode
    split_ifs at hnode with hpath
    · refine Or.inl ?_
      rcases List.prefix_concat_iff.mp (show path <+: [] ++ [storeName] from hpath.2) with heq | hnil
      · exact heq
      · exact absurd (List.prefix_nil.mp hnil) hpath.1
    · cases hnode

/-- One more file. -/
theorem Staged.write {tree made after : FileTree} {written : List (Text × Bytes)}
    {relative : Text} {path : List FileName} {content : Bytes} {identity : FileIdentity}
    (h : Staged tree written) (hfresh : relative ∉ written.map Prod.fst)
    (hnative : nativePath? relative = some path)
    (hmade : tree.ensureDirectory? path.dropLast = some made)
    (hput : made.put? path (.regular ⟨content, 0, identity⟩) = some after) :
    Staged after (written ++ [(relative, content)]) := by
  have hmadeNode := DirectoryTree.node?_ensureDirectory? hmade
  have hafter := DirectoryTree.node?_put? hput
  refine ⟨fun entry hin => ?_, ?_, fun other node hnode => ?_⟩
  · rcases List.mem_append.mp hin with hin | hin
    · obtain ⟨target, identity', htarget, hnode⟩ := h.file entry hin
      refine ⟨target, identity', htarget, ?_⟩
      have hother : target ≠ path := by
        rintro rfl
        have hname := nativePath?_injective htarget hnative
        exact hfresh (hname ▸ List.mem_map_of_mem hin)
      have habove : ¬ (target ≠ [] ∧ target <+: path.dropLast) := fun hleading =>
        DirectoryTree.ne_leaf_of_ensureDirectory? hmade hleading.2 _ hnode
      rw [hafter, if_neg hother, hmadeNode, if_neg habove, hnode]
    · rw [List.mem_singleton.mp hin]
      exact ⟨path, identity, hnative, by rw [hafter, if_pos rfl]⟩
  · have hstore : made.node? [storeName] = some .directory := by
      rw [hmadeNode, h.store]
      split_ifs <;> rfl
    have hother : [storeName] ≠ path := by
      rintro rfl
      exact (DirectoryTree.put?_ok hput).2.1 hstore
    rw [hafter, if_neg hother, hstore]
  · rw [hafter] at hnode
    split_ifs at hnode with heq
    · exact Or.inr ⟨_, List.mem_append_right _ (List.mem_singleton_self _), path, hnative,
        heq ▸ List.prefix_refl _⟩
    · rw [hmadeNode] at hnode
      split_ifs at hnode with hleading
      · exact Or.inr ⟨_, List.mem_append_right _ (List.mem_singleton_self _), path, hnative,
          hleading.2.trans (List.dropLast_prefix path)⟩
      · rcases h.only other node hnode with heq | ⟨entry, hentry, hbelow⟩
        · exact Or.inl heq
        · exact Or.inr ⟨entry, List.mem_append_left _ hentry, hbelow⟩

theorem Staged.stageEntries {inode : List FileName → FileIdentity} {tree after : FileTree}
    {written rest : List (Text × Bytes)} (h : Staged tree written)
    (hdistinct : ((written ++ rest).map Prod.fst).Nodup)
    (hrun : stageEntries inode tree rest = .ok after) : Staged after (written ++ rest) := by
  induction rest generalizing tree written with
  | nil =>
      cases hrun
      rwa [List.append_nil]
  | cons entry rest ih =>
      obtain ⟨relative, content⟩ := entry
      unfold Installation.stageEntries at hrun
      split at hrun
      · cases hrun
      · next path hnative =>
          split at hrun
          · cases hrun
          · next made hmade =>
              split at hrun
              · cases hrun
              · next put hput =>
                  have hfresh : relative ∉ written.map Prod.fst := by
                    rw [List.map_append, List.nodup_append'] at hdistinct
                    exact fun hin => hdistinct.2.2 hin List.mem_cons_self
                  have hnext := h.write hfresh hnative hmade hput
                  rw [List.append_cons] at hdistinct ⊢
                  exact ih hnext hdistinct hrun

variable {projection : VerifiedProjection rules}

theorem stagedEntries_nodup (projection : VerifiedProjection rules) :
    ((stagedEntries projection).map Prod.fst).Nodup := by
  rw [stagedEntries, List.map_append, List.map_map, List.nodup_append']
  refine ⟨?_, List.nodup_singleton _, fun relative hin hmanifest => ?_⟩
  · have hpaths : (projection.artifacts.map Prod.fst).Nodup :=
      artifacts_paths ▸ projection.manifest.paths_nodup
    have hmapped := hpaths.map storeRelative_injective
    rwa [List.map_map] at hmapped
  · obtain ⟨artifact, -, rfl⟩ := List.mem_map.mp hin
    exact storeRelative_ne_manifestName _ (List.mem_singleton.mp hmanifest)

/-- A staged tree holds its projection exactly. -/
theorem holdsExactly_of_stageTree {inode : List FileName → FileIdentity} {tree : FileTree}
    (h : stageTree inode projection = .ok tree) : HoldsExactly tree projection := by
  unfold stageTree at h
  split at h
  · cases h
  · next start hstart =>
      have hstaged : Staged tree (stagedEntries projection) :=
        (staged_start hstart).stageEntries (stagedEntries_nodup projection) h
      have hmanifestIn : (manifestName, projection.manifestJson) ∈ stagedEntries projection :=
        List.mem_append_right _ (List.mem_singleton_self _)
      have hartifactIn : ∀ artifact ∈ projection.artifacts,
          (storeRelative artifact.1, artifact.2) ∈ stagedEntries projection := fun artifact hin =>
        List.mem_append_left _ (List.mem_map_of_mem
          (f := fun artifact => (storeRelative artifact.1, artifact.2)) hin)
      refine ⟨?_, fun artifact hin => hstaged.file _ (hartifactIn artifact hin), ?_, fun e hin => ?_⟩
      · obtain ⟨path, identity, hnative, hnode⟩ := hstaged.file _ hmanifestIn
        cases hnative.symm.trans nativePath?_manifestName
        exact ⟨identity, hnode⟩
      · rintro dir (rfl | ⟨artifact, hin, path, hnative, hne, hleading, hproper⟩)
        · exact hstaged.store
        · obtain ⟨target, identity, htarget, hnode⟩ := hstaged.file _ (hartifactIn artifact hin)
          cases hnative.symm.trans htarget
          exact DirectoryTree.node?_of_isPrefix hnode hleading hproper hne
      · rcases hstaged.only e.1 e.2 (DirectoryTree.node?_eq_some_iff.mpr hin) with
          heq | ⟨entry, hentry, target, htarget, hleading⟩
        · exact Or.inr (Or.inr (Or.inl heq))
        · have hne := DirectoryTree.ne_nil_of_mem hin
          rcases List.mem_append.mp hentry with hentry | hentry
          · obtain ⟨artifact, hartifact, rfl⟩ := List.mem_map.mp hentry
            by_cases hsame : e.1 = target
            · exact Or.inr (Or.inl ⟨artifact, hartifact, hsame ▸ htarget⟩)
            · exact Or.inr (Or.inr (Or.inr ⟨artifact, hartifact, target, htarget, hne, hleading,
                hsame⟩))
          · rw [List.mem_singleton.mp hentry] at htarget
            cases htarget.symm.trans nativePath?_manifestName
            refine Or.inl ?_
            rcases List.prefix_concat_iff.mp (show e.1 <+: [] ++ [manifestFile] from hleading) with
              heq | hnil
            · exact heq
            · exact absurd (List.prefix_nil.mp hnil) hne

/-! ## That a tree can be staged -/

/-- No path stands above another one of a list, or at the store. -/
structure Separate (entries : List (Text × Bytes)) : Prop where
  native : ∀ entry ∈ entries, ∃ path, nativePath? entry.1 = some path ∧ path ≠ [storeName]
  apart : ∀ entry ∈ entries, ∀ other ∈ entries, ∀ path target, nativePath? entry.1 = some path →
    nativePath? other.1 = some target → path <+: target → path = target

theorem exists_stageEntries (inode : List FileName → FileIdentity) {tree : FileTree}
    {written rest : List (Text × Bytes)} (h : Staged tree written)
    (hdistinct : ((written ++ rest).map Prod.fst).Nodup) (hseparate : Separate (written ++ rest)) :
    ∃ after, Installation.stageEntries inode tree rest = .ok after := by
  induction rest generalizing tree written with
  | nil => exact ⟨tree, rfl⟩
  | cons entry rest ih =>
      obtain ⟨relative, content⟩ := entry
      have hself : (relative, content) ∈ written ++ (relative, content) :: rest :=
        List.mem_append_right _ List.mem_cons_self
      obtain ⟨path, hnative, hstore⟩ := hseparate.native _ hself
      have hne := nativePath?_ne_nil hnative
      have hshort : ¬ path <+: path.dropLast := fun hleading => by
        have hle := hleading.length_le
        have hpos := List.length_pos_iff.mpr hne
        rw [List.length_dropLast] at hle
        omega
      have hfresh : relative ∉ written.map Prod.fst := by
        rw [List.map_append, List.nodup_append'] at hdistinct
        exact fun hin => hdistinct.2.2 hin List.mem_cons_self
      -- a file that stands is none of the parents
      have hclear : ∀ dir, dir <+: path.dropLast → ∀ a, tree.node? dir ≠ some (.leaf a) := by
        intro dir hdir a hleaf
        rcases h.only dir _ hleaf with rfl | ⟨entry, hentry, target, htarget, hleading⟩
        · rw [h.store] at hleaf
          cases hleaf
        · obtain ⟨target', identity, htarget', hnode⟩ := h.file entry hentry
          cases htarget.symm.trans htarget'
          by_cases hsame : dir = target
          · subst hsame
            have habove := hseparate.apart entry (List.mem_append_left _ hentry) _ hself dir path
              htarget hnative (hdir.trans (List.dropLast_prefix path))
            exact hshort (habove ▸ hdir)
          · have hdirectory := DirectoryTree.node?_of_isPrefix hnode hleading hsame
              (DirectoryTree.ne_nil_of_mem (DirectoryTree.node?_eq_some_iff.mp hleaf))
            rw [hdirectory] at hleaf
            cases hleaf
      obtain ⟨made, hmade⟩ := DirectoryTree.exists_ensureDirectory? hclear
      have hplain : made.node? path ≠ some .directory := by
        rw [DirectoryTree.node?_ensureDirectory? hmade, if_neg fun hleading => hshort hleading.2]
        intro hdirectory
        rcases h.only path _ hdirectory with heq | ⟨entry, hentry, target, htarget, hleading⟩
        · exact hstore heq
        · obtain ⟨target', identity, htarget', hnode⟩ := h.file entry hentry
          cases htarget.symm.trans htarget'
          have hsame := hseparate.apart _ hself entry (List.mem_append_left _ hentry) path target
            hnative htarget hleading
          rw [hsame, hnode] at hdirectory
          cases hdirectory
      obtain ⟨after, hput⟩ := DirectoryTree.exists_put? (Leaf.regular ⟨content, 0, inode path⟩)
        hplain hne (DirectoryTree.isDirectory_of_ensureDirectory? hmade)
      have hnext := h.write hfresh hnative hmade hput
      rw [List.append_cons] at hdistinct hseparate
      obtain ⟨final, hfinal⟩ := ih hnext hdistinct hseparate
      refine ⟨final, ?_⟩
      unfold Installation.stageEntries
      simp only [hnative, hmade, hput]
      exact hfinal

theorem splitOn_prefix_of_nativePath? {relative other : Text} {path target : List FileName}
    (h : nativePath? relative = some path) (h' : nativePath? other = some target)
    (hleading : path <+: target) : relative.splitOn '/' <+: other.splitOn '/' := by
  have hmapped := hleading.map FileName.points
  rw [nativePath?_eq_some_iff_map.mp h, nativePath?_eq_some_iff_map.mp h'] at hmapped
  obtain ⟨rest, hrest⟩ := hmapped
  obtain ⟨front, more, hsplit, hfront, -⟩ := List.map_eq_append_iff.mp hrest.symm
  rw [List.map_injective_iff.mpr pointsOf_injective hfront] at hsplit
  exact ⟨more, hsplit.symm⟩

theorem eq_of_splitOn {relative other : Text} (h : relative.splitOn '/' = other.splitOn '/') :
    relative = other := by
  have hjoined := congrArg ['/'].intercalate h
  rwa [List.intercalate_splitOn, List.intercalate_splitOn] at hjoined

/-- No member stands above another one. -/
theorem eq_of_member_prefix {path other : Text} (h : isProtectedMember path = true)
    (h' : isProtectedMember other = true) (hleading : path.splitOn '/' <+: other.splitOn '/') :
    path = other := by
  have htop : ∀ dir : Text, dir = "decisions".toList ∨ dir = "context".toList →
      dir ∉ topLevelMembers := by
    rintro dir (rfl | rfl) <;> decide
  refine eq_of_splitOn ?_
  rcases isProtectedMember_shape h with ⟨hin, hsplit⟩ | ⟨dir, name, -, hsplit⟩
  · rcases isProtectedMember_shape h' with ⟨-, hsplit'⟩ | ⟨dir', name', hdir', hsplit'⟩
    · exact hleading.eq_of_length (by rw [hsplit, hsplit']; rfl)
    · rw [hsplit, hsplit'] at hleading
      have hhead := (List.cons_prefix_cons.mp hleading).1
      exact absurd (hhead ▸ hin) (htop dir' hdir')
  · rcases isProtectedMember_shape h' with ⟨-, hsplit'⟩ | ⟨dir', name', -, hsplit'⟩
    · have hle := hleading.length_le
      rw [hsplit, hsplit'] at hle
      simp only [List.length_cons, List.length_nil] at hle
      omega
    · exact hleading.eq_of_length (by rw [hsplit, hsplit']; rfl)

theorem nativePath?_manifest_ne {path : Text} {native target : List FileName}
    (h : nativePath? (storeRelative path) = some native)
    (h' : nativePath? manifestName = some target) : ¬ native <+: target ∧ ¬ target <+: native := by
  cases h'.symm.trans nativePath?_manifestName
  obtain ⟨rest, -, rfl⟩ := nativePath?_storeRelative.mp h
  have hname : storeName ≠ manifestFile := by decide
  exact ⟨fun hleading => hname (List.cons_prefix_cons.mp hleading).1,
    fun hleading => hname (List.cons_prefix_cons.mp hleading).1.symm⟩

/-- The files of a projection are apart when the system has names for all of them. -/
theorem separate_stagedEntries
    (h : ∀ artifact ∈ projection.artifacts, (nativePath? artifact.1).isSome) :
    Separate (stagedEntries projection) := by
  refine ⟨fun entry hin => ?_, fun entry hin other hother path target hpath htarget hleading => ?_⟩
  · rcases List.mem_append.mp hin with hin | hin
    · obtain ⟨artifact, hartifact, rfl⟩ := List.mem_map.mp hin
      obtain ⟨rest, hrest⟩ := Option.isSome_iff_exists.mp (h artifact hartifact)
      refine ⟨_, nativePath?_storeRelative.mpr ⟨rest, hrest, rfl⟩, fun heq => ?_⟩
      exact nativePath?_ne_nil hrest (List.cons.inj heq).2
    · rw [List.mem_singleton.mp hin]
      exact ⟨_, nativePath?_manifestName, by decide⟩
  · rcases List.mem_append.mp hin with hin | hin
    · obtain ⟨artifact, hartifact, rfl⟩ := List.mem_map.mp hin
      rcases List.mem_append.mp hother with hother | hother
      · obtain ⟨artifact', hartifact', rfl⟩ := List.mem_map.mp hother
        have hsegments := splitOn_prefix_of_nativePath? hpath htarget hleading
        rw [splitOn_storeRelative, splitOn_storeRelative] at hsegments
        have hname := eq_of_member_prefix (isProtectedMember_of_mem hartifact)
          (isProtectedMember_of_mem hartifact') (List.cons_prefix_cons.mp hsegments).2
        rw [hname, htarget] at hpath
        exact (Option.some.inj hpath).symm
      · rw [List.mem_singleton.mp hother] at htarget
        exact absurd hleading (nativePath?_manifest_ne hpath htarget).1
    · rw [List.mem_singleton.mp hin] at hpath
      rcases List.mem_append.mp hother with hother | hother
      · obtain ⟨artifact, -, rfl⟩ := List.mem_map.mp hother
        exact absurd hleading (nativePath?_manifest_ne htarget hpath).2
      · rw [List.mem_singleton.mp hother, hpath] at htarget
        exact Option.some.inj htarget

/-- A projection can be staged when the system has names for its artifacts. -/
theorem exists_stageTree (projection : VerifiedProjection rules)
    (inode : List FileName → FileIdentity)
    (h : ∀ artifact ∈ projection.artifacts, (nativePath? artifact.1).isSome) :
    ∃ tree, stageTree inode projection = .ok tree := by
  have hempty : ∀ dir, dir <+: [storeName] → ∀ a : Leaf,
      (DirectoryTree.empty : FileTree).node? dir ≠ some (.leaf a) := fun dir _ a hleaf =>
    List.not_mem_nil (DirectoryTree.node?_eq_some_iff.mp hleaf)
  obtain ⟨start, hstart⟩ := DirectoryTree.exists_ensureDirectory? hempty
  obtain ⟨tree, htree⟩ := exists_stageEntries inode (staged_start hstart)
    (stagedEntries_nodup projection) (separate_stagedEntries h)
  refine ⟨tree, ?_⟩
  unfold stageTree
  rw [hstart]
  exact htree

/-! ## The audits -/

/-- What is read of an exact tree is what its projection digests. -/
theorem HoldsExactly.readings_subset {tree : FileTree} (h : HoldsExactly tree projection) :
    readings tree projection ⊆ projection.materials := by
  rintro material ⟨relative, length, hin, file, hnode, hmaterial⟩
  have hwhole {content : Bytes} (hlength : length = content.length)
      (hfile : file.content = content) : material = content := by
    rcases hmaterial with rfl | rfl
    · exact hfile
    · rw [hfile, hlength, take_succ_self]
  rcases List.mem_cons.mp hin with heq | hin
  · obtain ⟨rfl, hlength⟩ := Prod.mk.inj heq
    obtain ⟨identity, hmanifest⟩ := nodeAt_manifest h
    cases hnode.symm.trans hmanifest
    exact Or.inl (hwhole hlength rfl)
  · obtain ⟨entry, hentry, heq⟩ := List.mem_map.mp hin
    obtain ⟨artifact, hartifact, rfl⟩ := List.mem_map.mp hentry
    obtain ⟨rfl, hlength⟩ := Prod.mk.inj heq
    obtain ⟨identity, hcontent⟩ := nodeAt_artifact h hartifact
    cases hnode.symm.trans hcontent
    rw [hwhole hlength.symm rfl]
    exact Or.inr ⟨artifact.1, hartifact⟩

/-- The audit against a projection accepts the trees that hold it exactly; it accepts every tree
that was staged for it; and the audit against the manifest of the tree, when it is given what the
first audit told of some tree, accepts what the first one accepts. -/
theorem generation_audit_exact (rules : ProjectionRules) (projection : VerifiedProjection rules) :
    (∀ tree : FileTree,
      Set.InjOn rules.sha256 (projection.materials ∪ readings tree projection) →
      ((∃ audit, auditGenerationTree tree projection = .ok audit) ↔
        HoldsExactly tree projection)) ∧
    (∀ inode staged, stageTree inode projection = .ok staged →
      ∃ audit, auditGenerationTree staged projection = .ok audit) ∧
    (∀ (tree held : FileTree) (audit : GenerationRootAudit),
      Set.InjOn rules.sha256 (projection.materials ∪ readings tree projection) →
      Set.InjOn rules.sha256 (projection.materials ∪ readings held projection) →
      auditGenerationTree held projection = .ok audit →
      ((∃ committedAt, auditInstalledRoot rules tree ⟨projection.target, audit⟩ =
          .ok committedAt) ↔
        ∃ audit, auditGenerationTree tree projection = .ok audit)) := by
  have hexact (tree : FileTree)
      (hdistinct : Set.InjOn rules.sha256 (projection.materials ∪ readings tree projection)) :
      (∃ audit, auditGenerationTree tree projection = .ok audit) ↔ HoldsExactly tree projection :=
    ⟨fun ⟨_, haudit⟩ => auditGenerationTree_ok hdistinct haudit, fun h => ⟨_, h.audit⟩⟩
  refine ⟨hexact, fun inode staged hstaged => ⟨_, (holdsExactly_of_stageTree hstaged).audit⟩,
    fun tree held audit hdistinct hheldDistinct hheld => ?_⟩
  have haudit : audit = auditOf projection := by
    rw [(auditGenerationTree_ok hheldDistinct hheld).audit] at hheld
    exact (Except.ok.inj hheld).symm
  rw [hexact tree hdistinct, haudit]
  constructor
  · rintro ⟨committedAt, hcommitted⟩
    unfold auditInstalledRoot at hcommitted
    split at hcommitted
    · cases hcommitted
    · next found manifest hsurvey => exact surveyInstalledRoot_ok hdistinct hsurvey
  · intro h
    refine ⟨projection.manifest.committedAt, ?_⟩
    unfold auditInstalledRoot
    simp only [h.survey, ne_eq, not_true_eq_false, if_false]

/-- The second generation of the sample, staged and audited. -/
theorem generation_audit_exact_sample : ∃ (tree : FileTree) (audit : GenerationRootAudit),
    stageTree (fun path => (1, path.length)) heldProjection = .ok tree ∧
      auditGenerationTree tree heldProjection = .ok audit ∧ HoldsExactly tree heldProjection ∧
      ∃ committedAt, auditInstalledRoot sampleProjectionRules tree
        ⟨heldProjection.target, audit⟩ = .ok committedAt := by
  obtain ⟨tree, htree⟩ := exists_stageTree heldProjection
    (fun path => (1, path.length)) (by decide)
  have hdistinct : Set.InjOn sampleProjectionRules.sha256
      (heldProjection.materials ∪ readings tree heldProjection) := by
    have hreadings := (holdsExactly_of_stageTree htree).readings_subset
    exact sample_injOn.mono (Set.union_subset Set.subset_union_left
      (hreadings.trans Set.subset_union_left))
  obtain ⟨hexact, hstaged, hinstalled⟩ :=
    generation_audit_exact sampleProjectionRules heldProjection
  obtain ⟨audit, haudit⟩ := hstaged _ tree htree
  exact ⟨tree, audit, htree, haudit, (hexact tree hdistinct).mp ⟨audit, haudit⟩,
    (hinstalled tree tree audit hdistinct hdistinct haudit).mpr ⟨audit, haudit⟩⟩

end Installation
end Client
end Nauro
