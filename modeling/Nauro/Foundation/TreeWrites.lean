import Nauro.Foundation.DirectoryTree

/-!
# Writing to a directory tree
-/

namespace Foundation
namespace DirectoryTree

variable {N A : Type}

/-- A root with nothing below it. -/
def empty : DirectoryTree N A where
  entries := []
  distinct := List.nodup_nil
  nested _ hin := absurd hin List.not_mem_nil

/-- A new entry in a directory that stands. -/
def addEntry (tree : DirectoryTree N A) (path : List N) (node : TreeNode A)
    (hfresh : path ∉ tree.entries.map Prod.fst) (hne : path ≠ [])
    (hparent : tree.IsDirectory path.dropLast) : DirectoryTree N A where
  entries := tree.entries ++ [(path, node)]
  distinct := by
    rw [List.map_append, List.nodup_append']
    refine ⟨tree.distinct, List.nodup_singleton path, fun p hin hnew => ?_⟩
    rw [List.mem_singleton.mp hnew] at hin
    exact hfresh hin
  nested e hin := by
    rcases List.mem_append.mp hin with hin | hin
    · obtain ⟨dir, name, hpath, hdir⟩ := tree.nested e hin
      exact ⟨dir, name, hpath, hdir.imp_right fun h => List.mem_append_left _ h⟩
    · rw [List.mem_singleton.mp hin]
      exact ⟨path.dropLast, path.getLast hne, (List.dropLast_append_getLast hne).symm,
        hparent.imp_right fun h => List.mem_append_left _ h⟩

variable [DecidableEq N]

theorem isDirectory_iff {tree : DirectoryTree N A} {path : List N} :
    tree.IsDirectory path ↔ path = [] ∨ tree.node? path = some .directory := by
  rw [IsDirectory, node?_eq_some_iff]

instance (tree : DirectoryTree N A) (path : List N) : Decidable (tree.IsDirectory path) :=
  decidable_of_iff (path = [] ∨ (tree.node? path).any fun node =>
    match node with
    | .directory => true
    | .leaf _ => false) <| by
    rw [isDirectory_iff]
    refine or_congr_right ?_
    cases tree.node? path with
    | none => simp
    | some node => cases node <;> simp

/-- An entry where nothing stands. -/
def add? (tree : DirectoryTree N A) (path : List N) (node : TreeNode A) :
    Option (DirectoryTree N A) :=
  if h : path ∉ tree.entries.map Prod.fst ∧ path ≠ [] ∧ tree.IsDirectory path.dropLast then
    some (tree.addEntry path node h.1 h.2.1 h.2.2)
  else none

theorem node?_add? {tree tree' : DirectoryTree N A} {path : List N} {node : TreeNode A}
    (h : tree.add? path node = some tree') (other : List N) :
    tree'.node? other = if other = path then some node else tree.node? other := by
  unfold add? at h
  split_ifs at h with hadd
  cases h
  obtain ⟨hfresh, -, -⟩ := hadd
  by_cases hother : other = path
  · rw [if_pos hother, hother, node?_eq_some_iff]
    exact List.mem_append_right _ (List.mem_singleton_self _)
  · rw [if_neg hother]
    refine Option.ext fun found => ?_
    rw [node?_eq_some_iff, node?_eq_some_iff]
    show (other, found) ∈ tree.entries ++ [(path, node)] ↔ _
    rw [List.mem_append, List.mem_singleton]
    constructor
    · rintro (hin | heq)
      · exact hin
      · exact absurd (congrArg Prod.fst heq) hother
    · exact Or.inl

theorem exists_add? {tree : DirectoryTree N A} {path : List N} (node : TreeNode A)
    (hfresh : tree.node? path = none) (hne : path ≠ [])
    (hparent : tree.IsDirectory path.dropLast) : ∃ tree', tree.add? path node = some tree' :=
  ⟨_, dif_pos ⟨node?_eq_none_iff.mp hfresh, hne, hparent⟩⟩

theorem add?_ok {tree tree' : DirectoryTree N A} {path : List N} {node : TreeNode A}
    (h : tree.add? path node = some tree') :
    tree.node? path = none ∧ path ≠ [] ∧ tree.IsDirectory path.dropLast := by
  unfold add? at h
  split_ifs at h with hadd
  exact ⟨node?_eq_none_iff.mpr hadd.1, hadd.2⟩

/-- Take a leaf away; a directory stays. -/
def removeLeaf (tree : DirectoryTree N A) (path : List N) : DirectoryTree N A where
  entries := tree.entries.filter fun e =>
    match e.2 with
    | .directory => true
    | .leaf _ => e.1 ≠ path
  distinct := (List.filter_sublist.map Prod.fst).nodup tree.distinct
  nested e hin := by
    obtain ⟨dir, name, hpath, hdir⟩ := tree.nested e (List.mem_of_mem_filter hin)
    exact ⟨dir, name, hpath, hdir.imp_right fun h => List.mem_filter.mpr ⟨h, rfl⟩⟩

theorem node?_removeLeaf (tree : DirectoryTree N A) (path other : List N) :
    (tree.removeLeaf path).node? other =
      if other = path ∧ ¬ tree.IsDirectory path then none else tree.node? other := by
  refine Option.ext fun found => ?_
  have hmem : (tree.removeLeaf path).node? other = some found ↔
      (other, found) ∈ tree.entries ∧ (found = .directory ∨ other ≠ path) := by
    rw [node?_eq_some_iff]
    show (other, found) ∈ tree.entries.filter _ ↔ _
    rw [List.mem_filter]
    cases found <;> simp
  rw [hmem]
  split_ifs with h
  · obtain ⟨rfl, hleaf⟩ := h
    refine ⟨fun hin => ?_, fun hnone => by cases hnone⟩
    rcases hin.2 with rfl | hne
    · exact absurd (Or.inr hin.1) hleaf
    · exact absurd rfl hne
  · rw [node?_eq_some_iff]
    refine ⟨fun hin => hin.1, fun hin => ⟨hin, ?_⟩⟩
    by_cases hother : other = path
    · subst hother
      have hdir := not_not.mp fun hnot => h ⟨rfl, hnot⟩
      rcases hdir with hnil | hdir
      · exact absurd hnil (ne_nil_of_mem hin)
      · exact Or.inl (congrArg Prod.snd (eq_of_path hin hdir rfl))
    · exact Or.inr hother

/-- Let a leaf stand at a path, in the place of another leaf if there is one. -/
def put? (tree : DirectoryTree N A) (path : List N) (a : A) : Option (DirectoryTree N A) :=
  (tree.removeLeaf path).add? path (.leaf a)

theorem node?_put? {tree tree' : DirectoryTree N A} {path : List N} {a : A}
    (h : tree.put? path a = some tree') (other : List N) :
    tree'.node? other = if other = path then some (.leaf a) else tree.node? other := by
  rw [node?_add? h, node?_removeLeaf]
  by_cases hother : other = path
  · rw [if_pos hother, if_pos hother]
  · rw [if_neg hother, if_neg hother, if_neg fun hleaf => hother hleaf.1]

theorem isDirectory_removeLeaf {tree : DirectoryTree N A} {path dir : List N} :
    (tree.removeLeaf path).IsDirectory dir ↔ tree.IsDirectory dir := by
  rw [isDirectory_iff, isDirectory_iff, node?_removeLeaf]
  refine or_congr_right ?_
  split_ifs with h
  · obtain ⟨rfl, hleaf⟩ := h
    rw [isDirectory_iff, not_or] at hleaf
    exact ⟨fun hnone => (by cases hnone), fun hdir => absurd hdir hleaf.2⟩
  · rfl

theorem exists_put? {tree : DirectoryTree N A} {path : List N} (a : A)
    (hplain : tree.node? path ≠ some .directory) (hne : path ≠ [])
    (hparent : tree.IsDirectory path.dropLast) : ∃ tree', tree.put? path a = some tree' := by
  refine exists_add? _ ?_ hne (isDirectory_removeLeaf.mpr hparent)
  have hleaf : ¬ tree.IsDirectory path := by
    rw [isDirectory_iff, not_or]
    exact ⟨hne, hplain⟩
  rw [node?_removeLeaf, if_pos ⟨rfl, hleaf⟩]

theorem put?_ok {tree tree' : DirectoryTree N A} {path : List N} {a : A}
    (h : tree.put? path a = some tree') :
    path ≠ [] ∧ tree.node? path ≠ some .directory ∧ tree.IsDirectory path.dropLast := by
  obtain ⟨hfresh, hne, hparent⟩ := add?_ok h
  refine ⟨hne, fun hdir => ?_, isDirectory_removeLeaf.mp hparent⟩
  have hstands : (tree.removeLeaf path).IsDirectory path :=
    isDirectory_removeLeaf.mpr (isDirectory_iff.mpr (Or.inr hdir))
  rw [isDirectory_iff, hfresh] at hstands
  rcases hstands with hnil | hnone
  · exact hne hnil
  · cases hnone

/-! ## Directories with their parents -/

/-- Make the directories of a path below one that stands. -/
def ensureBelow (tree : DirectoryTree N A) (done : List N) :
    List N → Option (DirectoryTree N A)
  | [] => some tree
  | name :: rest =>
      let current := done ++ [name]
      match tree.node? current with
      | some .directory => ensureBelow tree current rest
      | some (.leaf _) => none
      | none => (tree.add? current .directory).bind fun made => ensureBelow made current rest

/-- Make a directory and its parents where they are missing. -/
def ensureDirectory? (tree : DirectoryTree N A) (path : List N) : Option (DirectoryTree N A) :=
  tree.ensureBelow [] path

omit [DecidableEq N] in
/-- The paths that are longer than the first one and begin the second one. -/
theorem between_cons_iff {done rest other : List N} {name : N} :
    (done <+: other ∧ other ≠ done ∧ other <+: done ++ name :: rest) ↔
      other = done ++ [name] ∨
        (done ++ [name] <+: other ∧ other ≠ done ++ [name] ∧
          other <+: done ++ [name] ++ rest) := by
  constructor
  · rintro ⟨⟨more, rfl⟩, hne, hleading⟩
    rw [List.prefix_append_right_inj] at hleading
    cases more with
    | nil => exact absurd (List.append_nil done) hne
    | cons first more =>
        obtain ⟨rfl, hrest⟩ := List.cons_prefix_cons.mp hleading
        by_cases hmore : more = []
        · exact Or.inl (by rw [hmore])
        · rw [List.append_cons]
          refine Or.inr ⟨List.prefix_append _ _, fun heq => hmore ?_, ?_⟩
          · exact List.append_right_eq_self.mp heq
          · exact (List.prefix_append_right_inj _).mpr hrest
  · rintro (rfl | ⟨⟨more, rfl⟩, -, hleading⟩)
    · refine ⟨List.prefix_append _ _, fun heq => ?_, ?_⟩
      · exact List.cons_ne_nil name [] (List.append_right_eq_self.mp heq)
      · rw [List.append_cons done name rest]
        exact List.prefix_append _ _
    · rw [← List.append_cons] at hleading ⊢
      refine ⟨List.prefix_append _ _, fun heq => ?_, ?_⟩
      · exact List.cons_ne_nil name more (List.append_right_eq_self.mp heq)
      · rwa [List.append_assoc] at hleading

/-- The directories that stand after those below a path are made. -/
theorem node?_ensureBelow {tree tree' : DirectoryTree N A} {done rest : List N}
    (h : tree.ensureBelow done rest = some tree') (other : List N) :
    tree'.node? other =
      if done <+: other ∧ other ≠ done ∧ other <+: done ++ rest then some .directory
      else tree.node? other := by
  induction rest generalizing tree done with
  | nil =>
      cases h
      refine (if_neg ?_).symm
      rintro ⟨hleading, hne, hle⟩
      rw [List.append_nil] at hle
      exact hne (hle.eq_of_length_le hleading.length_le)
  | cons name rest ih =>
      rw [if_congr between_cons_iff rfl rfl]
      unfold ensureBelow at h
      simp only at h
      cases hnode : tree.node? (done ++ [name]) with
      | none =>
          rw [hnode] at h
          obtain ⟨made, hmade, hrest⟩ := Option.bind_eq_some_iff.mp h
          rw [ih hrest, node?_add? hmade]
          by_cases hother : other = done ++ [name]
          · rw [if_pos hother, if_pos (Or.inl hother)]
            split_ifs <;> rfl
          · rw [if_neg hother]
            exact if_congr (by rw [or_iff_right hother]) rfl rfl
      | some node =>
          rw [hnode] at h
          cases node with
          | leaf a => cases h
          | directory =>
              rw [ih h]
              by_cases hother : other = done ++ [name]
              · rw [if_pos (Or.inl hother)]
                split_ifs
                · rfl
                · rw [hother, hnode]
              · exact if_congr (by rw [or_iff_right hother]) rfl rfl

theorem node?_ensureDirectory? {tree tree' : DirectoryTree N A} {path : List N}
    (h : tree.ensureDirectory? path = some tree') (other : List N) :
    tree'.node? other =
      if other ≠ [] ∧ other <+: path then some .directory else tree.node? other := by
  rw [node?_ensureBelow h]
  exact if_congr (and_iff_right List.nil_prefix) rfl rfl

theorem exists_ensureBelow {tree : DirectoryTree N A} {done rest : List N}
    (hdone : tree.IsDirectory done)
    (h : ∀ more, more <+: rest → ∀ a, tree.node? (done ++ more) ≠ some (.leaf a)) :
    ∃ tree', tree.ensureBelow done rest = some tree' := by
  induction rest generalizing tree done with
  | nil => exact ⟨tree, rfl⟩
  | cons name rest ih =>
      have hbelow (more : List N) (hmore : more <+: rest) (a : A) :
          tree.node? (done ++ [name] ++ more) ≠ some (.leaf a) := by
        rw [← List.append_cons]
        exact h (name :: more) (List.cons_prefix_cons.mpr ⟨rfl, hmore⟩) a
      unfold ensureBelow
      simp only
      cases hnode : tree.node? (done ++ [name]) with
      | none =>
          obtain ⟨made, hmade⟩ := exists_add? .directory hnode (List.concat_ne_nil name done)
            (by rwa [List.dropLast_concat])
          have hnodes := node?_add? hmade
          have hdir : made.IsDirectory (done ++ [name]) :=
            isDirectory_iff.mpr (Or.inr (by rw [hnodes, if_pos rfl]))
          obtain ⟨tree', htree'⟩ := ih hdir fun more hmore a => by
            rw [hnodes]
            split_ifs
            · exact fun heq => by cases heq
            · exact hbelow more hmore a
          exact ⟨tree', by rw [hmade]; exact htree'⟩
      | some node =>
          cases node with
          | leaf a =>
              refine absurd hnode ?_
              have hat := hbelow [] List.nil_prefix a
              rwa [List.append_nil] at hat
          | directory => exact ih (isDirectory_iff.mpr (Or.inr hnode)) hbelow

theorem ne_leaf_of_ensureBelow {tree tree' : DirectoryTree N A} {done rest : List N}
    (h : tree.ensureBelow done rest = some tree') {more : List N} (hne : more ≠ [])
    (hmore : more <+: rest) (a : A) : tree.node? (done ++ more) ≠ some (.leaf a) := by
  induction rest generalizing tree done more with
  | nil => exact absurd (List.prefix_nil.mp hmore) hne
  | cons name rest ih =>
      obtain ⟨first, more, rfl⟩ := List.exists_cons_of_ne_nil hne
      obtain ⟨rfl, hrest⟩ := List.cons_prefix_cons.mp hmore
      rw [List.append_cons]
      unfold ensureBelow at h
      simp only at h
      cases hnode : tree.node? (done ++ [first]) with
      | none =>
          rw [hnode] at h
          obtain ⟨made, hmade, hbelow⟩ := Option.bind_eq_some_iff.mp h
          by_cases hnil : more = []
          · rw [hnil, List.append_nil, hnode]
            exact fun heq => by cases heq
          · intro hleaf
            refine ih hbelow hnil hrest ?_
            rw [node?_add? hmade, if_neg fun heq => hnil (List.append_right_eq_self.mp heq)]
            exact hleaf
      | some node =>
          rw [hnode] at h
          cases node with
          | leaf b => cases h
          | directory =>
              by_cases hnil : more = []
              · rw [hnil, List.append_nil, hnode]
                exact fun heq => by cases heq
              · exact ih h hnil hrest

/-- No leaf stood in the way of a directory that was made. -/
theorem ne_leaf_of_ensureDirectory? {tree tree' : DirectoryTree N A} {path dir : List N}
    (h : tree.ensureDirectory? path = some tree') (hdir : dir <+: path) (a : A) :
    tree.node? dir ≠ some (.leaf a) := by
  by_cases hne : dir = []
  · rw [hne]
    intro hleaf
    exact ne_nil_of_mem (node?_eq_some_iff.mp hleaf) rfl
  · exact ne_leaf_of_ensureBelow h hne hdir a

/-- A directory can be made when no leaf stands in its way. -/
theorem exists_ensureDirectory? {tree : DirectoryTree N A} {path : List N}
    (h : ∀ dir, dir <+: path → ∀ a, tree.node? dir ≠ some (.leaf a)) :
    ∃ tree', tree.ensureDirectory? path = some tree' :=
  exists_ensureBelow (Or.inl rfl) h

theorem isDirectory_of_ensureDirectory? {tree tree' : DirectoryTree N A} {path : List N}
    (h : tree.ensureDirectory? path = some tree') : tree'.IsDirectory path := by
  rw [isDirectory_iff]
  by_cases hne : path = []
  · exact Or.inl hne
  · exact Or.inr (by rw [node?_ensureDirectory? h, if_pos ⟨hne, List.prefix_refl path⟩])

end DirectoryTree
end Foundation
