import Mathlib.Data.List.Induction
import Mathlib.Data.List.Nodup
import Mathlib.Data.List.Perm.Subperm

/-!
# Directory trees

What stands below a directory, as a finite list of paths in which the parent of every path is a
directory, and the walk that goes through the tree one directory at a time.
-/

namespace Foundation

/-- A directory, or what else stands under a name. -/
inductive TreeNode (A : Type) where
  | directory
  | leaf (a : A)
deriving DecidableEq

/-- The entries below a root directory by their paths; the root's own path is empty. -/
@[ext] structure DirectoryTree (N A : Type) where
  entries : List (List N × TreeNode A)
  distinct : (entries.map Prod.fst).Nodup
  nested : ∀ e ∈ entries, ∃ dir name, e.1 = dir ++ [name] ∧
    (dir = [] ∨ (dir, TreeNode.directory) ∈ entries)

namespace DirectoryTree

variable {N A E : Type}

/-- The root, or a directory below it. -/
def IsDirectory (tree : DirectoryTree N A) (path : List N) : Prop :=
  path = [] ∨ (path, TreeNode.directory) ∈ tree.entries

theorem ne_nil_of_mem {tree : DirectoryTree N A} {e : List N × TreeNode A}
    (h : e ∈ tree.entries) : e.1 ≠ [] := by
  obtain ⟨dir, name, hpath, -⟩ := tree.nested e h
  rw [hpath]
  exact List.concat_ne_nil name dir

theorem isDirectory_dropLast {tree : DirectoryTree N A} {e : List N × TreeNode A}
    (h : e ∈ tree.entries) : tree.IsDirectory e.1.dropLast := by
  obtain ⟨dir, name, hpath, hdir⟩ := tree.nested e h
  rwa [hpath, List.dropLast_concat]

theorem eq_of_path {tree : DirectoryTree N A} {e e' : List N × TreeNode A}
    (h : e ∈ tree.entries) (h' : e' ∈ tree.entries) (hpath : e.1 = e'.1) : e = e' :=
  List.inj_on_of_nodup_map tree.distinct h h' hpath

/-- The directories of a list of entries. -/
def directoriesOf (entries : List (List N × TreeNode A)) : List (List N) :=
  entries.filterMap fun e =>
    match e.2 with
    | .directory => some e.1
    | .leaf _ => none

theorem mem_directoriesOf {entries : List (List N × TreeNode A)} {path : List N} :
    path ∈ directoriesOf entries ↔ (path, TreeNode.directory) ∈ entries := by
  rw [directoriesOf, List.mem_filterMap]
  constructor
  · rintro ⟨⟨path', node⟩, hin, hnode⟩
    cases node with
    | directory =>
        cases hnode
        exact hin
    | leaf a => cases hnode
  · exact fun hin => ⟨_, hin, rfl⟩

theorem directoriesOf_sublist (entries : List (List N × TreeNode A)) :
    (directoriesOf entries).Sublist (entries.map Prod.fst) := by
  induction entries with
  | nil => exact List.Sublist.refl _
  | cons e entries ih =>
      obtain ⟨path, node⟩ := e
      cases node with
      | directory => exact ih.cons_cons path
      | leaf a => exact ih.cons path

variable [DecidableEq N]

/-- The entries right below a directory. -/
def children (tree : DirectoryTree N A) (dir : List N) : List (List N × TreeNode A) :=
  tree.entries.filter fun e => e.1.dropLast = dir

/-- What stands at a path below the root. -/
def node? (tree : DirectoryTree N A) (path : List N) : Option (TreeNode A) :=
  (tree.entries.find? fun e => e.1 = path).map Prod.snd

theorem mem_children {tree : DirectoryTree N A} {dir : List N} {e : List N × TreeNode A} :
    e ∈ tree.children dir ↔ e ∈ tree.entries ∧ e.1.dropLast = dir := by
  rw [children, List.mem_filter, decide_eq_true_iff]

theorem node?_eq_some_iff {tree : DirectoryTree N A} {path : List N} {node : TreeNode A} :
    tree.node? path = some node ↔ (path, node) ∈ tree.entries := by
  rw [node?, Option.map_eq_some_iff]
  constructor
  · rintro ⟨e, hfound, rfl⟩
    have hpath := List.find?_some hfound
    rw [decide_eq_true_iff] at hpath
    rw [← hpath]
    exact List.mem_of_find?_eq_some hfound
  · intro hin
    cases hfound : tree.entries.find? (fun e => e.1 = path) with
    | none =>
        have hmiss := List.find?_eq_none.mp hfound _ hin
        exact absurd (decide_eq_true (rfl : path = path)) hmiss
    | some e =>
        have hpath := List.find?_some hfound
        rw [decide_eq_true_iff] at hpath
        refine ⟨e, rfl, ?_⟩
        rw [eq_of_path (List.mem_of_find?_eq_some hfound) hin hpath]

theorem node?_eq_none_iff {tree : DirectoryTree N A} {path : List N} :
    tree.node? path = none ↔ path ∉ tree.entries.map Prod.fst := by
  rw [node?, Option.map_eq_none_iff, List.find?_eq_none]
  constructor
  · intro h hin
    obtain ⟨e, he, rfl⟩ := List.mem_map.mp hin
    exact h e he (decide_eq_true rfl)
  · intro h e he hpath
    rw [decide_eq_true_iff] at hpath
    exact h (List.mem_map.mpr ⟨e, he, hpath⟩)

/-- The parents of what stands in the tree are directories. -/
theorem node?_of_isPrefix {tree : DirectoryTree N A} {path dir : List N} {node : TreeNode A}
    (h : tree.node? path = some node) (hleading : dir <+: path) (hdir : dir ≠ path)
    (hne : dir ≠ []) : tree.node? dir = some .directory := by
  induction path using List.reverseRecOn generalizing node with
  | nil => exact absurd (List.prefix_nil.mp hleading) hdir
  | append_singleton front name ih =>
      have hparent := isDirectory_dropLast (node?_eq_some_iff.mp h)
      simp only [List.dropLast_concat] at hparent
      rcases List.prefix_concat_iff.mp hleading with heq | hfront
      · exact absurd heq hdir
      · rcases hparent with hnil | hin
        · exact absurd (List.prefix_nil.mp (hnil ▸ hfront)) hne
        · have hnode := node?_eq_some_iff.mpr hin
          by_cases heq : dir = front
          · rw [heq, hnode]
          · exact ih hnode hfront heq

/-! ## Walks -/

/-- The entries of one directory that are kept; a refused one ends the walk. -/
def keepEntries (inspect : List N × TreeNode A → Except E Bool) :
    List (List N × TreeNode A) → Except E (List (List N × TreeNode A))
  | [] => .ok []
  | e :: rest => do
      let keep ← inspect e
      let later ← keepEntries inspect rest
      .ok (if keep then e :: later else later)

/-- Go through pending directories, and through those that are found in them. -/
def explore (inspect : List N × TreeNode A → Except E Bool)
    (schedule : List (List N) → List (List N) → List (List N)) (tree : DirectoryTree N A) :
    Nat → List (List N) → Except E (List (List N × TreeNode A))
  | 0, _ => .ok []
  | _ + 1, [] => .ok []
  | fuel + 1, dir :: pending => do
      let kept ← keepEntries inspect (tree.children dir)
      let later ← explore inspect schedule tree fuel (schedule pending (directoriesOf kept))
      .ok (kept ++ later)

/-- Go through the tree from its root. -/
def walk (inspect : List N × TreeNode A → Except E Bool)
    (schedule : List (List N) → List (List N) → List (List N)) (tree : DirectoryTree N A) :
    Except E (List (List N × TreeNode A)) :=
  explore inspect schedule tree (tree.entries.length + 1) [[]]

/-- A directory that the walk from pending ones comes to. -/
inductive Reached (inspect : List N × TreeNode A → Except E Bool) (tree : DirectoryTree N A)
    (pending : List (List N)) : List N → Prop where
  | start {dir : List N} (h : dir ∈ pending) : Reached inspect tree pending dir
  | step {dir path : List N} (h : Reached inspect tree pending dir)
      (hin : (path, TreeNode.directory) ∈ tree.children dir)
      (hkeep : inspect (path, TreeNode.directory) = .ok true) : Reached inspect tree pending path

variable {inspect : List N × TreeNode A → Except E Bool}
  {schedule : List (List N) → List (List N) → List (List N)}

omit [DecidableEq N] in
theorem keepEntries_ok {entries kept : List (List N × TreeNode A)}
    (h : keepEntries inspect entries = .ok kept) :
    kept.Sublist entries ∧ (∀ e ∈ entries, ∃ keep, inspect e = .ok keep) ∧
      ∀ e, e ∈ kept ↔ e ∈ entries ∧ inspect e = .ok true := by
  induction entries generalizing kept with
  | nil =>
      cases h
      simp
  | cons e entries ih =>
      rw [keepEntries] at h
      cases hinspect : inspect e with
      | error refusal => rw [hinspect] at h; cases h
      | ok keep =>
          rw [hinspect] at h
          cases hrest : keepEntries inspect entries with
          | error refusal => rw [hrest] at h; cases h
          | ok later =>
              rw [hrest] at h
              obtain ⟨hsublist, hinspected, hmem⟩ := ih hrest
              have hall : ∀ e' ∈ e :: entries, ∃ keep, inspect e' = .ok keep := by
                intro e' hin
                rcases List.mem_cons.mp hin with rfl | hin
                · exact ⟨keep, hinspect⟩
                · exact hinspected e' hin
              cases keep with
              | true =>
                  cases h
                  refine ⟨hsublist.cons_cons e, hall, fun e' => ?_⟩
                  rw [if_pos rfl, List.mem_cons, List.mem_cons, hmem]
                  constructor
                  · rintro (rfl | ⟨hin, hkeep⟩)
                    · exact ⟨Or.inl rfl, hinspect⟩
                    · exact ⟨Or.inr hin, hkeep⟩
                  · rintro ⟨rfl | hin, hkeep⟩
                    · exact Or.inl rfl
                    · exact Or.inr ⟨hin, hkeep⟩
              | false =>
                  cases h
                  refine ⟨hsublist.cons e, hall, fun e' => ?_⟩
                  rw [if_neg Bool.false_ne_true, List.mem_cons, hmem]
                  constructor
                  · exact fun ⟨hin, hkeep⟩ => ⟨Or.inr hin, hkeep⟩
                  · rintro ⟨rfl | hin, hkeep⟩
                    · rw [hinspect] at hkeep
                      cases hkeep
                    · exact ⟨hin, hkeep⟩

omit [DecidableEq N] in
theorem exists_keepEntries_ok {entries : List (List N × TreeNode A)}
    (h : ∀ e ∈ entries, ∃ keep, inspect e = .ok keep) :
    ∃ kept, keepEntries inspect entries = .ok kept := by
  induction entries with
  | nil => exact ⟨[], rfl⟩
  | cons e entries ih =>
      obtain ⟨keep, hkeep⟩ := h e List.mem_cons_self
      obtain ⟨later, hlater⟩ := ih fun e' hin => h e' (List.mem_cons_of_mem e hin)
      refine ⟨if keep then e :: later else later, ?_⟩
      rw [keepEntries, hkeep, hlater]
      rfl

/-- What the pending directories of a walk keep to, with the directories that are done. -/
structure Progress (tree : DirectoryTree N A) (done pending : List (List N)) : Prop where
  distinct : (done ++ pending).Nodup
  directories : ∀ dir ∈ done ++ pending, tree.IsDirectory dir
  parents : ∀ dir ∈ done ++ pending, dir ≠ [] → dir.dropLast ∈ done

omit [DecidableEq N] in
theorem Progress.start (tree : DirectoryTree N A) : Progress tree [] [[]] where
  distinct := List.nodup_singleton []
  directories _ hin := Or.inl (List.mem_singleton.mp hin)
  parents _ hin hne := absurd (List.mem_singleton.mp hin) hne

omit [DecidableEq N] in
theorem Progress.length_le {tree : DirectoryTree N A} {done pending : List (List N)}
    (h : Progress tree done pending) : done.length + pending.length ≤ tree.entries.length + 1 := by
  have hsub : done ++ pending ⊆ [] :: tree.entries.map Prod.fst := by
    intro dir hin
    rcases h.directories dir hin with rfl | hdir
    · exact List.mem_cons_self
    · exact List.mem_cons_of_mem _ (List.mem_map.mpr ⟨_, hdir, rfl⟩)
  have hle := (h.distinct.subperm hsub).length_le
  rwa [List.length_append, List.length_cons, List.length_map] at hle

/-- A directory is done, and those that were found in it are pending. -/
theorem Progress.next {tree : DirectoryTree N A} {done pending : List (List N)} {dir : List N}
    {kept : List (List N × TreeNode A)} (h : Progress tree done (dir :: pending))
    (hkept : kept.Sublist (tree.children dir))
    (hschedule : (schedule pending (directoriesOf kept)).Perm (pending ++ directoriesOf kept)) :
    Progress tree (done ++ [dir]) (schedule pending (directoriesOf kept)) := by
  have hchild : ∀ path ∈ directoriesOf kept,
      (path, TreeNode.directory) ∈ tree.entries ∧ path.dropLast = dir := fun path hin =>
    mem_children.mp (hkept.subset (mem_directoriesOf.mp hin))
  have hperm : (done ++ [dir] ++ schedule pending (directoriesOf kept)).Perm
      ((done ++ dir :: pending) ++ directoriesOf kept) := by
    rw [List.append_assoc, List.append_assoc]
    exact (hschedule.cons dir).append_left done
  have hfresh : ∀ path ∈ directoriesOf kept, path ∉ done ++ dir :: pending := by
    intro path hin hold
    obtain ⟨hentry, hparent⟩ := hchild path hin
    have hdone := h.parents path hold (ne_nil_of_mem hentry)
    rw [hparent] at hdone
    exact List.disjoint_of_nodup_append h.distinct hdone List.mem_cons_self
  refine ⟨?_, fun path hin => ?_, fun path hin hne => ?_⟩
  · rw [hperm.nodup_iff, List.nodup_append']
    refine ⟨h.distinct, ?_, fun path hold hin => hfresh path hin hold⟩
    refine (directoriesOf_sublist kept).nodup ((hkept.map Prod.fst).nodup ?_)
    exact (List.filter_sublist.map Prod.fst).nodup tree.distinct
  · rcases List.mem_append.mp (hperm.mem_iff.mp hin) with hin | hin
    · exact h.directories path hin
    · exact Or.inr (hchild path hin).1
  · rcases List.mem_append.mp (hperm.mem_iff.mp hin) with hin | hin
    · exact List.mem_append_left _ (h.parents path hin hne)
    · rw [(hchild path hin).2]
      exact List.mem_append_right _ (List.mem_singleton_self dir)

/-- No walk comes back to a directory that is done. -/
theorem Progress.not_reached {tree : DirectoryTree N A} {done pending : List (List N)}
    (h : Progress tree done pending) {dir : List N} (hreached : Reached inspect tree pending dir) :
    dir ∉ done := by
  induction hreached with
  | start hin => exact fun hdone => List.disjoint_of_nodup_append h.distinct hdone hin
  | step hbelow hin hkeep ih =>
      intro hdone
      obtain ⟨hentry, hparent⟩ := mem_children.mp hin
      have hdir := h.parents _ (List.mem_append_left _ hdone) (ne_nil_of_mem hentry)
      rw [hparent] at hdir
      exact ih hdir

/-- The walk goes on from the rest and from what was found in the first directory. -/
theorem reached_cons_iff {tree : DirectoryTree N A} {kept : List (List N × TreeNode A)}
    {dir : List N} {frames : List (List N)}
    (hkept : ∀ e, e ∈ kept ↔ e ∈ tree.children dir ∧ inspect e = .ok true)
    (hschedule : (schedule frames (directoriesOf kept)).Perm (frames ++ directoriesOf kept))
    {path : List N} :
    Reached inspect tree (dir :: frames) path ↔
      path = dir ∨ Reached inspect tree (schedule frames (directoriesOf kept)) path := by
  have hfound : ∀ path, path ∈ schedule frames (directoriesOf kept) ↔
      path ∈ frames ∨ (path, TreeNode.directory) ∈ kept := fun path => by
    rw [hschedule.mem_iff, List.mem_append, mem_directoriesOf]
  constructor
  · intro h
    induction h with
    | start hin =>
        rcases List.mem_cons.mp hin with rfl | hin
        · exact Or.inl rfl
        · exact Or.inr (Reached.start ((hfound _).mpr (Or.inl hin)))
    | step hbelow hin hkeep ih =>
        refine Or.inr ?_
        rcases ih with rfl | hreached
        · exact Reached.start ((hfound _).mpr (Or.inr ((hkept _).mpr ⟨hin, hkeep⟩)))
        · exact Reached.step hreached hin hkeep
  · rintro (rfl | h)
    · exact Reached.start List.mem_cons_self
    · induction h with
      | start hin =>
          rcases (hfound _).mp hin with hin | hin
          · exact Reached.start (List.mem_cons_of_mem _ hin)
          · obtain ⟨hchild, hkeep⟩ := (hkept _).mp hin
            exact Reached.step (Reached.start List.mem_cons_self) hchild hkeep
      | step hbelow hin hkeep ih => exact Reached.step ih hin hkeep

omit [DecidableEq N] in
theorem nodup_entries (tree : DirectoryTree N A) : tree.entries.Nodup :=
  tree.distinct.of_map Prod.fst

theorem not_reached_nil {tree : DirectoryTree N A} {dir : List N} :
    ¬ Reached inspect tree [] dir := by
  intro h
  induction h with
  | start hin => exact List.not_mem_nil hin
  | step hbelow hin hkeep ih => exact ih

/-- A walk has looked at every entry of the directories it came to, and found those it keeps,
each one once. -/
structure Finds (inspect : List N × TreeNode A → Except E Bool) (tree : DirectoryTree N A)
    (pending : List (List N)) (out : List (List N × TreeNode A)) : Prop where
  inspected : ∀ dir, Reached inspect tree pending dir → ∀ e ∈ tree.children dir,
    ∃ keep, inspect e = .ok keep
  mem_iff : ∀ e, e ∈ out ↔ Reached inspect tree pending e.1.dropLast ∧ e ∈ tree.entries ∧
    inspect e = .ok true
  distinct : out.Nodup

theorem Finds.nil (tree : DirectoryTree N A) : Finds inspect tree [] [] where
  inspected _ hreached := absurd hreached not_reached_nil
  mem_iff _ := ⟨fun hin => absurd hin List.not_mem_nil, fun h => absurd h.1 not_reached_nil⟩
  distinct := List.nodup_nil

/-- One directory more. -/
theorem Finds.cons {tree : DirectoryTree N A} {done frames : List (List N)} {dir : List N}
    {kept later : List (List N × TreeNode A)}
    (hschedule : (schedule frames (directoriesOf kept)).Perm (frames ++ directoriesOf kept))
    (hprogress : Progress tree done (dir :: frames))
    (hkept : keepEntries inspect (tree.children dir) = .ok kept)
    (h : Finds inspect tree (schedule frames (directoriesOf kept)) later) :
    Finds inspect tree (dir :: frames) (kept ++ later) := by
  obtain ⟨hsublist, hinspected, hmem⟩ := keepEntries_ok hkept
  have hnext := hprogress.next hsublist hschedule
  have hstep {path : List N} : Reached inspect tree (dir :: frames) path ↔
      path = dir ∨ Reached inspect tree (schedule frames (directoriesOf kept)) path :=
    reached_cons_iff hmem hschedule
  refine ⟨fun path hreached e hin => ?_, fun e => ?_, ?_⟩
  · rcases hstep.mp hreached with rfl | hreached
    · exact hinspected e hin
    · exact h.inspected path hreached e hin
  · rw [List.mem_append, hmem, mem_children, h.mem_iff, hstep]
    constructor
    · rintro (⟨⟨hin, hparent⟩, hkeep⟩ | ⟨hreached, hin, hkeep⟩)
      · exact ⟨Or.inl hparent, hin, hkeep⟩
      · exact ⟨Or.inr hreached, hin, hkeep⟩
    · rintro ⟨hparent | hreached, hin, hkeep⟩
      · exact Or.inl ⟨⟨hin, hparent⟩, hkeep⟩
      · exact Or.inr ⟨hreached, hin, hkeep⟩
  · rw [List.nodup_append']
    refine ⟨hsublist.nodup (List.filter_sublist.nodup (nodup_entries tree)), h.distinct, ?_⟩
    intro e hin hlater
    -- the parent is done, and no walk comes back to it
    obtain ⟨hreached, -⟩ := (h.mem_iff e).mp hlater
    refine hnext.not_reached hreached ?_
    rw [(mem_children.mp ((hmem e).mp hin).1).2]
    exact List.mem_append_right _ (List.mem_singleton_self dir)

theorem explore_ok {tree : DirectoryTree N A}
    (hschedule : ∀ pending found, (schedule pending found).Perm (pending ++ found)) {fuel : Nat}
    {done pending : List (List N)} (hprogress : Progress tree done pending)
    (hfuel : tree.entries.length + 1 ≤ done.length + fuel) {out : List (List N × TreeNode A)}
    (h : explore inspect schedule tree fuel pending = .ok out) :
    Finds inspect tree pending out := by
  induction fuel generalizing done pending out with
  | zero =>
      have hlength := hprogress.length_le
      have hnil : pending = [] := List.eq_nil_of_length_eq_zero (by omega)
      cases h
      rw [hnil]
      exact Finds.nil tree
  | succ fuel ih =>
      cases pending with
      | nil =>
          cases h
          exact Finds.nil tree
      | cons dir frames =>
          rw [explore] at h
          cases hkept : keepEntries inspect (tree.children dir) with
          | error refusal => rw [hkept] at h; cases h
          | ok kept =>
              simp only [hkept, bind, Except.bind] at h
              cases hlater : explore inspect schedule tree fuel
                  (schedule frames (directoriesOf kept)) with
              | error refusal => rw [hlater] at h; cases h
              | ok later =>
                  rw [hlater] at h
                  cases h
                  have hnext := hprogress.next (keepEntries_ok hkept).1
                    (hschedule frames (directoriesOf kept))
                  refine Finds.cons (hschedule _ _) hprogress hkept (ih hnext ?_ hlater)
                  rw [List.length_append, List.length_singleton]
                  omega

theorem exists_explore_ok {tree : DirectoryTree N A}
    (hschedule : ∀ pending found, (schedule pending found).Perm (pending ++ found)) {fuel : Nat}
    {pending : List (List N)}
    (h : ∀ dir, Reached inspect tree pending dir → ∀ e ∈ tree.children dir,
      ∃ keep, inspect e = .ok keep) :
    ∃ out, explore inspect schedule tree fuel pending = .ok out := by
  induction fuel generalizing pending with
  | zero => exact ⟨[], rfl⟩
  | succ fuel ih =>
      cases pending with
      | nil => exact ⟨[], rfl⟩
      | cons dir frames =>
          obtain ⟨kept, hkept⟩ := exists_keepEntries_ok (h dir (Reached.start List.mem_cons_self))
          obtain ⟨-, -, hmem⟩ := keepEntries_ok hkept
          have hnext : ∀ path, Reached inspect tree (schedule frames (directoriesOf kept)) path →
              ∀ e ∈ tree.children path, ∃ keep, inspect e = .ok keep := fun path hreached =>
            h path ((reached_cons_iff hmem (hschedule _ _)).mpr (Or.inr hreached))
          obtain ⟨later, hlater⟩ := ih hnext
          refine ⟨kept ++ later, ?_⟩
          rw [explore, hkept]
          simp only [bind, Except.bind, hlater]

/-- What a walk from the root finds. -/
theorem walk_ok {tree : DirectoryTree N A}
    (hschedule : ∀ pending found, (schedule pending found).Perm (pending ++ found))
    {out : List (List N × TreeNode A)} (h : walk inspect schedule tree = .ok out) :
    Finds inspect tree [[]] out :=
  explore_ok hschedule (Progress.start tree) (Nat.le_of_eq (Nat.zero_add _).symm) h

theorem exists_walk_ok {tree : DirectoryTree N A}
    (hschedule : ∀ pending found, (schedule pending found).Perm (pending ++ found))
    (h : ∀ dir, Reached inspect tree [[]] dir → ∀ e ∈ tree.children dir,
      ∃ keep, inspect e = .ok keep) :
    ∃ out, walk inspect schedule tree = .ok out :=
  exists_explore_ok hschedule h

/-- A walk that passes no directory over comes to all of them. -/
theorem Finds.reached {tree : DirectoryTree N A} {out : List (List N × TreeNode A)}
    (h : Finds inspect tree [[]] out)
    (hpassed : ∀ dir, (dir, TreeNode.directory) ∈ tree.entries →
      inspect (dir, TreeNode.directory) ≠ .ok false) {dir : List N} (hdir : tree.IsDirectory dir) :
    Reached inspect tree [[]] dir := by
  induction dir using List.reverseRecOn with
  | nil => exact Reached.start List.mem_cons_self
  | append_singleton front name ih =>
      rcases hdir with hnil | hin
      · exact absurd hnil (List.concat_ne_nil name front)
      · have hparent := isDirectory_dropLast hin
        rw [List.dropLast_concat] at hparent
        have hbelow := ih hparent
        have hchild := mem_children.mpr ⟨hin, List.dropLast_concat⟩
        obtain ⟨keep, hkeep⟩ := h.inspected front hbelow _ hchild
        cases keep with
        | true => exact Reached.step hbelow hchild hkeep
        | false => exact absurd hkeep (hpassed _ hin)

/-- It has looked at every entry, and kept those it keeps. -/
theorem Finds.mem_iff_of_passed {tree : DirectoryTree N A} {out : List (List N × TreeNode A)}
    (h : Finds inspect tree [[]] out)
    (hpassed : ∀ dir, (dir, TreeNode.directory) ∈ tree.entries →
      inspect (dir, TreeNode.directory) ≠ .ok false) :
    (∀ e ∈ tree.entries, ∃ keep, inspect e = .ok keep) ∧
      ∀ e, e ∈ out ↔ e ∈ tree.entries ∧ inspect e = .ok true := by
  refine ⟨fun e hin => ?_, fun e => ?_⟩
  · have hreached := h.reached hpassed (isDirectory_dropLast hin)
    exact h.inspected _ hreached e (mem_children.mpr ⟨hin, rfl⟩)
  · rw [h.mem_iff]
    exact ⟨fun hin => hin.2, fun hin => ⟨h.reached hpassed (isDirectory_dropLast hin.1), hin⟩⟩

/-- A walk that passes nothing over has kept every entry of the tree. -/
theorem Finds.all {tree : DirectoryTree N A} {out : List (List N × TreeNode A)}
    (h : Finds inspect tree [[]] out) (hstrict : ∀ e ∈ tree.entries, inspect e ≠ .ok false) :
    (∀ e ∈ tree.entries, inspect e = .ok true) ∧ out.Perm tree.entries := by
  obtain ⟨hinspected, hmem⟩ := h.mem_iff_of_passed fun dir hin => hstrict _ hin
  have hall : ∀ e ∈ tree.entries, inspect e = .ok true := fun e hin => by
    obtain ⟨keep, hkeep⟩ := hinspected e hin
    cases keep with
    | true => exact hkeep
    | false => exact absurd hkeep (hstrict e hin)
  refine ⟨hall, (List.perm_ext_iff_of_nodup h.distinct (nodup_entries tree)).mpr fun e => ?_⟩
  rw [hmem]
  exact and_iff_left_of_imp (hall e)

/-- A walk that keeps every entry finds them all. -/
theorem exists_walk_perm {tree : DirectoryTree N A}
    (hschedule : ∀ pending found, (schedule pending found).Perm (pending ++ found))
    (h : ∀ e ∈ tree.entries, inspect e = .ok true) :
    ∃ out, walk inspect schedule tree = .ok out ∧ out.Perm tree.entries := by
  obtain ⟨out, hout⟩ := exists_walk_ok hschedule fun dir _ e hin =>
    ⟨true, h e (mem_children.mp hin).1⟩
  refine ⟨out, hout, ((walk_ok hschedule hout).all fun e hin hfalse => ?_).2⟩
  rw [h e hin] at hfalse
  cases hfalse

end DirectoryTree
end Foundation
