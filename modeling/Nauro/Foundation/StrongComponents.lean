import Mathlib.Algebra.BigOperators.Group.List.Basic
import Mathlib.Algebra.GroupWithZero.Nat
import Mathlib.Data.List.Dedup
import Mathlib.Logic.Function.Basic
import Mathlib.Logic.Relation

/-!
# Strongly connected components by depth-first search

Tarjan's walk with an explicit work stack. A node gets its index and its low link when it is first
seen; when its neighbors are exhausted and its low link is its own index, the nodes above it on the
component stack are one component.

* `Search.Sound`, `mem_components` — every root is in a component.
-/

namespace Foundation
namespace StrongComponents

variable {V : Type} [DecidableEq V]

/-! ## Reachability -/

/-- An edge leads from one node to the other. -/
def Adjacent (neighbors : V → List V) (a b : V) : Prop := b ∈ neighbors a

/-- A path leads from one node to the other. -/
def Reaches (neighbors : V → List V) : V → V → Prop :=
  Relation.ReflTransGen (Adjacent neighbors)

/-! ## The walk -/

structure Search (V : Type) where
  indexOf : V → Option Nat
  low : V → Nat
  /-- The component stack, the top first. -/
  stack : List V
  /-- The nodes being walked with the neighbors still to be seen, the innermost first. -/
  work : List (V × List V)
  /-- The components that are finished, the first one first. -/
  found : List (List V)
  counter : Nat

def Search.start : Search V where
  indexOf := fun _ => none
  low := fun _ => 0
  stack := []
  work := []
  found := []
  counter := 0

/-- A node is seen for the first time. -/
def Search.visit (neighbors : V → List V) (s : Search V) (node : V) : Search V :=
  { s with
    indexOf := Function.update s.indexOf node (some s.counter)
    low := Function.update s.low node s.counter
    stack := node :: s.stack
    work := (node, neighbors node) :: s.work
    counter := s.counter + 1 }

/-- Lower a node's link. -/
def Search.relax (s : Search V) (node : V) (value : Nat) : Search V :=
  { s with low := Function.update s.low node (min (s.low node) value) }

/-- Close the component of a node: everything above it on the stack. -/
def Search.close (s : Search V) (node : V) : Search V :=
  { s with
    stack := (s.stack.dropWhile (· ≠ node)).tail
    found := s.found ++ [s.stack.takeWhile (· ≠ node) ++ [node]] }

/-- The next neighbor of the innermost node. -/
def Search.see (neighbors : V → List V) (s : Search V) (node neighbor : V) : Search V :=
  match s.indexOf neighbor with
  | none => s.visit neighbors neighbor
  | some index => if neighbor ∈ s.stack then s.relax node index else s

/-- The innermost node has no neighbor left. -/
def Search.leave (s : Search V) (node : V) (frames : List (V × List V)) : Search V :=
  let closed := if s.indexOf node = some (s.low node) then s.close node else s
  let left := { closed with work := frames }
  match frames with
  | [] => left
  | (parent, _) :: _ => left.relax parent (left.low node)

def Search.step (neighbors : V → List V) (s : Search V) : Search V :=
  match s.work with
  | [] => s
  | (node, neighbor :: rest) :: frames =>
      { s with work := (node, rest) :: frames }.see neighbors node neighbor
  | (node, []) :: frames => s.leave node frames

def Search.run (neighbors : V → List V) : Nat → Search V → Search V
  | 0, s => s
  | fuel + 1, s => if s.work.isEmpty then s else (s.step neighbors).run neighbors fuel

/-- The walk from a root that was not seen before. -/
def Search.root (neighbors : V → List V) (fuel : Nat) (s : Search V) (node : V) : Search V :=
  if (s.indexOf node).isSome then s else (s.visit neighbors node).run neighbors fuel

/-- What the nodes cost: one step for each neighbor and one to leave. -/
def cost (neighbors : V → List V) (nodes : List V) : Nat :=
  (nodes.map fun node => (neighbors node).length + 1).sum

/-- The roots and everything they have for a neighbor. -/
def nodesOf (neighbors : V → List V) (roots : List V) : List V :=
  (roots ++ roots.flatMap neighbors).dedup

def search (neighbors : V → List V) (roots : List V) : Search V :=
  roots.foldl (Search.root neighbors (cost neighbors (nodesOf neighbors roots))) Search.start

/-- The strongly connected components, in the order they are closed. -/
def components (neighbors : V → List V) (roots : List V) : List (List V) :=
  (search neighbors roots).found

/-! ## The fuel is enough -/

/-- The steps that a walk has left, at most. -/
def Search.potential (neighbors : V → List V) (nodes : List V) (s : Search V) : Nat :=
  (s.work.map fun frame => frame.2.length + 1).sum +
    cost neighbors (nodes.filter fun node => (s.indexOf node).isNone)

/-- The neighbors that are still to be seen are among the nodes. -/
def Search.Within (nodes : List V) (s : Search V) : Prop :=
  ∀ frame ∈ s.work, ∀ neighbor ∈ frame.2, neighbor ∈ nodes

section

variable {neighbors : V → List V} {nodes : List V}

@[simp] theorem Search.visit_indexOf_self (s : Search V) (node : V) :
    (s.visit neighbors node).indexOf node = some s.counter :=
  Function.update_self ..

theorem Search.visit_indexOf_of_ne (s : Search V) {node other : V} (hne : other ≠ node) :
    (s.visit neighbors node).indexOf other = s.indexOf other :=
  Function.update_of_ne hne ..

@[simp] theorem Search.visit_low_self (s : Search V) (node : V) :
    (s.visit neighbors node).low node = s.counter :=
  Function.update_self ..

theorem Search.visit_low_of_ne (s : Search V) {node other : V} (hne : other ≠ node) :
    (s.visit neighbors node).low other = s.low other :=
  Function.update_of_ne hne ..

@[simp] theorem Search.relax_work (s : Search V) (node : V) (value : Nat) :
    (s.relax node value).work = s.work := rfl

@[simp] theorem Search.relax_indexOf (s : Search V) (node : V) (value : Nat) :
    (s.relax node value).indexOf = s.indexOf := rfl

theorem Search.leave_work (s : Search V) (node : V) (frames : List (V × List V)) :
    (s.leave node frames).work = frames ∧ (s.leave node frames).indexOf = s.indexOf := by
  unfold Search.leave
  cases frames with
  | nil =>
      refine ⟨rfl, ?_⟩
      dsimp only
      split_ifs <;> rfl
  | cons frame frames =>
      refine ⟨rfl, ?_⟩
      dsimp only
      split_ifs <;> rfl

variable (neighbors) in
/-- A node that is seen for the first time pays for its frame. -/
theorem cost_filter_visit (hnodup : nodes.Nodup) {indexOf : V → Option Nat} {node : V}
    (hnode : node ∈ nodes) (hnew : indexOf node = none) (index : Nat) :
    cost neighbors (nodes.filter fun other => (indexOf other).isNone) =
      cost neighbors (nodes.filter fun other =>
        (Function.update indexOf node (some index) other).isNone) +
        ((neighbors node).length + 1) := by
  induction nodes with
  | nil => cases hnode
  | cons first rest ih =>
      obtain ⟨hnot, hrest⟩ := List.nodup_cons.mp hnodup
      by_cases hfirst : first = node
      · subst hfirst
        have hsame : rest.filter (fun other =>
            (Function.update indexOf first (some index) other).isNone) =
              rest.filter fun other => (indexOf other).isNone := by
          refine List.filter_congr fun other hother => ?_
          have hne : other ≠ first := fun h => hnot (h ▸ hother)
          rw [Function.update_of_ne hne]
        rw [List.filter_cons_of_pos (by simp [hnew]), List.filter_cons_of_neg (by simp), hsame]
        simp only [cost, List.map_cons, List.sum_cons]
        omega
      · have hin : node ∈ rest := (List.mem_cons.mp hnode).resolve_left fun h => hfirst h.symm
        have hrest' := ih hrest hin
        by_cases hseen : (indexOf first).isNone = true
        · simp only [List.filter_cons, Function.update_of_ne hfirst, if_pos hseen]
          simp only [cost, List.map_cons, List.sum_cons] at hrest' ⊢
          omega
        · simp only [List.filter_cons, Function.update_of_ne hfirst, if_neg hseen]
          exact hrest'

theorem Search.potential_visit (hnodup : nodes.Nodup) {s : Search V} {node : V}
    (hnode : node ∈ nodes) (hnew : s.indexOf node = none) :
    (s.visit neighbors node).potential neighbors nodes = s.potential neighbors nodes := by
  have hcost := cost_filter_visit neighbors hnodup hnode hnew s.counter
  simp only [potential, visit, List.map_cons, List.sum_cons]
  omega

variable (neighbors) in
/-- Every step uses up some of the potential. -/
theorem Search.potential_step (hnodup : nodes.Nodup) {s : Search V} (hwithin : s.Within nodes)
    (hwork : s.work ≠ []) :
    (s.step neighbors).potential neighbors nodes < s.potential neighbors nodes := by
  match hframes : s.work with
  | [] => exact absurd hframes hwork
  | (node, []) :: frames =>
      obtain ⟨hleft, hindex⟩ := s.leave_work node frames
      have hstep : s.step neighbors = s.leave node frames := by rw [step, hframes]
      rw [hstep, potential, potential, hleft, hindex, hframes]
      simp
  | (node, neighbor :: rest) :: frames =>
      have hin : neighbor ∈ nodes :=
        hwithin (node, neighbor :: rest) (hframes ▸ List.mem_cons_self ..) neighbor
          (List.mem_cons_self ..)
      set advanced : Search V := { s with work := (node, rest) :: frames } with hadvanced
      have hstep : s.step neighbors = advanced.see neighbors node neighbor := by rw [step, hframes]
      have hless : advanced.potential neighbors nodes < s.potential neighbors nodes := by
        rw [potential, potential, hframes]
        simp [hadvanced]
      have hsee : (advanced.see neighbors node neighbor).potential neighbors nodes =
          advanced.potential neighbors nodes := by
        rw [see]
        split
        · next hnew => exact potential_visit hnodup hin hnew
        · split_ifs <;> rfl
      rw [hstep, hsee]
      exact hless

theorem Search.within_step (hneighbors : ∀ node ∈ nodes, neighbors node ⊆ nodes) {s : Search V}
    (hwithin : s.Within nodes) : (s.step neighbors).Within nodes := by
  match hframes : s.work with
  | [] =>
      rw [step, hframes]
      exact hwithin
  | (node, []) :: frames =>
      have hstep : s.step neighbors = s.leave node frames := by rw [step, hframes]
      intro frame hframe
      rw [hstep, (s.leave_work node frames).1] at hframe
      exact hwithin frame (hframes ▸ List.mem_cons_of_mem _ hframe)
  | (node, neighbor :: rest) :: frames =>
      have hfirst := hwithin (node, neighbor :: rest) (hframes ▸ List.mem_cons_self ..)
      have hadvanced : ({ s with work := (node, rest) :: frames } : Search V).Within nodes := by
        intro frame hframe
        rcases List.mem_cons.mp hframe with rfl | hrest
        · exact fun other hother => hfirst other (List.mem_cons_of_mem _ hother)
        · exact hwithin frame (hframes ▸ List.mem_cons_of_mem _ hrest)
      rw [step, hframes]
      simp only [see]
      split
      · intro frame hframe
        rcases List.mem_cons.mp hframe with rfl | hrest
        · exact hneighbors neighbor (hfirst neighbor (List.mem_cons_self ..))
        · exact hadvanced frame hrest
      · split_ifs <;> exact hadvanced

/-- A walk with as much fuel as potential comes to its end. -/
theorem Search.run_done (hnodup : nodes.Nodup) (hneighbors : ∀ node ∈ nodes, neighbors node ⊆ nodes)
    {fuel : Nat} {s : Search V} (hwithin : s.Within nodes)
    (hfuel : s.potential neighbors nodes ≤ fuel) : (s.run neighbors fuel).work = [] := by
  induction fuel generalizing s with
  | zero =>
      by_contra hwork
      have hless := potential_step neighbors hnodup hwithin hwork
      omega
  | succ fuel ih =>
      rw [run]
      split_ifs with hempty
      · exact List.isEmpty_iff.mp hempty
      · have hwork : s.work ≠ [] := fun h => hempty (by simp [h])
        have hless := potential_step neighbors hnodup hwithin hwork
        exact ih (within_step hneighbors hwithin) (by omega)

omit [DecidableEq V] in
variable (neighbors) (nodes) in
theorem cost_filter_le (keep : V → Bool) : cost neighbors (nodes.filter keep) ≤ cost neighbors nodes := by
  induction nodes with
  | nil => exact Nat.le_refl _
  | cons first rest ih =>
      rw [List.filter_cons]
      simp only [cost, List.map_cons, List.sum_cons] at ih ⊢
      split_ifs
      · simp only [List.map_cons, List.sum_cons]
        omega
      · omega

theorem neighbors_nodesOf {roots : List V} (hroots : ∀ node, neighbors node ≠ [] → node ∈ roots) :
    ∀ node, neighbors node ⊆ nodesOf neighbors roots := by
  intro node neighbor hin
  have hnode := hroots node (List.ne_nil_of_mem hin)
  exact List.mem_dedup.mpr (List.mem_append_right _ (List.mem_flatMap.mpr ⟨node, hnode, hin⟩))

/-- The walk from a root comes to its end. -/
theorem root_done {roots : List V} (hroots : ∀ node, neighbors node ≠ [] → node ∈ roots)
    {s : Search V} {node : V} (hnode : node ∈ roots) (hwork : s.work = []) :
    (s.root neighbors (cost neighbors (nodesOf neighbors roots)) node).work = [] := by
  have hneighbors := neighbors_nodesOf hroots
  rw [Search.root]
  split_ifs with hseen
  · exact hwork
  · have hin : node ∈ nodesOf neighbors roots := List.mem_dedup.mpr (List.mem_append_left _ hnode)
    have hnew : s.indexOf node = none := by simpa using hseen
    refine Search.run_done (List.nodup_dedup _) (fun node _ => hneighbors node) ?_ ?_
    · intro frame hframe
      rw [Search.visit, hwork, List.mem_singleton] at hframe
      rw [hframe]
      exact hneighbors node
    · rw [Search.potential_visit (List.nodup_dedup _) hin hnew, Search.potential, hwork]
      exact Nat.le_trans (Nat.le_of_eq (Nat.zero_add _)) (cost_filter_le neighbors _ _)

end

/-! ## Every root is in a component -/

/-- The nodes that are being walked, the innermost first. -/
def Search.path (s : Search V) : List V :=
  s.work.map Prod.fst

/-- What holds along the walk from a root that was the first to be seen, at index `base`. -/
structure Search.Sound (root : V) (base : Nat) (s : Search V) : Prop where
  /-- A node that was seen is on the stack or in a component. -/
  accounted : ∀ node, s.indexOf node ≠ none → node ∈ s.stack ∨ node ∈ s.found.flatten
  stacked : ∀ node ∈ s.stack, ∃ index, s.indexOf node = some index ∧ base ≤ index
  links : ∀ node ∈ s.path, ∃ index, s.indexOf node = some index ∧ base ≤ s.low node ∧
    s.low node ≤ index
  /-- The nodes being walked are on the stack, in the same order. -/
  ordered : s.path.Sublist s.stack
  distinct : s.stack.Nodup
  rooted : s.path ≠ [] → s.path.getLast? = some root ∧ s.stack.getLast? = some root ∧
    s.indexOf root = some base
  finished : s.path = [] → s.stack = []
  counted : base ≤ s.counter

theorem sublist_tail_dropWhile {node : V} {rest stack : List V}
    (h : (node :: rest).Sublist stack) : rest.Sublist (stack.dropWhile (· ≠ node)).tail := by
  induction stack with
  | nil => cases h
  | cons x stack ih =>
      by_cases hx : x = node
      · subst hx
        rw [List.dropWhile_cons_of_neg (by simp)]
        cases h with
        | cons _ h => exact (List.sublist_cons_self _ _).trans h
        | cons_cons _ h => exact h
      · rw [List.dropWhile_cons_of_pos (by simpa using hx)]
        cases h with
        | cons _ h => exact ih h
        | cons_cons _ h => exact absurd rfl hx

omit [DecidableEq V] in
theorem getLast?_of_suffix {back whole : List V} (hsuffix : back <:+ whole) (hne : back ≠ []) :
    back.getLast? = whole.getLast? := by
  obtain ⟨front, rfl⟩ := hsuffix
  rw [List.getLast?_append, List.getLast?_eq_some_getLast hne]
  rfl

theorem tail_dropWhile_suffix (node : V) (stack : List V) :
    (stack.dropWhile (· ≠ node)).tail <:+ stack :=
  (List.tail_suffix _).trans (List.dropWhile_suffix _)

/-- Nothing is below the root. -/
theorem tail_dropWhile_root {root : V} {stack : List V} (hnodup : stack.Nodup)
    (hlast : stack.getLast? = some root) : (stack.dropWhile (· ≠ root)).tail = [] := by
  obtain ⟨above, rfl⟩ := List.getLast?_eq_some_iff.mp hlast
  have hnot : ∀ node ∈ above, decide (node ≠ root) = true := by
    intro node hnode
    refine decide_eq_true fun h => ?_
    subst h
    exact (List.nodup_append.mp hnodup).2.2 node hnode node (List.mem_singleton_self _) rfl
  rw [List.dropWhile_append_of_pos hnot]
  simp

theorem mem_of_close {node other : V} {stack : List V} (hnode : node ∈ stack)
    (hother : other ∈ stack) :
    other ∈ (stack.dropWhile (· ≠ node)).tail ∨ other ∈ stack.takeWhile (· ≠ node) ++ [node] := by
  induction stack with
  | nil => cases hnode
  | cons x stack ih =>
      by_cases hx : x = node
      · subst hx
        rw [List.dropWhile_cons_of_neg (by simp), List.takeWhile_cons_of_neg (by simp)]
        rcases List.mem_cons.mp hother with rfl | hin
        · exact Or.inr (List.mem_singleton_self _)
        · exact Or.inl hin
      · rw [List.dropWhile_cons_of_pos (by simpa using hx),
          List.takeWhile_cons_of_pos (by simpa using hx)]
        have hnode' : node ∈ stack := (List.mem_cons.mp hnode).resolve_left fun h => hx h.symm
        rcases List.mem_cons.mp hother with rfl | hin
        · exact Or.inr (List.mem_cons_self ..)
        · exact (ih hnode' hin).imp_right (List.mem_cons_of_mem _)

section

variable {neighbors : V → List V} {root : V} {base : Nat}

/-- A node is seen for the first time, from a walk that is under way. -/
theorem Search.Sound.visit {s : Search V} (h : s.Sound root base) (hpath : s.path ≠ []) {node : V}
    (hnew : s.indexOf node = none) : (s.visit neighbors node).Sound root base := by
  have hseen : ∀ {other index}, s.indexOf other = some index → other ≠ node := by
    rintro other index hother rfl
    rw [hnew] at hother
    cases hother
  have hpath' : (s.visit neighbors node).path = node :: s.path := rfl
  have hstack' : (s.visit neighbors node).stack = node :: s.stack := rfl
  obtain ⟨hlast, hbottom, hroot⟩ := h.rooted hpath
  have hstack : s.stack ≠ [] := fun hempty => by simp [hempty] at hbottom
  refine ⟨?_, ?_, ?_, h.ordered.cons_cons node, ?_, fun _ => ⟨?_, ?_, ?_⟩,
    fun hdone => absurd hdone (List.cons_ne_nil _ _), Nat.le_succ_of_le h.counted⟩
  · intro other hother
    by_cases hsame : other = node
    · exact Or.inl (hsame ▸ List.mem_cons_self ..)
    · rw [visit_indexOf_of_ne s hsame] at hother
      exact (h.accounted other hother).imp_left (List.mem_cons_of_mem _)
  · intro other hother
    rcases List.mem_cons.mp hother with rfl | hin
    · exact ⟨s.counter, visit_indexOf_self s other, h.counted⟩
    · obtain ⟨index, hindex, hbase⟩ := h.stacked other hin
      exact ⟨index, by rw [visit_indexOf_of_ne s (hseen hindex), hindex], hbase⟩
  · intro other hother
    rcases List.mem_cons.mp hother with rfl | hin
    · exact ⟨s.counter, visit_indexOf_self s _, by rw [visit_low_self]; exact h.counted,
        Nat.le_of_eq (visit_low_self s _)⟩
    · obtain ⟨index, hindex, hbase, hlow⟩ := h.links other hin
      have hne := hseen hindex
      exact ⟨index, by rw [visit_indexOf_of_ne s hne, hindex],
        by rwa [visit_low_of_ne s hne], by rwa [visit_low_of_ne s hne]⟩
  · refine List.nodup_cons.mpr ⟨fun hin => ?_, h.distinct⟩
    obtain ⟨index, hindex, -⟩ := h.stacked node hin
    exact hseen hindex rfl
  · rw [hpath', ← hlast]
    exact (getLast?_of_suffix (List.suffix_cons _ _) hpath).symm
  · rw [hstack', ← hbottom]
    exact (getLast?_of_suffix (List.suffix_cons _ _) hstack).symm
  · rw [visit_indexOf_of_ne s (hseen hroot), hroot]

/-- The walk from a root starts with an empty stack. -/
theorem Search.Sound.start {s : Search V} (hstack : s.stack = []) (hwork : s.work = [])
    (haccounted : ∀ node, s.indexOf node ≠ none → node ∈ s.found.flatten) {node : V}
    (hnew : s.indexOf node = none) : (s.visit neighbors node).Sound node s.counter := by
  have hpath' : (s.visit neighbors node).path = [node] := by
    rw [path, Search.visit, hwork]
    rfl
  have hstack' : (s.visit neighbors node).stack = [node] := by rw [Search.visit, hstack]
  refine ⟨?_, ?_, ?_, ?_, ?_, fun _ => ⟨?_, ?_, visit_indexOf_self s node⟩, ?_, Nat.le_succ _⟩
  · intro other hother
    by_cases hsame : other = node
    · exact Or.inl (by rw [hstack', hsame]; exact List.mem_singleton_self _)
    · rw [visit_indexOf_of_ne s hsame] at hother
      exact Or.inr (haccounted other hother)
  · intro other hother
    rw [hstack', List.mem_singleton] at hother
    subst hother
    exact ⟨s.counter, visit_indexOf_self s other, Nat.le_refl _⟩
  · intro other hother
    rw [hpath', List.mem_singleton] at hother
    subst hother
    exact ⟨s.counter, visit_indexOf_self s _, Nat.le_of_eq (visit_low_self s _).symm,
      Nat.le_of_eq (visit_low_self s _)⟩
  · rw [hpath', hstack']
  · rw [hstack']
    exact List.nodup_singleton _
  · rw [hpath']
    rfl
  · rw [hstack']
    rfl
  · intro hdone
    rw [hpath'] at hdone
    cases hdone

/-- The link of a node is lowered to an index of the walk. -/
theorem Search.Sound.relax {s : Search V} (h : s.Sound root base) (node : V) {value : Nat}
    (hvalue : base ≤ value) : (s.relax node value).Sound root base := by
  refine ⟨h.accounted, h.stacked, ?_, h.ordered, h.distinct, h.rooted, h.finished, h.counted⟩
  intro other hother
  obtain ⟨index, hindex, hbase, hlow⟩ := h.links other hother
  refine ⟨index, hindex, ?_⟩
  by_cases hsame : other = node
  · have hmin : (s.relax node value).low other = min (s.low node) value := by
      rw [hsame]
      exact Function.update_self ..
    rw [hmin, ← hsame]
    exact ⟨Nat.le_min.mpr ⟨hbase, hvalue⟩, Nat.le_trans (Nat.min_le_left _ _) hlow⟩
  · have hkept : (s.relax node value).low other = s.low other := Function.update_of_ne hsame ..
    rw [hkept]
    exact ⟨hbase, hlow⟩

omit [DecidableEq V] in
/-- The walk goes back along its path; what leaves the stack is in a component. -/
theorem Search.Sound.back {s t : Search V} (h : s.Sound root base)
    (hindex : t.indexOf = s.indexOf) (hlow : t.low = s.low) (hcounter : t.counter = s.counter)
    (hpath : t.path <:+ s.path) (hstack : t.stack <:+ s.stack)
    (hordered : t.path.Sublist t.stack) (hfinished : t.path = [] → t.stack = [])
    (hkept : ∀ node ∈ s.stack, node ∈ t.stack ∨ node ∈ t.found.flatten)
    (hfound : s.found.flatten ⊆ t.found.flatten) : t.Sound root base := by
  refine ⟨?_, ?_, ?_, hordered, h.distinct.sublist hstack.sublist, ?_, hfinished,
    hcounter ▸ h.counted⟩
  · intro node hnode
    rw [hindex] at hnode
    rcases h.accounted node hnode with hin | hin
    · exact hkept node hin
    · exact Or.inr (hfound hin)
  · intro node hnode
    rw [hindex]
    exact h.stacked node (hstack.subset hnode)
  · intro node hnode
    rw [hindex, hlow]
    exact h.links node (hpath.subset hnode)
  · intro hne
    have hne' : t.stack ≠ [] := fun hempty => hne (List.sublist_nil.mp (hempty ▸ hordered))
    obtain ⟨hlast, hbottom, hroot⟩ := h.rooted fun hempty =>
      hne (List.suffix_nil.mp (hempty ▸ hpath))
    rw [getLast?_of_suffix hpath hne, getLast?_of_suffix hstack hne', hindex]
    exact ⟨hlast, hbottom, hroot⟩

/-- The innermost node is left; the last one to be left is the root, and nothing stays on the
stack. -/
theorem Search.Sound.leave {s : Search V} (h : s.Sound root base) {node : V}
    {frames : List (V × List V)} (hwork : s.work = (node, []) :: frames) :
    (s.leave node frames).Sound root base := by
  have hpath : s.path = node :: frames.map Prod.fst := by
    rw [path, hwork]
    rfl
  have hordered : (node :: frames.map Prod.fst).Sublist s.stack := hpath ▸ h.ordered
  have hnode : node ∈ s.stack := hordered.subset (List.mem_cons_self ..)
  obtain ⟨index, hindex, hbase, hlow⟩ := h.links node (hpath ▸ List.mem_cons_self ..)
  set closed := if s.indexOf node = some (s.low node) then s.close node else s with hclosed
  have hsame : closed.low = s.low := by
    rw [hclosed]
    split_ifs <;> rfl
  have hleft : ({ closed with work := frames } : Search V).Sound root base := by
    by_cases hself : s.indexOf node = some (s.low node)
    · rw [hclosed, if_pos hself]
      refine h.back rfl rfl rfl ?_ (tail_dropWhile_suffix node s.stack)
        (sublist_tail_dropWhile hordered) ?_ ?_ ?_
      · rw [hpath]
        exact List.suffix_cons _ _
      · intro hdone
        have hnil : frames.map Prod.fst = [] := hdone
        obtain ⟨hlast, hbottom, -⟩ := h.rooted (by rw [hpath]; exact List.cons_ne_nil _ _)
        rw [hpath, hnil] at hlast
        obtain rfl : node = root := Option.some.inj hlast
        exact tail_dropWhile_root h.distinct hbottom
      · intro other hother
        refine (mem_of_close hnode hother).imp_right fun hin => ?_
        exact List.mem_flatten.mpr ⟨_, List.mem_append_right _ (List.mem_singleton_self _), hin⟩
      · intro other hother
        obtain ⟨component, hin, hmem⟩ := List.mem_flatten.mp hother
        exact List.mem_flatten.mpr ⟨component, List.mem_append_left _ hin, hmem⟩
    · rw [hclosed, if_neg hself]
      refine h.back rfl rfl rfl ?_ (List.suffix_refl _) ((List.sublist_cons_self _ _).trans hordered)
        ?_ (fun _ => Or.inl) (List.Subset.refl _)
      · rw [hpath]
        exact List.suffix_cons _ _
      · -- the root has the smallest index, so its link is its own
        intro hdone
        have hnil : frames.map Prod.fst = [] := hdone
        obtain ⟨hlast, -, hroot⟩ := h.rooted (by rw [hpath]; exact List.cons_ne_nil _ _)
        rw [hpath, hnil] at hlast
        obtain rfl : node = root := Option.some.inj hlast
        obtain rfl : base = index := Option.some.inj (hroot.symm.trans hindex)
        exact absurd (by rw [hindex, Nat.le_antisymm hlow hbase]) hself
  cases frames with
  | nil =>
      have hleave : s.leave node [] = { closed with work := [] } := rfl
      rw [hleave]
      exact hleft
  | cons frame frames =>
      have hleave : s.leave node (frame :: frames) =
          ({ closed with work := frame :: frames } : Search V).relax frame.1 (closed.low node) := rfl
      rw [hleave]
      exact hleft.relax frame.1 (by rw [hsame]; exact hbase)

theorem Search.Sound.step {s : Search V} (h : s.Sound root base) :
    (s.step neighbors).Sound root base := by
  match hframes : s.work with
  | [] =>
      rw [Search.step, hframes]
      exact h
  | (node, []) :: frames =>
      rw [Search.step, hframes]
      exact h.leave hframes
  | (node, neighbor :: rest) :: frames =>
      have hpath : s.path = node :: frames.map Prod.fst := by
        rw [path, hframes]
        rfl
      set advanced : Search V := { s with work := (node, rest) :: frames } with hadvanced
      have hpath' : advanced.path = s.path := hpath.symm
      have hsound : advanced.Sound root base :=
        h.back rfl rfl rfl (hpath' ▸ List.suffix_refl _) (List.suffix_refl _)
          (hpath' ▸ h.ordered) (hpath' ▸ h.finished) (fun _ => Or.inl) (List.Subset.refl _)
      have hstep : s.step neighbors = advanced.see neighbors node neighbor := by
        rw [Search.step, hframes]
      rw [hstep, see]
      split
      · next hnew => exact hsound.visit (List.cons_ne_nil _ _) hnew
      · next index hindex =>
        split_ifs with hin
        · obtain ⟨index', hindex', hbase⟩ := hsound.stacked neighbor hin
          rw [hindex] at hindex'
          exact hsound.relax node (Option.some.inj hindex' ▸ hbase)
        · exact hsound

theorem Search.Sound.run {s : Search V} (h : s.Sound root base) (fuel : Nat) :
    (s.run neighbors fuel).Sound root base := by
  induction fuel generalizing s with
  | zero => exact h
  | succ fuel ih =>
      rw [Search.run]
      split_ifs
      · exact h
      · exact ih h.step

/-- No step forgets a node. -/
theorem Search.indexOf_step (s : Search V) {node : V} (hseen : s.indexOf node ≠ none) :
    (s.step neighbors).indexOf node ≠ none := by
  match hframes : s.work with
  | [] =>
      rw [Search.step, hframes]
      exact hseen
  | (inner, []) :: frames =>
      have hstep : s.step neighbors = s.leave inner frames := by rw [Search.step, hframes]
      rw [hstep, (s.leave_work inner frames).2]
      exact hseen
  | (inner, neighbor :: rest) :: frames =>
      rw [Search.step, hframes]
      simp only [see]
      split
      · by_cases hsame : node = neighbor
        · rw [hsame, visit_indexOf_self]
          exact Option.some_ne_none _
        · rw [visit_indexOf_of_ne _ hsame]
          exact hseen
      · split_ifs <;> exact hseen

theorem Search.indexOf_run {s : Search V} {node : V} (hseen : s.indexOf node ≠ none) (fuel : Nat) :
    (s.run neighbors fuel).indexOf node ≠ none := by
  induction fuel generalizing s with
  | zero => exact hseen
  | succ fuel ih =>
      rw [Search.run]
      split_ifs
      · exact hseen
      · exact ih (s.indexOf_step hseen)

/-- Between two roots: the stack is empty and every node that was seen is in a component. -/
structure Search.Settled (s : Search V) : Prop where
  stack : s.stack = []
  accounted : ∀ node, s.indexOf node ≠ none → node ∈ s.found.flatten

/-- A walk that comes to its end is settled again, and has seen its root. -/
theorem Search.Settled.walk {s : Search V} (h : s.Settled) (hwork : s.work = []) {fuel : Nat}
    {node : V} (hdone : (s.root neighbors fuel node).work = []) :
    (s.root neighbors fuel node).Settled ∧ (s.root neighbors fuel node).indexOf node ≠ none := by
  rw [Search.root] at hdone ⊢
  split_ifs at hdone ⊢ with hseen
  · exact ⟨h, Option.isSome_iff_ne_none.mp hseen⟩
  · have hnew : s.indexOf node = none := by simpa using hseen
    have hsound : ((s.visit neighbors node).run neighbors fuel).Sound node s.counter :=
      (Sound.start h.stack hwork h.accounted hnew).run fuel
    have hstack := hsound.finished (by rw [path, hdone]; rfl)
    refine ⟨⟨hstack, fun other hother => ?_⟩, ?_⟩
    · refine (hsound.accounted other hother).resolve_left fun hin => ?_
      rw [hstack] at hin
      cases hin
    · refine indexOf_run ?_ fuel
      rw [visit_indexOf_self]
      exact Option.some_ne_none _

theorem Search.indexOf_root {s : Search V} {node : V} (hseen : s.indexOf node ≠ none) (fuel : Nat)
    (other : V) : (s.root neighbors fuel other).indexOf node ≠ none := by
  rw [Search.root]
  split_ifs with hother
  · exact hseen
  · refine indexOf_run ?_ fuel
    by_cases hsame : node = other
    · rw [hsame, visit_indexOf_self]
      exact Option.some_ne_none _
    · rw [visit_indexOf_of_ne s hsame]
      exact hseen

/-- Every root is in a component. -/
theorem mem_components {roots : List V} (hroots : ∀ node, neighbors node ≠ [] → node ∈ roots)
    {node : V} (hnode : node ∈ roots) :
    ∃ component ∈ components neighbors roots, node ∈ component := by
  have hfold : ∀ (rest : List V) (s : Search V), rest ⊆ roots → s.work = [] → s.Settled →
      let t := rest.foldl (Search.root neighbors (cost neighbors (nodesOf neighbors roots))) s
      t.Settled ∧ ∀ other, s.indexOf other ≠ none ∨ other ∈ rest → t.indexOf other ≠ none := by
    intro rest
    induction rest with
    | nil => exact fun s _ _ hsettled => ⟨hsettled, fun other h => h.resolve_right (by simp)⟩
    | cons first rest ih =>
        intro s hsub hwork hsettled
        obtain ⟨hfirst, hrest⟩ := List.cons_subset.mp hsub
        have hdone := root_done hroots hfirst hwork
        obtain ⟨hsettled', hseen⟩ := hsettled.walk hwork hdone
        obtain ⟨hend, hall⟩ := ih _ hrest hdone hsettled'
        refine ⟨hend, fun other hother => hall other ?_⟩
        rcases hother with hold | hin
        · exact Or.inl (Search.indexOf_root hold _ _)
        · rcases List.mem_cons.mp hin with rfl | hin
          · exact Or.inl hseen
          · exact Or.inr hin
  have hstart : (Search.start : Search V).Settled := ⟨rfl, fun _ h => absurd rfl h⟩
  obtain ⟨hsettled, hall⟩ := hfold roots Search.start (List.Subset.refl _) rfl hstart
  obtain ⟨component, hin, hmem⟩ :=
    List.mem_flatten.mp (hsettled.accounted node (hall node (Or.inr hnode)))
  exact ⟨component, hin, hmem⟩

end

end StrongComponents
end Foundation
