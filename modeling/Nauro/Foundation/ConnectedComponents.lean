import Nauro.Foundation.StrongComponents

/-!
# Connected components by one traversal

A traversal assigns a component to every node: each seed that is still without one opens the next
component, and a frontier is emptied from it. Where every neighbor has its node for a neighbor, the
members of a component are exactly the nodes that are joined to its seed.

* `Traversal.Sound`, `Assignment.Exact`, `assign_exact` — the assignment is exact.
-/

namespace Foundation
namespace ConnectedComponents

open StrongComponents (cost cost_filter_visit Reaches)

variable {V : Type} [DecidableEq V]

/-! ## The traversal -/

structure Traversal (V : Type) where
  componentOf : V → Option Nat
  /-- The nodes of the component that is being collected. -/
  members : List V
  /-- The nodes still to be looked at, the next one first. -/
  frontier : List V

/-- A node joins a component, and its neighbors without one join the frontier. -/
def Traversal.visit (neighbors : V → List V) (cid : Nat) (t : Traversal V) (node : V) :
    Traversal V :=
  let componentOf := Function.update t.componentOf node (some cid)
  { componentOf
    members := t.members ++ [node]
    frontier := ((neighbors node).filter fun n => (componentOf n).isNone).reverse ++ t.frontier }

def Traversal.step (neighbors : V → List V) (cid : Nat) (t : Traversal V) : Traversal V :=
  match t.frontier with
  | [] => t
  | node :: rest =>
      if (t.componentOf node).isSome then { t with frontier := rest }
      else { t with frontier := rest }.visit neighbors cid node

def Traversal.run (neighbors : V → List V) (cid : Nat) : Nat → Traversal V → Traversal V
  | 0, t => t
  | fuel + 1, t =>
      if t.frontier.isEmpty then t else (t.step neighbors cid).run neighbors cid fuel

/-- What is assigned so far, and the members of each component. -/
structure Assignment (V : Type) where
  componentOf : V → Option Nat
  components : List (List V)

def Assignment.start : Assignment V := ⟨fun _ => none, []⟩

/-- A seed opens the next component, unless it is already in one. -/
def Assignment.seed (neighbors : V → List V) (fuel : Nat) (a : Assignment V) (seed : V) :
    Assignment V :=
  if (a.componentOf seed).isSome then a
  else
    let t := Traversal.run neighbors a.components.length fuel ⟨a.componentOf, [], [seed]⟩
    ⟨t.componentOf, a.components ++ [t.members]⟩

/-- The assignment over all seeds. -/
def assign (neighbors : V → List V) (seeds : List V) : Assignment V :=
  seeds.foldl (Assignment.seed neighbors (cost neighbors seeds + 1)) Assignment.start

/-! ## The fuel is enough -/

section

variable {neighbors : V → List V} {nodes : List V} {cid : Nat}

theorem Traversal.visit_of_frontier {t : Traversal V} {node : V} {rest : List V}
    (hfrontier : t.frontier = node :: rest) (hnew : t.componentOf node = none) :
    t.step neighbors cid = { t with frontier := rest }.visit neighbors cid node := by
  rw [step, hfrontier]
  simp [hnew]

theorem Traversal.skip_of_frontier {t : Traversal V} {node : V} {rest : List V}
    (hfrontier : t.frontier = node :: rest) (hseen : t.componentOf node ≠ none) :
    t.step neighbors cid = { t with frontier := rest } := by
  rw [step, hfrontier]
  simp [Option.isSome_iff_ne_none.mpr hseen]

/-- The nodes that a traversal still looks at, at most. -/
def Traversal.potential (neighbors : V → List V) (nodes : List V) (t : Traversal V) : Nat :=
  t.frontier.length + cost neighbors (nodes.filter fun node => (t.componentOf node).isNone)

variable (neighbors) (cid) in
theorem Traversal.potential_step (hnodup : nodes.Nodup) {t : Traversal V}
    (hwithin : t.frontier ⊆ nodes) (hfrontier : t.frontier ≠ []) :
    (t.step neighbors cid).potential neighbors nodes < t.potential neighbors nodes := by
  match hcase : t.frontier with
  | [] => exact absurd hcase hfrontier
  | node :: rest =>
      by_cases hnew : t.componentOf node = none
      · have hnode : node ∈ nodes := hwithin (hcase ▸ List.mem_cons_self ..)
        have hcost := cost_filter_visit neighbors hnodup hnode hnew cid
        have hless := List.length_filter_le
          (fun n => (Function.update t.componentOf node (some cid) n).isNone) (neighbors node)
        rw [visit_of_frontier hcase hnew]
        simp only [potential, visit, List.length_append, List.length_reverse, hcase,
          List.length_cons]
        omega
      · rw [skip_of_frontier hcase hnew]
        simp only [potential, hcase, List.length_cons]
        omega

theorem Traversal.within_step (hneighbors : ∀ node ∈ nodes, neighbors node ⊆ nodes)
    {t : Traversal V} (hwithin : t.frontier ⊆ nodes) :
    (t.step neighbors cid).frontier ⊆ nodes := by
  match hcase : t.frontier with
  | [] =>
      rw [step, hcase]
      exact hwithin
  | node :: rest =>
      have hrest : rest ⊆ nodes := fun n hn => hwithin (hcase ▸ List.mem_cons_of_mem _ hn)
      by_cases hnew : t.componentOf node = none
      · rw [visit_of_frontier hcase hnew]
        intro n hn
        rcases List.mem_append.mp hn with hin | hin
        · have hnode : node ∈ nodes := hwithin (hcase ▸ List.mem_cons_self ..)
          exact hneighbors node hnode (List.mem_filter.mp (List.mem_reverse.mp hin)).1
        · exact hrest hin
      · rw [skip_of_frontier hcase hnew]
        exact hrest

/-- A traversal with as much fuel as potential empties its frontier. -/
theorem Traversal.run_done (hnodup : nodes.Nodup)
    (hneighbors : ∀ node ∈ nodes, neighbors node ⊆ nodes) {fuel : Nat} {t : Traversal V}
    (hwithin : t.frontier ⊆ nodes) (hfuel : t.potential neighbors nodes ≤ fuel) :
    (t.run neighbors cid fuel).frontier = [] := by
  induction fuel generalizing t with
  | zero =>
      by_contra hfrontier
      have hless := potential_step neighbors cid hnodup hwithin hfrontier
      omega
  | succ fuel ih =>
      rw [run]
      split_ifs with hempty
      · exact List.isEmpty_iff.mp hempty
      · have hfrontier : t.frontier ≠ [] := fun h => hempty (by simp [h])
        have hless := potential_step neighbors cid hnodup hwithin hfrontier
        exact ih (within_step hneighbors hwithin) (by omega)

end

/-! ## What a traversal collects -/

/-- What holds of a traversal from a seed, whatever was assigned before it. -/
structure Traversal.Sound (neighbors : V → List V) (before : V → Option Nat) (cid : Nat) (seed : V)
    (t : Traversal V) : Prop where
  opened : before seed = none
  assigned : ∀ node, t.componentOf node = if node ∈ t.members then some cid else before node
  fresh : ∀ node ∈ t.members, before node = none
  distinct : t.members.Nodup
  reached : ∀ node, node ∈ t.members ∨ node ∈ t.frontier → Reaches neighbors seed node
  /-- No neighbor of a member is forgotten. -/
  covered : ∀ node ∈ t.members, ∀ other ∈ neighbors node,
    t.componentOf other ≠ none ∨ other ∈ t.frontier
  seeded : seed ∈ t.members ∨ seed ∈ t.frontier

section

variable {neighbors : V → List V} {before : V → Option Nat} {cid : Nat} {seed : V}

theorem Traversal.Sound.start (hnew : before seed = none) :
    Traversal.Sound neighbors before cid seed ⟨before, [], [seed]⟩ := by
  refine ⟨hnew, fun node => by simp, List.forall_mem_nil _, List.nodup_nil, ?_,
    List.forall_mem_nil _, Or.inr (List.mem_singleton_self _)⟩
  rintro node (hin | hin)
  · cases hin
  · rw [List.mem_singleton.mp hin]
    exact Relation.ReflTransGen.refl

theorem Traversal.Sound.visit {t : Traversal V} (h : t.Sound neighbors before cid seed) {node : V}
    {rest : List V} (hfrontier : t.frontier = node :: rest) (hnew : t.componentOf node = none) :
    ({ t with frontier := rest }.visit neighbors cid node).Sound neighbors before cid seed := by
  have hassigned := h.assigned node
  rw [hnew] at hassigned
  have hnot : node ∉ t.members := fun hin => by simp [hin] at hassigned
  have hbefore : before node = none := by simpa [hnot] using hassigned.symm
  have hreach : Reaches neighbors seed node :=
    h.reached node (Or.inr (hfrontier ▸ List.mem_cons_self ..))
  refine ⟨h.opened, ?_, ?_, ?_, ?_, ?_, ?_⟩
  · intro other
    by_cases hsame : other = node
    · subst hsame
      simp [Traversal.visit]
    · simp only [Traversal.visit, Function.update_of_ne hsame, h.assigned other, List.mem_append,
        List.mem_singleton, hsame, or_false]
  · intro other hother
    rcases List.mem_append.mp hother with hin | hin
    · exact h.fresh other hin
    · rw [List.mem_singleton.mp hin]
      exact hbefore
  · refine List.nodup_append.mpr ⟨h.distinct, List.nodup_singleton _, ?_⟩
    rintro a ha b hb rfl
    exact hnot (List.mem_singleton.mp hb ▸ ha)
  · rintro other (hin | hin)
    · rcases List.mem_append.mp hin with hin | hin
      · exact h.reached other (Or.inl hin)
      · rw [List.mem_singleton.mp hin]
        exact hreach
    · rcases List.mem_append.mp hin with hin | hin
      · exact hreach.tail (List.mem_filter.mp (List.mem_reverse.mp hin)).1
      · exact h.reached other (Or.inr (hfrontier ▸ List.mem_cons_of_mem _ hin))
  · intro member hmember other hother
    by_cases hassigned' :
        (Function.update t.componentOf node (some cid) other).isNone
    · rcases List.mem_append.mp hmember with hin | hin
      · have hne : other ≠ node := fun hsame => by simp [hsame] at hassigned'
        rw [Function.update_of_ne hne] at hassigned'
        rcases h.covered member hin other hother with hold | hold
        · exact absurd (Option.isNone_iff_eq_none.mp hassigned') hold
        · rw [hfrontier] at hold
          exact Or.inr (List.mem_append_right _ ((List.mem_cons.mp hold).resolve_left hne))
      · rw [List.mem_singleton.mp hin] at hother
        refine Or.inr (List.mem_append_left _ (List.mem_reverse.mpr ?_))
        exact List.mem_filter.mpr ⟨hother, hassigned'⟩
    · exact Or.inl fun hnone => hassigned' (Option.isNone_iff_eq_none.mpr hnone)
  · rcases h.seeded with hin | hin
    · exact Or.inl (List.mem_append_left _ hin)
    · rcases List.mem_cons.mp (hfrontier ▸ hin) with hsame | hin
      · exact Or.inl (List.mem_append_right _ (hsame ▸ List.mem_singleton_self _))
      · exact Or.inr (List.mem_append_right _ hin)

theorem Traversal.Sound.skip {t : Traversal V} (h : t.Sound neighbors before cid seed) {node : V}
    {rest : List V} (hfrontier : t.frontier = node :: rest) (hseen : t.componentOf node ≠ none) :
    ({ t with frontier := rest } : Traversal V).Sound neighbors before cid seed := by
  refine ⟨h.opened, h.assigned, h.fresh, h.distinct, ?_, ?_, ?_⟩
  · exact fun other hin => h.reached other
      (hin.imp_right fun hrest => hfrontier ▸ List.mem_cons_of_mem _ hrest)
  · intro member hmember other hother
    rcases h.covered member hmember other hother with hold | hold
    · exact Or.inl hold
    · rcases List.mem_cons.mp (hfrontier ▸ hold) with rfl | hrest
      · exact Or.inl hseen
      · exact Or.inr hrest
  · refine h.seeded.elim Or.inl fun hin => ?_
    rcases List.mem_cons.mp (hfrontier ▸ hin) with rfl | hrest
    · -- a seed that is already assigned was collected by this traversal
      refine Or.inl (by_contra fun hnot => hseen ?_)
      rw [h.assigned, if_neg hnot, h.opened]
    · exact Or.inr hrest

theorem Traversal.Sound.step {t : Traversal V} (h : t.Sound neighbors before cid seed) :
    (t.step neighbors cid).Sound neighbors before cid seed := by
  match hcase : t.frontier with
  | [] =>
      rw [Traversal.step, hcase]
      exact h
  | node :: rest =>
      by_cases hnew : t.componentOf node = none
      · rw [visit_of_frontier hcase hnew]
        exact h.visit hcase hnew
      · rw [skip_of_frontier hcase hnew]
        exact h.skip hcase hnew

theorem Traversal.Sound.run {t : Traversal V} (h : t.Sound neighbors before cid seed)
    (fuel : Nat) : (t.run neighbors cid fuel).Sound neighbors before cid seed := by
  induction fuel generalizing t with
  | zero => exact h
  | succ fuel ih =>
      rw [Traversal.run]
      split_ifs
      · exact h
      · exact ih h.step

/-- What is assigned is assigned with all its neighbors. -/
def Closed (neighbors : V → List V) (componentOf : V → Option Nat) : Prop :=
  ∀ node other, componentOf node ≠ none → other ∈ neighbors node → componentOf other ≠ none

/-- An empty frontier leaves exactly the nodes that the seed reaches. -/
theorem Traversal.Sound.members_iff {t : Traversal V} (h : t.Sound neighbors before cid seed)
    (hdone : t.frontier = []) (hsymm : ∀ a b, b ∈ neighbors a → a ∈ neighbors b)
    (hclosed : Closed neighbors before) {node : V} :
    node ∈ t.members ↔ Reaches neighbors seed node := by
  constructor
  · exact fun hin => h.reached node (Or.inl hin)
  · intro hreach
    induction hreach with
    | refl =>
        refine h.seeded.resolve_right fun hin => ?_
        rw [hdone] at hin
        cases hin
    | @tail member other _ hedge hmember =>
        have hassigned : t.componentOf other ≠ none := by
          refine (h.covered member hmember other hedge).resolve_right fun hin => ?_
          rw [hdone] at hin
          cases hin
        -- a neighbor that was assigned earlier would have had the member assigned then
        by_contra hnot
        rw [h.assigned, if_neg hnot] at hassigned
        exact hclosed other member hassigned (hsymm member other hedge) (h.fresh member hmember)

end

/-! ## The assignment is exact -/

/-- Every component is all that its members reach, and `componentOf` says where a node is. -/
structure Assignment.Exact (neighbors : V → List V) (nodes : List V) (a : Assignment V) : Prop where
  within : ∀ node, a.componentOf node ≠ none → node ∈ nodes
  closed : Closed neighbors a.componentOf
  placed : ∀ node cid, a.componentOf node = some cid ↔
    ∃ members, a.components[cid]? = some members ∧ node ∈ members
  distinct : ∀ members ∈ a.components, members.Nodup ∧ members ≠ []
  joined : ∀ members ∈ a.components, ∀ node ∈ members, ∀ other,
    other ∈ members ↔ Reaches neighbors node other

section

variable {neighbors : V → List V} {nodes : List V}

omit [DecidableEq V] in
theorem reaches_symm (hsymm : ∀ a b, b ∈ neighbors a → a ∈ neighbors b) {a b : V}
    (h : Reaches neighbors a b) : Reaches neighbors b a := by
  induction h with
  | refl => exact Relation.ReflTransGen.refl
  | tail _ hedge ih => exact Relation.ReflTransGen.head (hsymm _ _ hedge) ih

omit [DecidableEq V] in
theorem reaches_within (hneighbors : ∀ node ∈ nodes, neighbors node ⊆ nodes) {a b : V}
    (ha : a ∈ nodes) (h : Reaches neighbors a b) : b ∈ nodes := by
  induction h with
  | refl => exact ha
  | tail _ hedge ih => exact hneighbors _ ih hedge

theorem getElem?_concat_eq_some_iff {α : Type} {xs : List α} {last x : α} {i : Nat} :
    (xs ++ [last])[i]? = some x ↔ xs[i]? = some x ∨ i = xs.length ∧ last = x := by
  rcases Nat.lt_trichotomy i xs.length with hlt | rfl | hgt
  · rw [List.getElem?_append_left hlt]
    simp [Nat.ne_of_lt hlt]
  · simp
  · rw [List.getElem?_eq_none (by simp; omega), List.getElem?_eq_none (Nat.le_of_lt hgt)]
    simp [Nat.ne_of_gt hgt]

/-- A traversal that is done adds one component. -/
theorem Assignment.Exact.add {a : Assignment V} (h : a.Exact neighbors nodes)
    (hsymm : ∀ a b, b ∈ neighbors a → a ∈ neighbors b)
    (hneighbors : ∀ node ∈ nodes, neighbors node ⊆ nodes) {seed : V} (hseed : seed ∈ nodes)
    {t : Traversal V}
    (hsound : t.Sound neighbors a.componentOf a.components.length seed) (hdone : t.frontier = []) :
    Assignment.Exact neighbors nodes ⟨t.componentOf, a.components ++ [t.members]⟩ := by
  have hmembers : ∀ node, node ∈ t.members ↔ Reaches neighbors seed node :=
    fun node => hsound.members_iff hdone hsymm h.closed
  refine ⟨?_, ?_, ?_, ?_, ?_⟩
  · intro node hnode
    by_cases hin : node ∈ t.members
    · exact reaches_within hneighbors hseed ((hmembers node).mp hin)
    · simp only [hsound.assigned node, if_neg hin] at hnode
      exact h.within node hnode
  · intro node other hnode hedge
    show t.componentOf other ≠ none
    by_cases hin : node ∈ t.members
    · have hother : other ∈ t.members :=
        (hmembers other).mpr (((hmembers node).mp hin).tail hedge)
      rw [hsound.assigned, if_pos hother]
      exact Option.some_ne_none _
    · simp only [hsound.assigned node, if_neg hin] at hnode
      have hother := h.closed node other hnode hedge
      simp only [hsound.assigned other]
      split_ifs
      · exact Option.some_ne_none _
      · exact hother
  · intro node cid
    show t.componentOf node = some cid ↔ _
    simp only [getElem?_concat_eq_some_iff, hsound.assigned node]
    split_ifs with hin
    · -- a new member is in no earlier component
      have hnot : ∀ members, a.components[cid]? = some members → node ∉ members := by
        intro members hat hold
        have hplaced := (h.placed node cid).mpr ⟨members, hat, hold⟩
        rw [hsound.fresh node hin] at hplaced
        cases hplaced
      constructor
      · intro hcid
        exact ⟨t.members, Or.inr ⟨(Option.some.inj hcid).symm, rfl⟩, hin⟩
      · rintro ⟨members, hat | ⟨rfl, rfl⟩, hold⟩
        · exact absurd hold (hnot members hat)
        · rfl
    · rw [h.placed node cid]
      constructor
      · rintro ⟨members, hat, hold⟩
        exact ⟨members, Or.inl hat, hold⟩
      · rintro ⟨members, hat | ⟨rfl, rfl⟩, hold⟩
        · exact ⟨members, hat, hold⟩
        · exact absurd hold hin
  · intro members hin
    rcases List.mem_append.mp hin with hin | hin
    · exact h.distinct members hin
    · rw [List.mem_singleton.mp hin]
      exact ⟨hsound.distinct, List.ne_nil_of_mem ((hmembers seed).mpr Relation.ReflTransGen.refl)⟩
  · intro members hin node hnode other
    rcases List.mem_append.mp hin with hin | hin
    · exact h.joined members hin node hnode other
    · rw [List.mem_singleton.mp hin] at hnode ⊢
      have hreach := (hmembers node).mp hnode
      rw [hmembers other]
      exact ⟨(reaches_symm hsymm hreach).trans, hreach.trans⟩

omit [DecidableEq V] in
/-- No node is in two components. -/
theorem Assignment.Exact.disjoint {a : Assignment V} (h : a.Exact neighbors nodes) :
    a.components.Pairwise List.Disjoint := by
  refine List.pairwise_iff_getElem.mpr fun i j hi hj hlt node hnode hnode' => ?_
  have hfirst := (h.placed node i).mpr ⟨_, List.getElem?_eq_getElem hi, hnode⟩
  have hsecond := (h.placed node j).mpr ⟨_, List.getElem?_eq_getElem hj, hnode'⟩
  rw [hfirst] at hsecond
  exact Nat.ne_of_lt hlt (Option.some.inj hsecond)

theorem Assignment.Exact.seed {a : Assignment V} (h : a.Exact neighbors nodes)
    (hsymm : ∀ a b, b ∈ neighbors a → a ∈ neighbors b) (hnodup : nodes.Nodup)
    (hneighbors : ∀ node ∈ nodes, neighbors node ⊆ nodes) {seed : V} (hseed : seed ∈ nodes) :
    (a.seed neighbors (cost neighbors nodes + 1) seed).Exact neighbors nodes ∧
      (a.seed neighbors (cost neighbors nodes + 1) seed).componentOf seed ≠ none ∧
      ∀ node, a.componentOf node ≠ none →
        (a.seed neighbors (cost neighbors nodes + 1) seed).componentOf node ≠ none := by
  rw [Assignment.seed]
  split_ifs with hseen
  · exact ⟨h, Option.isSome_iff_ne_none.mp hseen, fun _ hnode => hnode⟩
  · have hnew : a.componentOf seed = none := by simpa using hseen
    set t := Traversal.run neighbors a.components.length (cost neighbors nodes + 1)
      ⟨a.componentOf, [], [seed]⟩ with ht
    have hsound : t.Sound neighbors a.componentOf a.components.length seed :=
      (Traversal.Sound.start hnew).run _
    have hdone : t.frontier = [] := by
      refine Traversal.run_done hnodup hneighbors ?_ ?_
      · exact List.cons_subset.mpr ⟨hseed, List.nil_subset _⟩
      · have hless := StrongComponents.cost_filter_le neighbors nodes
          fun node => (a.componentOf node).isNone
        show 1 + cost neighbors (nodes.filter fun node => (a.componentOf node).isNone) ≤ _
        omega
    refine ⟨h.add hsymm hneighbors hseed hsound hdone, ?_, ?_⟩
    · have hin : seed ∈ t.members :=
        (hsound.members_iff hdone hsymm h.closed).mpr Relation.ReflTransGen.refl
      show t.componentOf seed ≠ none
      rw [hsound.assigned, if_pos hin]
      exact Option.some_ne_none _
    · intro node hnode
      show t.componentOf node ≠ none
      rw [hsound.assigned]
      split_ifs
      · exact Option.some_ne_none _
      · exact hnode

/-- The components of the seeds are exact, and every seed is in one. -/
theorem assign_exact (hsymm : ∀ a b, b ∈ neighbors a → a ∈ neighbors b)
    (hnodup : nodes.Nodup) (hneighbors : ∀ node ∈ nodes, neighbors node ⊆ nodes) :
    (assign neighbors nodes).Exact neighbors nodes ∧
      ∀ node ∈ nodes, (assign neighbors nodes).componentOf node ≠ none := by
  have hfold : ∀ (rest : List V) (a : Assignment V), rest ⊆ nodes → a.Exact neighbors nodes →
      let done := rest.foldl (Assignment.seed neighbors (cost neighbors nodes + 1)) a
      done.Exact neighbors nodes ∧
        ∀ node, node ∈ rest ∨ a.componentOf node ≠ none → done.componentOf node ≠ none := by
    intro rest
    induction rest with
    | nil => exact fun a _ h => ⟨h, fun node hnode => hnode.resolve_left List.not_mem_nil⟩
    | cons seed rest ih =>
        intro a hsub h
        obtain ⟨hseed, hrest⟩ := List.cons_subset.mp hsub
        obtain ⟨hexact, hassigned, hkept⟩ := h.seed hsymm hnodup hneighbors hseed
        obtain ⟨hdone, hall⟩ := ih _ hrest hexact
        refine ⟨hdone, fun node hnode => hall node ?_⟩
        rcases hnode with hin | hold
        · rcases List.mem_cons.mp hin with rfl | hin
          · exact Or.inr hassigned
          · exact Or.inl hin
        · exact Or.inr (hkept node hold)
  have hstart : (Assignment.start : Assignment V).Exact neighbors nodes := by
    refine ⟨fun node hnode => absurd rfl hnode, fun node other hnode => absurd rfl hnode,
      fun node cid => ?_, ?_, ?_⟩
    · simp [Assignment.start]
    · exact List.forall_mem_nil _
    · exact List.forall_mem_nil _
  obtain ⟨hexact, hall⟩ := hfold nodes Assignment.start (List.Subset.refl _) hstart
  exact ⟨hexact, fun node hnode => hall node (Or.inl hnode)⟩

end

end ConnectedComponents
end Foundation
