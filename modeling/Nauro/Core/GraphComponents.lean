import Nauro.Core.Doctor
import Nauro.Foundation.ConnectedComponents

/-!
# The components of the decision graph

`_build_components` groups the supersession edges by undirected connectivity: a traversal assigns a
component to every node that an edge touches, and a second pass hands the edges out by the
component of their source. A node that no edge touches is in no component; it is only counted.

* `components_exact` — the components that are built are exact.
-/

namespace Nauro
namespace Core

open Foundation
open Foundation.ConnectedComponents (Assignment assign assign_exact)
open Foundation.StrongComponents (Adjacent Reaches)

/-- A retirement: `from` supersedes `to`. -/
structure GraphEdge where
  source : Nat
  target : Nat
deriving DecidableEq

structure GraphComponent where
  nodes : List Nat
  edges : List GraphEdge
  branchPoints : List Nat
deriving DecidableEq

/-- The order in which a set is iterated, which may depend on how it was filled. -/
structure SetOrder where
  iterate : List Nat → List Nat
  perm : ∀ filled, (iterate filled).Perm filled.dedup

/-! ## The model -/

def GraphEdge.ends (e : GraphEdge) : List Nat := [e.source, e.target]

/-- `sorted(adjacency)`. -/
def edgeNodes (edges : List GraphEdge) : List Nat :=
  sortNumbers (edges.flatMap GraphEdge.ends).dedup

/-- `adjacency[node]`. -/
def adjacency (order : SetOrder) (edges : List GraphEdge) (node : Nat) : List Nat :=
  order.iterate (edges.flatMap fun e =>
    (if e.source = node then [e.target] else []) ++ (if e.target = node then [e.source] else []))

def outDegree (edges : List GraphEdge) (node : Nat) : Nat :=
  edges.countP fun e => e.source = node

def inDegree (edges : List GraphEdge) (node : Nat) : Nat :=
  edges.countP fun e => e.target = node

/-- Two or more edges in one direction. -/
def isBranchPoint (edges : List GraphEdge) (node : Nat) : Bool :=
  decide (1 < outDegree edges node) || decide (1 < inDegree edges node)

/-- `sorted` of edges as pairs. -/
def sortEdges (edges : List GraphEdge) : List GraphEdge :=
  sortByKey (fun e => [e.source, e.target]) edges

/-- The component with a number, from its members and the edges of its sources. -/
def graphComponent (edges : List GraphEdge) (componentOf : Nat → Option Nat) (cid : Nat)
    (members : List Nat) : GraphComponent where
  nodes := sortNumbers members
  edges := sortEdges (edges.filter fun e => componentOf e.source = some cid)
  branchPoints := sortNumbers (members.filter (isBranchPoint edges))

/-- The larger component first, then the one with the smaller first node. -/
def componentLe (c d : GraphComponent) : Bool :=
  decide (d.nodes.length < c.nodes.length) ||
    (c.nodes.length == d.nodes.length && decide (c.nodes.headD 0 ≤ d.nodes.headD 0))

structure BuiltComponents where
  components : List GraphComponent
  /-- The keys of `component_of`; a node becomes one as it joins its members. -/
  incident : List Nat
  branchPointCount : Nat

/-- `_build_components`. -/
def buildComponents (order : SetOrder) (edges : List GraphEdge) : BuiltComponents :=
  let assigned := assign (adjacency order edges) (edgeNodes edges)
  let components := (assigned.components.mapIdx (graphComponent edges assigned.componentOf)).insertionSort
    fun c d => componentLe c d = true
  { components
    incident := assigned.components.flatten
    branchPointCount := (components.map fun c => c.branchPoints.length).sum }

/-- `len(node_numbers - incident)`. -/
def isolatedNodeCount (nodes incident : List Nat) : Nat :=
  (nodes.dedup.filter fun n => n ∉ incident).length

/-! ## Exact components -/

/-- An edge joins two nodes, in one direction or the other. -/
def Linked (edges : List GraphEdge) (a b : Nat) : Prop :=
  ∃ e ∈ edges, (e.source = a ∧ e.target = b) ∨ (e.source = b ∧ e.target = a)

/-- An undirected path joins two nodes. -/
def Joined (edges : List GraphEdge) : Nat → Nat → Prop :=
  Relation.ReflTransGen (Linked edges)

/-- Some edge starts or ends at a node. -/
def Touched (edges : List GraphEdge) (node : Nat) : Prop :=
  ∃ e ∈ edges, e.source = node ∨ e.target = node

instance (edges : List GraphEdge) (node : Nat) : Decidable (Touched edges node) :=
  inferInstanceAs (Decidable (∃ e ∈ edges, e.source = node ∨ e.target = node))

/-- The components of the undirected graph, with their edges and branch points. -/
structure ComponentsExact (edges : List GraphEdge) (components : List GraphComponent) : Prop where
  placed : ∀ node, Touched edges node ↔ ∃ c ∈ components, node ∈ c.nodes
  /-- No node is in two components. -/
  disjoint : components.Pairwise fun c d => c.nodes.Disjoint d.nodes
  ordered : ∀ c ∈ components, c.nodes ≠ [] ∧ c.nodes.Pairwise (· < ·)
  joined : ∀ c ∈ components, ∀ a ∈ c.nodes, ∀ b, b ∈ c.nodes ↔ Joined edges a b
  endpoints : ∀ c ∈ components, ∀ e ∈ edges, e.source ∈ c.nodes ↔ e.target ∈ c.nodes
  /-- The edges of a component are those between its nodes, each as often as it was given. -/
  edges : ∀ c ∈ components, c.edges.Perm (edges.filter fun e => e.source ∈ c.nodes)
  branchPoints : ∀ c ∈ components, c.branchPoints = c.nodes.filter (isBranchPoint c.edges)

section

variable {edges : List GraphEdge} {node : Nat}

theorem mem_edgeNodes : node ∈ edgeNodes edges ↔ Touched edges node := by
  rw [edgeNodes, mem_sortNumbers, List.mem_dedup, List.mem_flatMap, Touched]
  simp only [GraphEdge.ends, List.mem_cons, List.not_mem_nil, or_false, eq_comm]

theorem mem_adjacency {order : SetOrder} {a b : Nat} :
    b ∈ adjacency order edges a ↔ Linked edges a b := by
  rw [adjacency, (order.perm _).mem_iff, List.mem_dedup, List.mem_flatMap, Linked]
  refine exists_congr fun e => and_congr_right fun _ => ?_
  rw [List.mem_append]
  split_ifs with hsource htarget htarget <;> simp [hsource, htarget, eq_comm]

theorem sortNumbers_nodup {numbers : List Nat} (h : numbers.Nodup) :
    (sortNumbers numbers).Nodup :=
  (List.perm_insertionSort _ numbers).nodup_iff.mpr h

theorem sortNumbers_pairwise_lt {numbers : List Nat} (h : numbers.Nodup) :
    (sortNumbers numbers).Pairwise (· < ·) := by
  have hle : (sortNumbers numbers).Pairwise (· ≤ ·) := List.pairwise_insertionSort _ _
  exact (hle.and (sortNumbers_nodup h)).imp fun hboth => lt_of_le_of_ne hboth.1 hboth.2

/-- A sorted list is determined by what it holds. -/
theorem sortNumbers_filter {numbers : List Nat} (keep : Nat → Bool) :
    sortNumbers (numbers.filter keep) = (sortNumbers numbers).filter keep := by
  have hperm : (sortNumbers (numbers.filter keep)).Perm ((sortNumbers numbers).filter keep) :=
    (List.perm_insertionSort _ _).trans ((List.perm_insertionSort _ numbers).symm.filter keep)
  have hsorted : ((sortNumbers numbers).filter keep).Pairwise (· ≤ ·) :=
    (List.pairwise_insertionSort _ _).sublist List.filter_sublist
  exact hperm.eq_of_pairwise' (List.pairwise_insertionSort _ _) hsorted

theorem linked_symm {a b : Nat} (h : Linked edges a b) : Linked edges b a := by
  obtain ⟨e, hin, hends⟩ := h
  exact ⟨e, hin, hends.symm⟩

theorem adjacency_symm (order : SetOrder) (a b : Nat) (h : b ∈ adjacency order edges a) :
    a ∈ adjacency order edges b :=
  mem_adjacency.mpr (linked_symm (mem_adjacency.mp h))

theorem adjacency_within (order : SetOrder) (a : Nat) :
    adjacency order edges a ⊆ edgeNodes edges := by
  intro b hb
  obtain ⟨e, hin, hends⟩ := mem_adjacency.mp hb
  exact mem_edgeNodes.mpr ⟨e, hin, hends.elim (fun h => Or.inr h.2) fun h => Or.inl h.1⟩

theorem reaches_iff_joined (order : SetOrder) {a b : Nat} :
    Reaches (adjacency order edges) a b ↔ Joined edges a b := by
  have hsame : Adjacent (adjacency order edges) = Linked edges := by
    ext x y
    exact mem_adjacency
  rw [Reaches, Joined, hsame]

/-- What the traversals assign is exact, and every node of an edge is assigned. -/
theorem assigned_exact (order : SetOrder) (edges : List GraphEdge) :
    (assign (adjacency order edges) (edgeNodes edges)).Exact (adjacency order edges)
        (edgeNodes edges) ∧
      ∀ node ∈ edgeNodes edges,
        (assign (adjacency order edges) (edgeNodes edges)).componentOf node ≠ none :=
  assign_exact (adjacency_symm order) (sortNumbers_nodup (List.nodup_dedup _))
    fun node _ => adjacency_within order node

/-- The components before they are ordered. -/
theorem mem_buildComponents {order : SetOrder} {c : GraphComponent} :
    c ∈ (buildComponents order edges).components ↔
      ∃ cid members, (assign (adjacency order edges) (edgeNodes edges)).components[cid]? =
          some members ∧
        c = graphComponent edges
          (assign (adjacency order edges) (edgeNodes edges)).componentOf cid members := by
  rw [buildComponents, (List.perm_insertionSort _ _).mem_iff, List.mem_mapIdx]
  constructor
  · rintro ⟨cid, hlt, rfl⟩
    exact ⟨cid, _, List.getElem?_eq_getElem hlt, rfl⟩
  · rintro ⟨cid, members, hat, rfl⟩
    obtain ⟨hlt, rfl⟩ := List.getElem?_eq_some_iff.mp hat
    exact ⟨cid, hlt, rfl⟩

/-- The edges handed to a component are those whose source is a member. -/
theorem componentOf_source {a : Assignment Nat} {neighbors : Nat → List Nat} {nodes : List Nat}
    (h : a.Exact neighbors nodes) {cid : Nat} {members : List Nat}
    (hat : a.components[cid]? = some members) : a.componentOf node = some cid ↔ node ∈ members := by
  rw [h.placed]
  constructor
  · rintro ⟨other, hother, hin⟩
    obtain rfl := Option.some.inj (hat.symm.trans hother)
    exact hin
  · exact fun hin => ⟨members, hat, hin⟩

/-- An edge of a node of a component is an edge of the component. -/
theorem isBranchPoint_of_perm {inside : List GraphEdge} {nodes : List Nat}
    (hperm : inside.Perm (edges.filter fun e => e.source ∈ nodes))
    (hends : ∀ e ∈ edges, e.source ∈ nodes ↔ e.target ∈ nodes) (hnode : node ∈ nodes) :
    isBranchPoint inside node = isBranchPoint edges node := by
  have hout : outDegree inside node = outDegree edges node := by
    rw [outDegree, outDegree, hperm.countP_eq, List.countP_filter]
    refine List.countP_congr fun e _ => ?_
    simp only [Bool.and_eq_true, decide_eq_true_eq, and_iff_left_iff_imp]
    exact fun hsource => hsource ▸ hnode
  have hin : inDegree inside node = inDegree edges node := by
    rw [inDegree, inDegree, hperm.countP_eq, List.countP_filter]
    refine List.countP_congr fun e he => ?_
    simp only [Bool.and_eq_true, decide_eq_true_eq, and_iff_left_iff_imp]
    exact fun htarget => (hends e he).mpr (htarget ▸ hnode)
  rw [isBranchPoint, isBranchPoint, hout, hin]

theorem buildComponents_exact (order : SetOrder) (edges : List GraphEdge) :
    ComponentsExact edges (buildComponents order edges).components := by
  obtain ⟨hexact, hall⟩ := assigned_exact order edges
  set a := assign (adjacency order edges) (edgeNodes edges) with ha
  have hcases : ∀ {c}, c ∈ (buildComponents order edges).components → ∃ cid members,
      a.components[cid]? = some members ∧ members ∈ a.components ∧
        (∀ n, n ∈ c.nodes ↔ n ∈ members) ∧ c = graphComponent edges a.componentOf cid members := by
    intro c hc
    obtain ⟨cid, members, hat, rfl⟩ := mem_buildComponents.mp hc
    exact ⟨cid, members, hat, List.mem_of_getElem? hat, fun n => mem_sortNumbers, rfl⟩
  have hendpoints : ∀ c ∈ (buildComponents order edges).components, ∀ e ∈ edges,
      e.source ∈ c.nodes ↔ e.target ∈ c.nodes := by
    intro c hc e he
    obtain ⟨cid, members, -, hin, hnodes, -⟩ := hcases hc
    have hlinked : Linked edges e.source e.target := ⟨e, he, Or.inl ⟨rfl, rfl⟩⟩
    simp only [hnodes]
    constructor
    · exact fun hsource => (hexact.joined members hin _ hsource _).mpr
        (Relation.ReflTransGen.single (mem_adjacency.mpr hlinked))
    · exact fun htarget => (hexact.joined members hin _ htarget _).mpr
        (Relation.ReflTransGen.single (mem_adjacency.mpr (linked_symm hlinked)))
  have hedges : ∀ c ∈ (buildComponents order edges).components,
      c.edges.Perm (edges.filter fun e => e.source ∈ c.nodes) := by
    intro c hc
    obtain ⟨cid, members, hat, -, hnodes, rfl⟩ := hcases hc
    have hsame : (edges.filter fun e => a.componentOf e.source = some cid) =
        edges.filter fun e => e.source ∈ (graphComponent edges a.componentOf cid members).nodes := by
      refine List.filter_congr fun e _ => ?_
      rw [decide_eq_decide, hnodes]
      exact componentOf_source hexact hat
    exact hsame ▸ List.perm_insertionSort _ _
  refine ⟨?_, ?_, ?_, ?_, hendpoints, hedges, ?_⟩
  · intro node
    constructor
    · intro htouched
      obtain ⟨cid, hcid⟩ := Option.ne_none_iff_exists'.mp (hall node (mem_edgeNodes.mpr htouched))
      obtain ⟨members, hat, hin⟩ := (hexact.placed node cid).mp hcid
      exact ⟨_, mem_buildComponents.mpr ⟨cid, members, hat, rfl⟩, mem_sortNumbers.mpr hin⟩
    · rintro ⟨c, hc, hnode⟩
      obtain ⟨cid, members, hat, -, hnodes, -⟩ := hcases hc
      refine mem_edgeNodes.mp (hexact.within node ?_)
      rw [(componentOf_source hexact hat).mpr ((hnodes node).mp hnode)]
      exact Option.some_ne_none _
  · have hpairs : (a.components.mapIdx (graphComponent edges a.componentOf)).Pairwise
        fun c d => c.nodes.Disjoint d.nodes := by
      refine List.pairwise_iff_getElem.mpr fun i j hi hj hlt => ?_
      rw [List.getElem_mapIdx, List.getElem_mapIdx]
      intro n hn hn'
      exact List.pairwise_iff_getElem.mp hexact.disjoint i j _ _ hlt (mem_sortNumbers.mp hn)
        (mem_sortNumbers.mp hn')
    exact ((List.perm_insertionSort _ _).symm.pairwise_iff fun h => h.symm).mp hpairs
  · intro c hc
    obtain ⟨cid, members, hat, hin, hnodes, rfl⟩ := hcases hc
    obtain ⟨hnodup, hne⟩ := hexact.distinct members hin
    obtain ⟨n, hn⟩ := List.exists_mem_of_ne_nil _ hne
    exact ⟨List.ne_nil_of_mem ((hnodes n).mpr hn), sortNumbers_pairwise_lt hnodup⟩
  · intro c hc x hx y
    obtain ⟨cid, members, -, hin, hnodes, -⟩ := hcases hc
    rw [hnodes, ← reaches_iff_joined order]
    exact hexact.joined members hin x ((hnodes x).mp hx) y
  · intro c hc
    have hbranch : ∀ n ∈ c.nodes, isBranchPoint c.edges n = isBranchPoint edges n :=
      fun n hn => isBranchPoint_of_perm (hedges c hc) (hendpoints c hc) hn
    rw [List.filter_congr hbranch]
    obtain ⟨cid, members, -, -, -, rfl⟩ := hcases hc
    exact sortNumbers_filter _

/-- A branch point of a component is one of the whole graph. -/
theorem ComponentsExact.branchPoints_eq {components : List GraphComponent}
    (h : ComponentsExact edges components) {c : GraphComponent} (hc : c ∈ components) :
    c.branchPoints = c.nodes.filter (isBranchPoint edges) := by
  rw [h.branchPoints c hc]
  exact List.filter_congr fun n hn => isBranchPoint_of_perm (h.edges c hc) (h.endpoints c hc) hn

/-- What is assigned is what an edge touches. -/
theorem mem_incident (order : SetOrder) :
    node ∈ (buildComponents order edges).incident ↔ Touched edges node := by
  rw [(buildComponents_exact order edges).placed node, buildComponents, List.mem_flatten]
  constructor
  · rintro ⟨members, hin, hnode⟩
    obtain ⟨cid, hat⟩ := List.mem_iff_getElem?.mp hin
    exact ⟨_, mem_buildComponents.mpr ⟨cid, members, hat, rfl⟩, mem_sortNumbers.mpr hnode⟩
  · rintro ⟨c, hc, hnode⟩
    obtain ⟨cid, members, hat, rfl⟩ := mem_buildComponents.mp hc
    exact ⟨members, List.mem_of_getElem? hat, mem_sortNumbers.mp hnode⟩

/-- The nodes of the components are the nodes of the edges, each once. -/
theorem ComponentsExact.perm {components : List GraphComponent}
    (h : ComponentsExact edges components) :
    (components.flatMap GraphComponent.nodes).Perm (edgeNodes edges) := by
  have hnodup : (components.flatMap GraphComponent.nodes).Nodup := by
    refine List.nodup_flatMap.mpr ⟨fun c hc => ?_, h.disjoint⟩
    exact (h.ordered c hc).2.imp fun hlt => Nat.ne_of_lt hlt
  refine (List.perm_ext_iff_of_nodup hnodup (sortNumbers_nodup (List.nodup_dedup _))).mpr fun n => ?_
  rw [List.mem_flatMap, ← h.placed n]
  exact mem_edgeNodes.symm

end

/-- **The components are those of the undirected graph.** A node that an edge touches is in exactly
one component, an edge is in the component of both its ends, and two nodes share a component if and
only if a path joins them; the counts are those of the nodes. A node without an edge is in no
component, and counted as isolated. -/
theorem components_exact (order : SetOrder) (nodes : List Nat) (edges : List GraphEdge) :
    let built := buildComponents order edges
    ComponentsExact edges built.components ∧
      (∀ node, node ∈ built.incident ↔ Touched edges node) ∧
      (built.components.map fun c => c.nodes.length).sum = (edgeNodes edges).length ∧
      built.branchPointCount = ((edgeNodes edges).filter (isBranchPoint edges)).length ∧
      isolatedNodeCount nodes built.incident =
        (nodes.dedup.filter fun node => ¬ Touched edges node).length := by
  intro built
  have hexact : ComponentsExact edges built.components := buildComponents_exact order edges
  have hincident : ∀ node, node ∈ built.incident ↔ Touched edges node :=
    fun _ => mem_incident order
  refine ⟨hexact, hincident, ?_, ?_, ?_⟩
  · rw [← List.length_flatMap]
    exact hexact.perm.length_eq
  · show (built.components.map fun c => c.branchPoints.length).sum = _
    rw [List.map_congr_left fun c hc => congrArg List.length (hexact.branchPoints_eq hc),
      ← List.length_flatMap, ← List.filter_flatMap]
    exact (hexact.perm.filter _).length_eq
  · simp only [isolatedNodeCount, hincident]

/-- Without an edge there is no component, and the only node is in none. -/
theorem lone_node_in_no_component :
    ∃ nodes : List Nat, ∃ edges : List GraphEdge, ∀ order : SetOrder, ∃ node ∈ nodes,
      ¬ ∃ c ∈ (buildComponents order edges).components, node ∈ c.nodes :=
  ⟨[1], [], fun _ => ⟨1, List.mem_singleton_self _, by simp [buildComponents, edgeNodes, assign,
    sortNumbers, Assignment.start]⟩⟩

end Core
end Nauro
