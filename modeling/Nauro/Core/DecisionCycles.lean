import Nauro.Core.RepairSoundness
import Nauro.Foundation.LowLinks

/-!
# The cycles that the diagnosis reports

`_strongly_connected_components` walks a dict of reference targets; `_cycles` keeps the components
that hold a directed cycle. Both are exact, whatever the graph and the order its dict was filled in.

* `cycles_exact` — the components partition what the roots reach, and every cycle is reported once.
-/

namespace Nauro
namespace Core

open Foundation
open Foundation.StrongComponents (Adjacent Partition components_partition)

variable {E : Type}

/-- `dict[int, set[int]]`, as the targets that `setdefault` adds to each key. -/
abbrev Adjacency := List (Nat × List Nat)

def Adjacency.keys (adjacency : Adjacency) : List Nat :=
  sortNumbers (adjacency.map Prod.fst).dedup

/-- `sorted(adjacency.get(node, ()))`. -/
def Adjacency.targets (adjacency : Adjacency) (node : Nat) : List Nat :=
  sortNumbers ((adjacency.filter fun entry => entry.1 == node).flatMap Prod.snd).dedup

/-- `_strongly_connected_components`. -/
def stronglyConnectedComponents (adjacency : Adjacency) : List (List Nat) :=
  StrongComponents.components adjacency.targets adjacency.keys

/-- The adjacency of `_cycles`: one entry for each reference, in the order they are read. -/
def referenceAdjacency (parsed : List (Decision E)) : Adjacency :=
  (supersessionEdges parsed).map fun edge => (edge.1, [edge.2])

theorem Adjacency.targets_ne_nil {adjacency : Adjacency} (node : Nat)
    (h : adjacency.targets node ≠ []) : node ∈ adjacency.keys := by
  obtain ⟨target, hin⟩ := List.exists_mem_of_ne_nil _ h
  rw [targets, mem_sortNumbers, List.mem_dedup, List.mem_flatMap] at hin
  obtain ⟨entry, hentry, -⟩ := hin
  obtain ⟨hentry, hkey⟩ := List.mem_filter.mp hentry
  rw [keys, mem_sortNumbers, List.mem_dedup]
  exact List.mem_map.mpr ⟨entry, hentry, beq_iff_eq.mp hkey⟩

theorem stronglyConnectedComponents_partition (adjacency : Adjacency) :
    Partition adjacency.targets adjacency.keys (stronglyConnectedComponents adjacency) :=
  components_partition Adjacency.targets_ne_nil

theorem referenceAdjacency_targets (parsed : List (Decision E)) :
    (referenceAdjacency parsed).targets = edgeTargets (supersessionEdges parsed) := by
  funext node
  refine sortedSet_congr fun n => ?_
  simp [referenceAdjacency]

theorem referenceAdjacency_keys (parsed : List (Decision E)) :
    (referenceAdjacency parsed).keys = edgeSources (supersessionEdges parsed) := by
  refine sortedSet_congr fun n => ?_
  simp [referenceAdjacency]

/-- The cycles of the diagnosis come from the components of the references. -/
theorem supersessionCycles_eq (parsed : List (Decision E)) :
    supersessionCycles parsed =
      sortByKey id ((stronglyConnectedComponents (referenceAdjacency parsed)).filterMap
        (cycleMembers (supersessionEdges parsed))) := by
  rw [stronglyConnectedComponents, referenceAdjacency_targets, referenceAdjacency_keys]
  rfl

/-- A component is kept when it has two nodes or a loop, and its members are sorted. -/
theorem cycleMembers_eq_some_iff {edges : List (Nat × Nat)} {component members : List Nat}
    (hne : component ≠ []) :
    cycleMembers edges component = some members ↔ members = sortNumbers component ∧
      (2 ≤ component.length ∨ ∃ node, component = [node] ∧ node ∈ edgeTargets edges node) := by
  match component, hne with
  | [node], _ =>
      have hsingle : sortNumbers [node] = [node] := rfl
      rw [cycleMembers, hsingle]
      by_cases hloop : node ∈ edgeTargets edges node
      · simp [hloop, eq_comm]
      · simp [hloop]
  | first :: second :: rest, _ =>
      show some (sortNumbers (first :: second :: rest)) = some members ↔ _
      simp [eq_comm]

/-- No cycle is reported twice. -/
theorem supersessionCycles_nodup (parsed : List (Decision E)) :
    (supersessionCycles parsed).Nodup := by
  have hpartition := stronglyConnectedComponents_partition (referenceAdjacency parsed)
  have hapart := (List.nodup_flatten.mp hpartition.distinct).2
  rw [supersessionCycles_eq, sortByKey, (List.perm_insertionSort _ _).nodup_iff]
  have hboth : (stronglyConnectedComponents (referenceAdjacency parsed)).Pairwise
      fun a b => a ≠ [] ∧ b ≠ [] ∧ a.Disjoint b :=
    hapart.imp_of_mem fun ha hb hdisjoint =>
      ⟨hpartition.nonempty _ ha, hpartition.nonempty _ hb, hdisjoint⟩
  refine hboth.filterMap _ ?_
  rintro a b ⟨ha, hb, hdisjoint⟩ members hmembers members' hmembers' rfl
  obtain ⟨hsame, -⟩ := (cycleMembers_eq_some_iff ha).mp hmembers
  obtain ⟨hsame', -⟩ := (cycleMembers_eq_some_iff hb).mp hmembers'
  obtain ⟨n, hn⟩ := List.exists_mem_of_ne_nil _ ha
  have hin : n ∈ members := hsame ▸ mem_sortNumbers.mpr hn
  exact hdisjoint hn (mem_sortNumbers.mp (hsame' ▸ hin))

/-- **Cycle detection is exact.** The components partition what the roots reach, two nodes share
one if and only if each reaches the other, and the cycles that are reported, each once, are the
components with a directed cycle: those of two nodes or more, and the loops. -/
theorem cycles_exact (adjacency : Adjacency) (parsed : List (Decision E)) :
    Partition adjacency.targets adjacency.keys (stronglyConnectedComponents adjacency) ∧
      (∀ component ∈ stronglyConnectedComponents adjacency,
        (∃ node ∈ component, Relation.TransGen (Adjacent adjacency.targets) node node) ↔
          2 ≤ component.length ∨ ∃ node, component = [node] ∧ node ∈ adjacency.targets node) ∧
      (supersessionCycles parsed).Nodup ∧
      ∀ members, members ∈ supersessionCycles parsed ↔
        ∃ component ∈ stronglyConnectedComponents (referenceAdjacency parsed),
          members = sortNumbers component ∧ ∃ node ∈ component,
            Relation.TransGen (Adjacent (referenceAdjacency parsed).targets) node node := by
  have hpartition := stronglyConnectedComponents_partition (referenceAdjacency parsed)
  refine ⟨stronglyConnectedComponents_partition adjacency, fun component hin =>
    (stronglyConnectedComponents_partition adjacency).cycle_iff hin,
    supersessionCycles_nodup parsed, fun members => ?_⟩
  rw [supersessionCycles_eq, mem_sortByKey, List.mem_filterMap]
  refine exists_congr fun component => and_congr_right fun hin => ?_
  rw [cycleMembers_eq_some_iff (hpartition.nonempty component hin), hpartition.cycle_iff hin,
    referenceAdjacency_targets]

end Core
end Nauro
