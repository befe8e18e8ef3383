import Mathlib.Data.List.TakeWhile
import Nauro.Foundation.StrongComponents

/-!
# The low links of the depth-first search

Why the nodes above a node on the component stack are its strongly connected component once its low
link is its own index. The low link of a node on the stack is the index of a node on the stack that
it reaches, and an edge that was examined is accounted for by the link of some node of the path.

* `Partition`, `components_partition` — the components are the classes of mutual reachability.
-/

namespace Foundation
namespace StrongComponents

variable {V : Type}

/-- The index of a node that was seen. -/
def Search.index (s : Search V) (node : V) : Nat :=
  (s.indexOf node).getD 0

/-- The edge is still to be examined by the walk. -/
def Search.Pending (s : Search V) (node other : V) : Prop :=
  ∃ frame ∈ s.work, frame.1 = node ∧ other ∈ frame.2

/-- The links of the nodes on the stack, where `pending` are the edges not examined yet. -/
structure Search.LowLinks (neighbors : V → List V) (pending : V → V → Prop) (s : Search V) :
    Prop where
  numbered : ∀ node ∈ s.stack, s.index node < s.counter
  sorted : s.stack.Pairwise fun a b => s.index b < s.index a
  seen : ∀ node, s.indexOf node ≠ none → ∀ other ∈ neighbors node, ¬ pending node other →
    s.indexOf other ≠ none
  /-- A node being walked reaches what is above it. -/
  above : ∀ p ∈ s.path, ∀ node ∈ s.stack, s.index p ≤ s.index node → Reaches neighbors p node
  reached : ∀ node ∈ s.stack, ∃ other ∈ s.stack, s.index other = s.low node ∧
    Reaches neighbors node other
  /-- A node that was left without being closed reaches further down. -/
  left : ∀ node ∈ s.stack, node ∉ s.path → s.low node < s.index node
  /-- An examined edge that stays on the stack shows in the link of a node being walked. -/
  shown : ∀ p ∈ s.path, ∀ node ∈ s.stack, s.index p ≤ s.index node → ∀ other ∈ neighbors node,
    ¬ pending node other → other ∈ s.stack →
      ∃ q ∈ s.path, s.index p ≤ s.index q ∧ s.low q ≤ s.index other

/-- What holds of the components that are closed. -/
structure Search.Parts (neighbors : V → List V) (roots : List V) (s : Search V) : Prop where
  grounded : ∀ node, s.indexOf node ≠ none → ∃ root ∈ roots, Reaches neighbors root node
  apart : ∀ node ∈ s.found.flatten, s.indexOf node ≠ none ∧ node ∉ s.stack
  distinct : s.found.flatten.Nodup
  closed : ∀ node ∈ s.found.flatten, neighbors node ⊆ s.found.flatten
  strong : ∀ component ∈ s.found, component ≠ [] ∧ ∀ node ∈ component, ∀ other,
    other ∈ component ↔ Reaches neighbors node other ∧ Reaches neighbors other node

section

variable {neighbors : V → List V} {pending pending' : V → V → Prop}

theorem Search.index_of_seen {s : Search V} {node : V} {index : Nat}
    (h : s.indexOf node = some index) : s.index node = index := by
  rw [Search.index, h]
  rfl

/-- Fewer examined edges leave less to show. -/
theorem Search.LowLinks.weaken {s : Search V} (h : s.LowLinks neighbors pending)
    (hpending : ∀ node, ∀ other ∈ neighbors node, pending node other → pending' node other) :
    s.LowLinks neighbors pending' := by
  refine ⟨h.numbered, h.sorted, ?_, h.above, h.reached, h.left, ?_⟩
  · exact fun node hnode other hin hnot =>
      h.seen node hnode other hin fun hold => hnot (hpending node other hin hold)
  · exact fun p hp node hnode hle other hin hnot hother =>
      h.shown p hp node hnode hle other hin (fun hold => hnot (hpending node other hin hold)) hother

/-- An edge of a node being walked is examined: its end was seen, and shows in the node's link. -/
theorem Search.LowLinks.discharge {s : Search V} {inner neighbor : V}
    (h : s.LowLinks neighbors fun node other => pending node other ∨ node = inner ∧ other = neighbor)
    (hinner : inner ∈ s.path) (hseen : s.indexOf neighbor ≠ none)
    (hlow : neighbor ∈ s.stack → s.low inner ≤ s.index neighbor) :
    s.LowLinks neighbors pending := by
  refine ⟨h.numbered, h.sorted, ?_, h.above, h.reached, h.left, ?_⟩
  · intro node hnode other hin hnot
    by_cases hedge : node = inner ∧ other = neighbor
    · rw [hedge.2]
      exact hseen
    · exact h.seen node hnode other hin fun hold => hold.elim hnot hedge
  · intro p hp node hnode hle other hin hnot hother
    by_cases hedge : node = inner ∧ other = neighbor
    · obtain ⟨rfl, rfl⟩ := hedge
      exact ⟨node, hinner, hle, hlow hother⟩
    · exact h.shown p hp node hnode hle other hin (fun hold => hold.elim hnot hedge) hother

/-- The walk's frames are replaced by frames of the same nodes. -/
theorem Search.LowLinks.advance {s : Search V} (h : s.LowLinks neighbors pending)
    {work : List (V × List V)} (hpath : work.map Prod.fst = s.path) :
    ({ s with work } : Search V).LowLinks neighbors pending := by
  have hpath' : ({ s with work } : Search V).path = s.path := hpath
  refine ⟨h.numbered, h.sorted, h.seen, ?_, h.reached, ?_, ?_⟩
  · rw [hpath']
    exact h.above
  · rw [hpath']
    exact h.left
  · rw [hpath']
    exact h.shown

end

section

variable [DecidableEq V] {neighbors : V → List V} {pending : V → V → Prop}

theorem Search.visit_index_self (s : Search V) (node : V) :
    (s.visit neighbors node).index node = s.counter :=
  index_of_seen (visit_indexOf_self s node)

theorem Search.visit_index_of_ne (s : Search V) {node other : V} (hne : other ≠ node) :
    (s.visit neighbors node).index other = s.index other := by
  rw [Search.index, visit_indexOf_of_ne s hne, Search.index]

/-- A node is seen for the first time; its edges are not examined yet. -/
theorem Search.LowLinks.visit {s : Search V} (h : s.LowLinks neighbors pending) {node : V}
    (hnew : s.indexOf node = none) (hstack : ∀ other ∈ s.stack, s.indexOf other ≠ none)
    (hpath : s.path ⊆ s.stack) (hreach : ∀ p ∈ s.path, Reaches neighbors p node) :
    (s.visit neighbors node).LowLinks neighbors
      fun other target => pending other target ∨ other = node := by
  have hne : ∀ {other}, other ∈ s.stack → other ≠ node := by
    rintro other hin rfl
    exact hstack other hin hnew
  have hindex : ∀ {other}, other ∈ s.stack →
      (s.visit neighbors node).index other = s.index other :=
    fun hin => visit_index_of_ne s (hne hin)
  have hlow : ∀ {other}, other ∈ s.stack → (s.visit neighbors node).low other = s.low other :=
    fun hin => visit_low_of_ne s (hne hin)
  have hself : (s.visit neighbors node).index node = s.counter := visit_index_self s node
  refine ⟨?_, ?_, ?_, ?_, ?_, ?_, ?_⟩
  · intro other hother
    rcases List.mem_cons.mp hother with rfl | hin
    · rw [hself]
      exact Nat.lt_succ_self _
    · rw [hindex hin]
      exact Nat.lt_succ_of_lt (h.numbered other hin)
  · refine List.pairwise_cons.mpr ⟨?_, ?_⟩
    · intro other hin
      rw [hindex hin, hself]
      exact h.numbered other hin
    · refine h.sorted.imp_of_mem fun ha hb hlt => ?_
      rwa [hindex ha, hindex hb]
  · intro other hother target hin hnot
    have hsame : other ≠ node := fun hsame => hnot (Or.inr hsame)
    rw [visit_indexOf_of_ne s hsame] at hother
    have hseen := h.seen other hother target hin fun hold => hnot (Or.inl hold)
    by_cases htarget : target = node
    · rw [htarget, visit_indexOf_self]
      exact Option.some_ne_none _
    · rwa [visit_indexOf_of_ne s htarget]
  · intro p hp other hother hle
    rcases List.mem_cons.mp hp with rfl | hp'
    · rcases List.mem_cons.mp hother with rfl | hin
      · exact Relation.ReflTransGen.refl
      · rw [hself, hindex hin] at hle
        exact absurd (h.numbered other hin) (Nat.not_lt.mpr hle)
    · rcases List.mem_cons.mp hother with rfl | hin
      · exact hreach p hp'
      · rw [hindex (hpath hp'), hindex hin] at hle
        exact h.above p hp' other hin hle
  · intro other hother
    rcases List.mem_cons.mp hother with rfl | hin
    · exact ⟨other, List.mem_cons_self .., by rw [hself, visit_low_self],
        Relation.ReflTransGen.refl⟩
    · obtain ⟨target, htarget, hsame, hto⟩ := h.reached other hin
      exact ⟨target, List.mem_cons_of_mem _ htarget, by rw [hindex htarget, hlow hin, hsame], hto⟩
  · intro other hother hnot
    rcases List.mem_cons.mp hother with rfl | hin
    · exact absurd (List.mem_cons_self ..) hnot
    · rw [hindex hin, hlow hin]
      exact h.left other hin fun hp => hnot (List.mem_cons_of_mem _ hp)
  · intro p hp other hother hle target hin hnot htarget
    have hold : other ∈ s.stack :=
      (List.mem_cons.mp hother).resolve_left fun hsame => hnot (Or.inr hsame)
    have hp' : p ∈ s.path := by
      rcases List.mem_cons.mp hp with rfl | hp'
      · rw [hself, hindex hold] at hle
        exact absurd (h.numbered other hold) (Nat.not_lt.mpr hle)
      · exact hp'
    have hpending : ¬ pending other target := fun hold => hnot (Or.inl hold)
    -- an edge that was examined before does not lead to the new node
    have htarget' : target ∈ s.stack := by
      refine (List.mem_cons.mp htarget).resolve_left ?_
      rintro rfl
      exact h.seen other (hstack other hold) target hin hpending hnew
    rw [hindex (hpath hp'), hindex hold] at hle
    obtain ⟨q, hq, hpq, hshown⟩ := h.shown p hp' other hold hle target hin hpending htarget'
    refine ⟨q, List.mem_cons_of_mem _ hq, ?_, ?_⟩
    · rwa [hindex (hpath hp'), hindex (hpath hq)]
    · rwa [hlow (hpath hq), hindex htarget']

/-- The link of a node being walked is lowered to the index of a node on the stack it reaches. -/
theorem Search.LowLinks.relax {s : Search V} (h : s.LowLinks neighbors pending) {inner other : V}
    (hinner : inner ∈ s.path) (hother : other ∈ s.stack) (hreach : Reaches neighbors inner other) :
    (s.relax inner (s.index other)).LowLinks neighbors pending := by
  have hself : (s.relax inner (s.index other)).low inner = min (s.low inner) (s.index other) :=
    Function.update_self ..
  have hkept : ∀ {node}, node ≠ inner → (s.relax inner (s.index other)).low node = s.low node :=
    fun hne => Function.update_of_ne hne ..
  refine ⟨h.numbered, h.sorted, h.seen, h.above, ?_, ?_, ?_⟩
  · intro node hnode
    by_cases hsame : node = inner
    · subst hsame
      rw [hself]
      rcases Nat.le_total (s.low node) (s.index other) with hle | hle
      · rw [Nat.min_eq_left hle]
        exact h.reached node hnode
      · rw [Nat.min_eq_right hle]
        exact ⟨other, hother, rfl, hreach⟩
    · rw [hkept hsame]
      exact h.reached node hnode
  · intro node hnode hnot
    have hne : node ≠ inner := fun hsame => hnot (hsame ▸ hinner)
    rw [hkept hne]
    exact h.left node hnode hnot
  · intro p hp node hnode hle target hin hnot htarget
    obtain ⟨q, hq, hpq, hshown⟩ := h.shown p hp node hnode hle target hin hnot htarget
    refine ⟨q, hq, hpq, Nat.le_trans ?_ hshown⟩
    by_cases hsame : q = inner
    · rw [hsame, hself]
      exact Nat.min_le_left ..
    · exact Nat.le_of_eq (hkept hsame)

/-- The node above a walked node is the innermost one, so the frames are below it. -/
theorem Search.LowLinks.below {s : Search V} (h : s.LowLinks neighbors pending)
    (hordered : s.path.Sublist s.stack) {node : V} {path : List V} (hpath : s.path = node :: path) :
    ∀ p ∈ path, s.index p < s.index node :=
  (List.pairwise_cons.mp (hpath ▸ h.sorted.sublist hordered)).1

/-- What a walked node shows is shown by its parent once the parent's link is not above its own. -/
theorem Search.LowLinks.shown_left {s : Search V} (h : s.LowLinks neighbors pending)
    (hordered : s.path.Sublist s.stack) {node : V} {path : List V} (hpath : s.path = node :: path)
    (hparent : ∀ parent, path.head? = some parent → s.low parent ≤ s.low node) :
    ∀ p ∈ path, ∀ other ∈ s.stack, s.index p ≤ s.index other → ∀ target ∈ neighbors other,
      ¬ pending other target → target ∈ s.stack →
        ∃ q ∈ path, s.index p ≤ s.index q ∧ s.low q ≤ s.index target := by
  intro p hp other hother hle target hin hnot htarget
  obtain ⟨q, hq, hpq, hshown⟩ := h.shown p (hpath ▸ List.mem_cons_of_mem _ hp) other hother hle
    target hin hnot htarget
  rcases List.mem_cons.mp (hpath ▸ hq) with rfl | hq
  · cases path with
    | nil => cases hp
    | cons parent path =>
        refine ⟨parent, List.mem_cons_self .., ?_, Nat.le_trans (hparent parent rfl) hshown⟩
        rcases List.mem_cons.mp hp with rfl | hp
        · exact Nat.le_refl _
        · have hsorted := h.sorted.sublist hordered
          rw [hpath] at hsorted
          have hframes := (List.pairwise_cons.mp hsorted).2
          exact Nat.le_of_lt ((List.pairwise_cons.mp hframes).1 p hp)
  · exact ⟨q, hq, hpq, hshown⟩

/-- A node is left that reaches further down: it stays on the stack. -/
theorem Search.LowLinks.stay {s : Search V} (h : s.LowLinks neighbors pending)
    (hordered : s.path.Sublist s.stack) {node : V} {frames : List (V × List V)}
    (hpath : s.path = node :: frames.map Prod.fst) (hlow : s.low node < s.index node)
    (hparent : ∀ parent, (frames.map Prod.fst).head? = some parent → s.low parent ≤ s.low node) :
    ({ s with work := frames } : Search V).LowLinks neighbors pending := by
  have hsub : ∀ p ∈ frames.map Prod.fst, p ∈ s.path :=
    fun p hp => hpath ▸ List.mem_cons_of_mem _ hp
  refine ⟨h.numbered, h.sorted, h.seen, fun p hp => h.above p (hsub p hp), h.reached, ?_,
    h.shown_left hordered hpath hparent⟩
  intro other hother hnot
  by_cases hsame : other = node
  · rw [hsame]
    exact hlow
  · refine h.left other hother fun hin => ?_
    rw [hpath] at hin
    exact hnot ((List.mem_cons.mp hin).resolve_left hsame)

/-- The stack is cut at a node: above it are the larger indices, below it the smaller ones. -/
theorem Search.LowLinks.cut {s : Search V} (h : s.LowLinks neighbors pending) {node : V}
    (hnode : node ∈ s.stack) :
    (∀ other, other ∈ s.stack.takeWhile (· ≠ node) ++ [node] ↔
        other ∈ s.stack ∧ s.index node ≤ s.index other) ∧
      ∀ other, other ∈ (s.stack.dropWhile (· ≠ node)).tail ↔
        other ∈ s.stack ∧ s.index other < s.index node := by
  have hsorted := h.sorted
  obtain ⟨front, back, hstack⟩ := List.append_of_mem hnode
  rw [hstack] at hsorted ⊢
  obtain ⟨-, hback, hfront⟩ := List.pairwise_append.mp hsorted
  have hbelow : ∀ other ∈ back, s.index other < s.index node := (List.pairwise_cons.mp hback).1
  have habove : ∀ other ∈ front, s.index node < s.index other :=
    fun other hin => hfront other hin node (List.mem_cons_self ..)
  have hnot : ∀ other ∈ front, decide (other ≠ node) = true := by
    intro other hin
    refine decide_eq_true fun hsame => ?_
    exact Nat.lt_irrefl _ (hsame ▸ habove other hin)
  rw [List.takeWhile_append_of_pos hnot, List.dropWhile_append_of_pos hnot,
    List.takeWhile_cons_of_neg (by simp), List.dropWhile_cons_of_neg (by simp), List.tail_cons,
    List.append_nil]
  constructor
  · intro other
    simp only [List.mem_append, List.mem_cons, List.not_mem_nil, or_false]
    constructor
    · rintro (hin | rfl)
      · exact ⟨Or.inl hin, Nat.le_of_lt (habove other hin)⟩
      · exact ⟨Or.inr (Or.inl rfl), Nat.le_refl _⟩
    · rintro ⟨hin | rfl | hin, hle⟩
      · exact Or.inl hin
      · exact Or.inr rfl
      · exact absurd (hbelow other hin) (Nat.not_lt.mpr hle)
  · intro other
    simp only [List.mem_append, List.mem_cons]
    constructor
    · exact fun hin => ⟨Or.inr (Or.inr hin), hbelow other hin⟩
    · rintro ⟨hin | rfl | hin, hlt⟩
      · exact absurd (habove other hin) (Nat.lt_asymm hlt)
      · exact absurd hlt (Nat.lt_irrefl _)
      · exact hin

/-- A node is left and closed: what was above it leaves the stack with it. -/
theorem Search.LowLinks.close {s : Search V} (h : s.LowLinks neighbors pending)
    (hordered : s.path.Sublist s.stack) (hlinks : ∀ p ∈ s.path, s.low p ≤ s.index p) {node : V}
    {frames : List (V × List V)} (hpath : s.path = node :: frames.map Prod.fst)
    (hparent : ∀ parent, (frames.map Prod.fst).head? = some parent → s.low parent ≤ s.low node) :
    ({ s.close node with work := frames } : Search V).LowLinks neighbors pending := by
  have hnode : node ∈ s.stack := hordered.subset (hpath ▸ List.mem_cons_self ..)
  have hmem := (h.cut hnode).2
  have hsub : ∀ p ∈ frames.map Prod.fst, p ∈ s.path :=
    fun p hp => hpath ▸ List.mem_cons_of_mem _ hp
  refine ⟨?_, ?_, h.seen, ?_, ?_, ?_, ?_⟩
  · exact fun other hother => h.numbered other ((hmem other).mp hother).1
  · exact h.sorted.sublist (tail_dropWhile_suffix node s.stack).sublist
  · exact fun p hp other hother => h.above p (hsub p hp) other ((hmem other).mp hother).1
  · intro other hother
    obtain ⟨hin, hlt⟩ := (hmem other).mp hother
    obtain ⟨target, htarget, hsame, hreach⟩ := h.reached other hin
    have hle : s.low other ≤ s.index other := by
      by_cases hp : other ∈ s.path
      · exact hlinks other hp
      · exact Nat.le_of_lt (h.left other hin hp)
    refine ⟨target, (hmem target).mpr ⟨htarget, ?_⟩, hsame, hreach⟩
    rw [hsame]
    exact Nat.lt_of_le_of_lt hle hlt
  · intro other hother hnot
    obtain ⟨hin, hlt⟩ := (hmem other).mp hother
    refine h.left other hin fun hp => ?_
    rw [hpath] at hp
    rcases List.mem_cons.mp hp with rfl | hp
    · exact Nat.lt_irrefl _ hlt
    · exact hnot hp
  · intro p hp other hother hle target hin hnot htarget
    exact h.shown_left hordered hpath hparent p hp other ((hmem other).mp hother).1 hle target hin
      hnot ((hmem target).mp htarget).1

/-! ## What is closed -/

omit [DecidableEq V] in
theorem Search.Parts.congr {s t : Search V} {roots : List V} (h : s.Parts neighbors roots)
    (hindex : t.indexOf = s.indexOf) (hfound : t.found = s.found) (hstack : t.stack = s.stack) :
    t.Parts neighbors roots := by
  refine ⟨?_, ?_, hfound ▸ h.distinct, hfound ▸ h.closed, hfound ▸ h.strong⟩
  · rw [hindex]
    exact h.grounded
  · rw [hindex, hfound, hstack]
    exact h.apart

/-- From the nodes above a node whose link is its own, no edge leads further down the stack. -/
theorem Search.mem_above {s : Search V} (h : s.LowLinks neighbors s.Pending)
    (hordered : s.path.Sublist s.stack) {roots : List V} (hparts : s.Parts neighbors roots)
    (hstack : ∀ other ∈ s.stack, s.indexOf other ≠ none)
    (haccounted : ∀ other, s.indexOf other ≠ none → other ∈ s.stack ∨ other ∈ s.found.flatten)
    {node : V} {frames : List (V × List V)} (hwork : s.work = (node, []) :: frames)
    (hself : s.low node = s.index node) {other target : V}
    (hother : other ∈ s.stack ∧ s.index node ≤ s.index other)
    (hreach : Reaches neighbors other target) :
    (target ∈ s.stack ∧ s.index node ≤ s.index target) ∨ target ∈ s.found.flatten := by
  have hpath : s.path = node :: frames.map Prod.fst := by
    rw [path, hwork]
    rfl
  have hbelow := h.below hordered hpath
  induction hreach with
  | refl => exact Or.inl hother
  | @tail last target _ hedge ih =>
      rcases ih with ⟨hlast, hle⟩ | hlast
      · have hexamined : ¬ s.Pending last target := by
          rintro ⟨frame, hframe, hsame, hpending⟩
          rcases List.mem_cons.mp (hwork ▸ hframe) with rfl | hframe
          · cases hpending
          · have hlt := hbelow frame.1 (List.mem_map_of_mem hframe)
            rw [hsame] at hlt
            exact Nat.lt_irrefl _ (Nat.lt_of_lt_of_le hlt hle)
        rcases haccounted target (h.seen last (hstack last hlast) target hedge hexamined) with
          hin | hin
        · obtain ⟨q, hq, hnode, hshown⟩ := h.shown node (hpath ▸ List.mem_cons_self ..) last hlast
            hle target hedge hexamined hin
          rcases List.mem_cons.mp (hpath ▸ hq) with rfl | hq
          · exact Or.inl ⟨hin, hself ▸ hshown⟩
          · exact absurd (hbelow q hq) (Nat.not_lt.mpr hnode)
        · exact Or.inr hin
      · exact Or.inr (hparts.closed last hlast hedge)

omit [DecidableEq V] in
/-- A component that is closed is left by no path. -/
theorem Search.Parts.reaches {s : Search V} {roots : List V} (h : s.Parts neighbors roots)
    {node other : V} (hnode : node ∈ s.found.flatten) (hreach : Reaches neighbors node other) :
    other ∈ s.found.flatten := by
  induction hreach with
  | refl => exact hnode
  | tail _ hedge ih => exact h.closed _ ih hedge

/-- What is closed with a node is all that it reaches and that reaches it. -/
theorem Search.mem_close_iff {s : Search V} (h : s.LowLinks neighbors s.Pending)
    (hordered : s.path.Sublist s.stack) {roots : List V} (hparts : s.Parts neighbors roots)
    (hstack : ∀ other ∈ s.stack, s.indexOf other ≠ none)
    (haccounted : ∀ other, s.indexOf other ≠ none → other ∈ s.stack ∨ other ∈ s.found.flatten)
    {node : V} {frames : List (V × List V)} (hwork : s.work = (node, []) :: frames)
    (hself : s.low node = s.index node) {other : V} :
    other ∈ s.stack ∧ s.index node ≤ s.index other ↔
      Reaches neighbors node other ∧ Reaches neighbors other node := by
  have hpath : s.path = node :: frames.map Prod.fst := by
    rw [path, hwork]
    rfl
  have hin : node ∈ s.path := hpath ▸ List.mem_cons_self ..
  have hnode : node ∈ s.stack := hordered.subset hin
  have habove : ∀ {other target}, other ∈ s.stack ∧ s.index node ≤ s.index other →
      Reaches neighbors other target →
        (target ∈ s.stack ∧ s.index node ≤ s.index target) ∨ target ∈ s.found.flatten :=
    fun hother hreach =>
      mem_above h hordered hparts hstack haccounted hwork hself hother hreach
  -- by induction on the index: a node above reaches one further down, until the node itself
  have hback : ∀ (n : Nat) (other : V), s.index other = n → other ∈ s.stack →
      s.index node ≤ s.index other → Reaches neighbors other node := by
    intro n
    induction n using Nat.strongRecOn with
    | _ n ih =>
        intro other hn hother hle
        by_cases hsame : other = node
        · rw [hsame]
          exact Relation.ReflTransGen.refl
        · have hnot : other ∉ s.path := by
            intro hp
            rcases List.mem_cons.mp (hpath ▸ hp) with hnode' | hp
            · exact hsame hnode'
            · exact absurd (h.below hordered hpath other hp) (Nat.not_lt.mpr hle)
          obtain ⟨target, htarget, hlow, hreach⟩ := h.reached other hother
          have hlt := h.left other hother hnot
          rcases habove ⟨hother, hle⟩ hreach with ⟨-, hle'⟩ | hfound
          · exact hreach.trans (ih (s.index target) (by omega) target rfl htarget hle')
          · exact absurd htarget (hparts.apart target hfound).2
  constructor
  · rintro ⟨hother, hle⟩
    exact ⟨h.above node hin other hother hle, hback _ other rfl hother hle⟩
  · rintro ⟨hto, hfrom⟩
    refine (habove ⟨hnode, Nat.le_refl _⟩ hto).resolve_right fun hfound => ?_
    exact absurd hnode (hparts.apart node (hparts.reaches hfound hfrom)).2

/-- The components stay right when one more is closed. -/
theorem Search.Parts.close {s : Search V} (h : s.LowLinks neighbors s.Pending)
    (hordered : s.path.Sublist s.stack) {roots : List V} (hparts : s.Parts neighbors roots)
    (hstack : ∀ other ∈ s.stack, s.indexOf other ≠ none)
    (haccounted : ∀ other, s.indexOf other ≠ none → other ∈ s.stack ∨ other ∈ s.found.flatten)
    {node : V} {frames : List (V × List V)} (hwork : s.work = (node, []) :: frames)
    (hself : s.low node = s.index node) : (s.close node).Parts neighbors roots := by
  have hpath : s.path = node :: frames.map Prod.fst := by
    rw [path, hwork]
    rfl
  have hnode : node ∈ s.stack := hordered.subset (hpath ▸ List.mem_cons_self ..)
  obtain ⟨hclosed, hkept⟩ := h.cut hnode
  have hmutual : ∀ other, other ∈ s.stack.takeWhile (· ≠ node) ++ [node] ↔
      Reaches neighbors node other ∧ Reaches neighbors other node := fun other =>
    (hclosed other).trans (mem_close_iff h hordered hparts hstack haccounted hwork hself)
  have hflatten : (s.close node).found.flatten =
      s.found.flatten ++ (s.stack.takeWhile (· ≠ node) ++ [node]) := by
    rw [Search.close, List.flatten_append, List.flatten_singleton]
  refine ⟨hparts.grounded, ?_, ?_, ?_, ?_⟩
  · intro other hother
    rw [hflatten] at hother
    rcases List.mem_append.mp hother with hin | hin
    · obtain ⟨hseen, hnot⟩ := hparts.apart other hin
      exact ⟨hseen, fun hstay => hnot ((hkept other).mp hstay).1⟩
    · obtain ⟨hold, hle⟩ := (hclosed other).mp hin
      exact ⟨hstack other hold, fun hstay => Nat.not_lt.mpr hle ((hkept other).mp hstay).2⟩
  · have hnodup : (s.stack.takeWhile (· ≠ node) ++ [node]).Nodup := by
      refine List.nodup_append.mpr ⟨?_, List.nodup_singleton _, ?_⟩
      · have hstack' : s.stack.Nodup := h.sorted.imp fun hlt hsame => by
          rw [hsame] at hlt
          exact Nat.lt_irrefl _ hlt
        exact hstack'.sublist (List.takeWhile_sublist _)
      · rintro a ha b hb rfl
        have hne := List.mem_takeWhile_imp ha
        exact (of_decide_eq_true hne) (List.mem_singleton.mp hb)
    rw [hflatten]
    refine List.nodup_append.mpr ⟨hparts.distinct, hnodup, ?_⟩
    rintro a ha b hb rfl
    exact (hparts.apart a ha).2 ((hclosed a).mp hb).1
  · intro other hother target htarget
    rw [hflatten] at hother ⊢
    rcases List.mem_append.mp hother with hin | hin
    · exact List.mem_append_left _ (hparts.closed other hin htarget)
    · rcases mem_above h hordered hparts hstack haccounted hwork hself ((hclosed other).mp hin)
        (Relation.ReflTransGen.single htarget) with hin | hin
      · exact List.mem_append_right _ ((hclosed target).mpr hin)
      · exact List.mem_append_left _ hin
  · intro component hcomponent
    rcases List.mem_append.mp hcomponent with hin | hin
    · exact hparts.strong component hin
    · rw [List.mem_singleton.mp hin]
      refine ⟨List.append_ne_nil_of_right_ne_nil _ (List.cons_ne_nil _ _), ?_⟩
      intro other hother target
      obtain ⟨hto, hback⟩ := (hmutual other).mp hother
      rw [hmutual target]
      constructor
      · exact fun h => ⟨hback.trans h.1, h.2.trans hto⟩
      · exact fun h => ⟨hto.trans h.1, h.2.trans hback⟩

/-- A new node belongs to no component that is closed. -/
theorem Search.Parts.visit {s : Search V} {roots : List V} (h : s.Parts neighbors roots) {node : V}
    (hnew : s.indexOf node = none) (hroot : ∃ root ∈ roots, Reaches neighbors root node) :
    (s.visit neighbors node).Parts neighbors roots := by
  refine ⟨?_, ?_, h.distinct, h.closed, h.strong⟩
  · intro other hother
    by_cases hsame : other = node
    · rw [hsame]
      exact hroot
    · rw [visit_indexOf_of_ne s hsame] at hother
      exact h.grounded other hother
  · intro other hother
    obtain ⟨hseen, hnot⟩ := h.apart other hother
    have hne : other ≠ node := fun hsame => hseen (hsame ▸ hnew)
    rw [visit_indexOf_of_ne s hne]
    exact ⟨hseen, fun hin => (List.mem_cons.mp hin).elim hne hnot⟩

/-! ## The walk keeps both -/

/-- The links and the components are right. -/
structure Search.Exact (neighbors : V → List V) (roots : List V) (s : Search V) : Prop where
  links : s.LowLinks neighbors s.Pending
  parts : s.Parts neighbors roots
  framed : ∀ frame ∈ s.work, frame.2 ⊆ neighbors frame.1

variable {root : V} {base : Nat} {roots : List V}

omit [DecidableEq V] in
theorem Search.Sound.index_eq_some {s : Search V} (h : s.Sound root base) {node : V}
    (hnode : node ∈ s.stack) : s.indexOf node = some (s.index node) := by
  obtain ⟨index, hindex, -⟩ := h.stacked node hnode
  rw [hindex, index_of_seen hindex]

/-- The innermost node is left, once its link is passed on to its parent. -/
theorem Search.Exact.left {s : Search V} (h : s.Exact neighbors roots) (hsound : s.Sound root base)
    {node : V} {frames : List (V × List V)} (hwork : s.work = (node, []) :: frames)
    (hparent : ∀ parent, (frames.map Prod.fst).head? = some parent → s.low parent ≤ s.low node) :
    ({ (if s.indexOf node = some (s.low node) then s.close node else s) with work := frames } :
      Search V).Exact neighbors roots := by
  have hpath : s.path = node :: frames.map Prod.fst := by
    rw [path, hwork]
    rfl
  have hnode : node ∈ s.stack := hsound.ordered.subset (hpath ▸ List.mem_cons_self ..)
  have hlinks : ∀ p ∈ s.path, s.low p ≤ s.index p := by
    intro p hp
    obtain ⟨index, hindex, -, hle⟩ := hsound.links p hp
    rwa [index_of_seen hindex]
  have hstack : ∀ other ∈ s.stack, s.indexOf other ≠ none := fun other hother => by
    rw [hsound.index_eq_some hother]
    exact Option.some_ne_none _
  have hpending : ∀ other target, s.Pending other target →
      ∃ frame ∈ frames, frame.1 = other ∧ target ∈ frame.2 := by
    rintro other target ⟨frame, hframe, hsame, hin⟩
    rcases List.mem_cons.mp (hwork ▸ hframe) with rfl | hframe
    · cases hin
    · exact ⟨frame, hframe, hsame, hin⟩
  have hframed : ∀ frame ∈ frames, frame.2 ⊆ neighbors frame.1 :=
    fun frame hframe => h.framed frame (hwork ▸ List.mem_cons_of_mem _ hframe)
  split_ifs with hself
  · rw [hsound.index_eq_some hnode, Option.some.injEq] at hself
    have hparts := h.parts.close h.links hsound.ordered hstack hsound.accounted hwork hself.symm
    exact ⟨(h.links.close hsound.ordered hlinks hpath hparent).weaken fun other target _ =>
      hpending other target, hparts.congr rfl rfl rfl, hframed⟩
  · have hlow : s.low node < s.index node := by
      refine lt_of_le_of_ne (hlinks node (hpath ▸ List.mem_cons_self ..)) fun hsame => hself ?_
      rw [hsame]
      exact hsound.index_eq_some hnode
    exact ⟨(h.links.stay hsound.ordered hpath hlow hparent).weaken fun other target _ =>
      hpending other target, h.parts.congr rfl rfl rfl, hframed⟩

theorem Search.Exact.leave {s : Search V} (h : s.Exact neighbors roots) (hsound : s.Sound root base)
    {node : V} {frames : List (V × List V)} (hwork : s.work = (node, []) :: frames) :
    (s.leave node frames).Exact neighbors roots := by
  cases frames with
  | nil =>
      have hleft := h.left hsound hwork fun parent hparent => by cases hparent
      exact hleft
  | cons frame frames =>
      have hpath : s.path = node :: frame.1 :: frames.map Prod.fst := by
        rw [path, hwork]
        rfl
      have hparent : frame.1 ∈ s.path := hpath ▸ List.mem_cons_of_mem _ (List.mem_cons_self ..)
      have hnode : node ∈ s.path := hpath ▸ List.mem_cons_self ..
      have hlt : s.index frame.1 < s.index node :=
        h.links.below hsound.ordered hpath frame.1 (List.mem_cons_self ..)
      have hne : node ≠ frame.1 := fun hsame => Nat.lt_irrefl _ (hsame ▸ hlt)
      obtain ⟨target, htarget, hlow, hreach⟩ := h.links.reached node (hsound.ordered.subset hnode)
      have hto : Reaches neighbors frame.1 target :=
        (h.links.above frame.1 hparent node (hsound.ordered.subset hnode)
          (Nat.le_of_lt hlt)).trans hreach
      obtain ⟨-, -, hbase, -⟩ := hsound.links node hnode
      have hrelaxed : (s.relax frame.1 (s.low node)).Exact neighbors roots :=
        ⟨hlow ▸ h.links.relax hparent htarget hto, h.parts.congr rfl rfl rfl, h.framed⟩
      have hkept : (s.relax frame.1 (s.low node)).low node = s.low node :=
        Function.update_of_ne hne ..
      have hleft := hrelaxed.left (hsound.relax frame.1 hbase) hwork fun parent hhead => by
        obtain rfl : frame.1 = parent := Option.some.inj hhead
        rw [hkept]
        exact (Nat.le_of_eq (Function.update_self ..)).trans (Nat.min_le_right ..)
      have hsame : s.leave node (frame :: frames) =
          { (if (s.relax frame.1 (s.low node)).indexOf node =
              some ((s.relax frame.1 (s.low node)).low node)
            then (s.relax frame.1 (s.low node)).close node
            else s.relax frame.1 (s.low node)) with work := frame :: frames } := by
        have hcond : (s.relax frame.1 (s.low node)).indexOf = s.indexOf := rfl
        rw [hkept, hcond, Search.leave]
        by_cases hself : s.indexOf node = some (s.low node)
        · rw [if_pos hself, if_pos hself]
          rfl
        · rw [if_neg hself, if_neg hself]
          rfl
      rw [hsame]
      exact hleft

/-- A neighbor is seen for the first time, from the innermost node. -/
theorem Search.LowLinks.see_new {s : Search V} {node neighbor : V}
    (h : s.LowLinks neighbors fun other target =>
      s.Pending other target ∨ other = node ∧ target = neighbor)
    (hordered : s.path.Sublist s.stack) (hstack : ∀ other ∈ s.stack, s.indexOf other ≠ none)
    (hnode : node ∈ s.path) (hlow : s.low node ≤ s.index node)
    (hreach : ∀ p ∈ s.path, Reaches neighbors p neighbor) (hnew : s.indexOf neighbor = none) :
    (s.visit neighbors neighbor).LowLinks neighbors (s.visit neighbors neighbor).Pending := by
  have hne : node ≠ neighbor := by
    rintro rfl
    exact hstack node (hordered.subset hnode) hnew
  have hvisited := h.visit hnew hstack hordered.subset hreach
  have hweak : (s.visit neighbors neighbor).LowLinks neighbors fun other target =>
      (s.visit neighbors neighbor).Pending other target ∨ other = node ∧ target = neighbor := by
    refine hvisited.weaken fun other target hin hold => ?_
    rcases hold with (⟨frame, hframe, hsame⟩ | hedge) | rfl
    · exact Or.inl ⟨frame, List.mem_cons_of_mem _ hframe, hsame⟩
    · exact Or.inr hedge
    · exact Or.inl ⟨(other, neighbors other), List.mem_cons_self .., rfl, hin⟩
  refine hweak.discharge (List.mem_cons_of_mem _ hnode) ?_ fun _ => ?_
  · rw [visit_indexOf_self]
    exact Option.some_ne_none _
  · rw [visit_low_of_ne s hne, visit_index_self]
    exact hlow.trans (Nat.le_of_lt (h.numbered node (hordered.subset hnode)))

theorem Search.Exact.step {s : Search V} (h : s.Exact neighbors roots)
    (hsound : s.Sound root base) : (s.step neighbors).Exact neighbors roots := by
  match hframes : s.work with
  | [] =>
      rw [Search.step, hframes]
      exact h
  | (node, []) :: frames =>
      rw [Search.step, hframes]
      exact h.leave hsound hframes
  | (node, neighbor :: rest) :: frames =>
      set advanced : Search V := { s with work := (node, rest) :: frames } with hadvanced
      have hpath : advanced.path = s.path := by
        rw [path, path, hframes]
        rfl
      have hnode : node ∈ advanced.path := List.mem_cons_self ..
      have hpending : ∀ other target, s.Pending other target →
          advanced.Pending other target ∨ other = node ∧ target = neighbor := by
        rintro other target ⟨frame, hframe, rfl, hin⟩
        rcases List.mem_cons.mp (hframes ▸ hframe) with rfl | hframe
        · rcases List.mem_cons.mp hin with rfl | hin
          · exact Or.inr ⟨rfl, rfl⟩
          · exact Or.inl ⟨(node, rest), List.mem_cons_self .., rfl, hin⟩
        · exact Or.inl ⟨frame, List.mem_cons_of_mem _ hframe, rfl, hin⟩
      have hlinks : advanced.LowLinks neighbors _ :=
        (h.links.weaken fun other target _ => hpending other target).advance hpath
      have hparts : advanced.Parts neighbors roots := h.parts.congr rfl rfl rfl
      have hordered : advanced.path.Sublist advanced.stack := hpath ▸ hsound.ordered
      have hin : node ∈ advanced.stack := hordered.subset hnode
      have hseen : ∀ other ∈ advanced.stack, advanced.indexOf other ≠ none := fun other hother => by
        have hindex : advanced.indexOf other = some (advanced.index other) :=
          hsound.index_eq_some hother
        rw [hindex]
        exact Option.some_ne_none _
      have hinner := h.framed (node, neighbor :: rest) (hframes ▸ List.mem_cons_self ..)
      have hneighbor : neighbor ∈ neighbors node := hinner (List.mem_cons_self ..)
      have hframed : ∀ frame ∈ advanced.work, frame.2 ⊆ neighbors frame.1 := by
        intro frame hframe
        rcases List.mem_cons.mp hframe with rfl | hframe
        · exact fun other hother => hinner (List.mem_cons_of_mem _ hother)
        · exact h.framed frame (hframes ▸ List.mem_cons_of_mem _ hframe)
      have hedge : Reaches neighbors node neighbor := Relation.ReflTransGen.single hneighbor
      have hstep : s.step neighbors = advanced.see neighbors node neighbor := by
        rw [Search.step, hframes]
      rw [hstep, see]
      split
      · next hnew =>
        refine ⟨hlinks.see_new hordered hseen hnode ?_ ?_ hnew, hparts.visit hnew ?_, ?_⟩
        · obtain ⟨index, hindex, -, hle⟩ := hsound.links node (hpath ▸ hnode)
          have hsame : advanced.index node = index := index_of_seen hindex
          rw [hsame]
          exact hle
        · intro p hp
          refine (hlinks.above p hp node hin ?_).trans hedge
          rcases List.mem_cons.mp hp with rfl | hp
          · exact Nat.le_refl _
          · exact Nat.le_of_lt (hlinks.below hordered rfl p hp)
        · obtain ⟨root, hroot, hreach⟩ := hparts.grounded node (hseen node hin)
          exact ⟨root, hroot, hreach.trans hedge⟩
        · intro frame hframe
          rcases List.mem_cons.mp hframe with rfl | hframe
          · exact List.Subset.refl _
          · exact hframed frame hframe
      · next index hindex =>
        have hknown : advanced.indexOf neighbor ≠ none := by
          rw [hindex]
          exact Option.some_ne_none _
        split_ifs with hstack
        · have hsame : advanced.index neighbor = index := index_of_seen hindex
          have hrelaxed := hlinks.relax hnode hstack hedge
          rw [hsame] at hrelaxed
          refine ⟨hrelaxed.discharge hnode hknown fun _ => ?_, hparts.congr rfl rfl rfl, hframed⟩
          have hlow : (advanced.relax node index).low node = min (advanced.low node) index :=
            Function.update_self ..
          rw [hlow]
          exact (Nat.min_le_right ..).trans (Nat.le_of_eq hsame.symm)
        · exact ⟨hlinks.discharge hnode hknown fun hold => absurd hold hstack, hparts, hframed⟩

theorem Search.Exact.run {s : Search V} (h : s.Exact neighbors roots) (hsound : s.Sound root base)
    (fuel : Nat) : (s.run neighbors fuel).Exact neighbors roots := by
  induction fuel generalizing s with
  | zero => exact h
  | succ fuel ih =>
      rw [Search.run]
      split_ifs
      · exact h
      · exact ih (h.step hsound) hsound.step

/-- A walk starts with nothing on the stack. -/
theorem Search.Parts.start {s : Search V} (h : s.Parts neighbors roots) (hsettled : s.Settled)
    (hwork : s.work = []) {node : V} (hnew : s.indexOf node = none) (hroot : node ∈ roots) :
    (s.visit neighbors node).Exact neighbors roots := by
  have hpath : s.path = [] := by
    rw [path, hwork]
    rfl
  have hlinks : s.LowLinks neighbors s.Pending := by
    refine ⟨?_, ?_, ?_, ?_, ?_, ?_, ?_⟩
    · rw [hsettled.stack]
      exact List.forall_mem_nil _
    · rw [hsettled.stack]
      exact List.Pairwise.nil
    · intro other hother target htarget _
      exact (h.apart target (h.closed other (hsettled.accounted other hother) htarget)).1
    · rw [hpath]
      exact List.forall_mem_nil _
    · rw [hsettled.stack]
      exact List.forall_mem_nil _
    · rw [hsettled.stack]
      exact List.forall_mem_nil _
    · rw [hpath]
      exact List.forall_mem_nil _
  have hvisited : (s.visit neighbors node).LowLinks neighbors _ :=
    hlinks.visit hnew (by rw [hsettled.stack]; exact List.forall_mem_nil _)
      (by rw [hpath]; exact List.nil_subset _) (by rw [hpath]; exact List.forall_mem_nil _)
  refine ⟨hvisited.weaken ?_, h.visit hnew ⟨node, hroot, Relation.ReflTransGen.refl⟩, ?_⟩
  · rintro other target hin (⟨frame, hframe, hsame⟩ | rfl)
    · exact ⟨frame, List.mem_cons_of_mem _ hframe, hsame⟩
    · exact ⟨(other, neighbors other), List.mem_cons_self .., rfl, hin⟩
  · intro frame hframe
    rw [Search.visit, hwork, List.mem_singleton] at hframe
    rw [hframe]
    exact List.Subset.refl _

theorem Search.Parts.walk {s : Search V} (h : s.Parts neighbors roots) (hsettled : s.Settled)
    (hwork : s.work = []) {node : V} (hroot : node ∈ roots) (fuel : Nat) :
    (s.root neighbors fuel node).Parts neighbors roots := by
  rw [Search.root]
  split_ifs with hseen
  · exact h
  · have hnew : s.indexOf node = none := by simpa using hseen
    exact ((h.start hsettled hwork hnew hroot).run
      (Sound.start hsettled.stack hwork hsettled.accounted hnew) fuel).parts

/-! ## The partition -/

/-- The components are the classes of mutual reachability among what the roots reach, each once. -/
structure Partition (neighbors : V → List V) (roots : List V) (components : List (List V)) :
    Prop where
  covers : ∀ node, node ∈ components.flatten ↔ ∃ root ∈ roots, Reaches neighbors root node
  /-- No node is in two components, or twice in one. -/
  distinct : components.flatten.Nodup
  nonempty : ∀ component ∈ components, component ≠ []
  strong : ∀ component ∈ components, ∀ node ∈ component, ∀ other,
    other ∈ component ↔ Reaches neighbors node other ∧ Reaches neighbors other node

/-- The depth-first search partitions what the roots reach. -/
theorem components_partition (hroots : ∀ node, neighbors node ≠ [] → node ∈ roots) :
    Partition neighbors roots (components neighbors roots) := by
  have hfold : ∀ (rest : List V) (s : Search V), rest ⊆ roots → s.work = [] → s.Settled →
      s.Parts neighbors roots →
      (rest.foldl (Search.root neighbors (cost neighbors (nodesOf neighbors roots))) s).Parts
        neighbors roots := by
    intro rest
    induction rest with
    | nil => exact fun s _ _ _ hparts => hparts
    | cons first rest ih =>
        intro s hsub hwork hsettled hparts
        obtain ⟨hfirst, hrest⟩ := List.cons_subset.mp hsub
        have hdone := root_done hroots hfirst hwork
        exact ih _ hrest hdone (hsettled.walk hwork hdone).1
          (hparts.walk hsettled hwork hfirst _)
  have hsettled : (Search.start : Search V).Settled := ⟨rfl, fun _ h => absurd rfl h⟩
  have hstart : (Search.start : Search V).Parts neighbors roots :=
    ⟨fun _ h => absurd rfl h, List.forall_mem_nil _, List.nodup_nil, List.forall_mem_nil _,
      List.forall_mem_nil _⟩
  have hparts : (search neighbors roots).Parts neighbors roots :=
    hfold roots Search.start (List.Subset.refl _) rfl hsettled hstart
  refine ⟨fun node => ⟨fun hin => hparts.grounded node (hparts.apart node hin).1, ?_⟩,
    hparts.distinct, fun component hin => (hparts.strong component hin).1,
    fun component hin => (hparts.strong component hin).2⟩
  rintro ⟨root, hroot, hreach⟩
  obtain ⟨component, hin, hmem⟩ := mem_components hroots hroot
  exact hparts.reaches (List.mem_flatten.mpr ⟨component, hin, hmem⟩) hreach

omit [DecidableEq V] in
/-- A component holds a directed cycle if and only if it has two nodes or a loop. -/
theorem Partition.cycle_iff {components : List (List V)}
    (h : Partition neighbors roots components) {component : List V} (hin : component ∈ components) :
    (∃ node ∈ component, Relation.TransGen (Adjacent neighbors) node node) ↔
      2 ≤ component.length ∨ ∃ node, component = [node] ∧ node ∈ neighbors node := by
  have hstrong := h.strong component hin
  constructor
  · rintro ⟨node, hnode, hcycle⟩
    obtain ⟨next, hedge, hback⟩ := Relation.TransGen.head'_iff.mp hcycle
    have hnext : next ∈ component :=
      (hstrong node hnode next).mpr ⟨Relation.ReflTransGen.single hedge, hback⟩
    match component, hnode, hnext with
    | [single], hnode, hnext =>
        rw [List.mem_singleton] at hnode hnext
        subst hnode hnext
        exact Or.inr ⟨next, rfl, hedge⟩
    | _ :: _ :: _, _, _ => exact Or.inl (by simp)
  · rintro (hmany | ⟨node, rfl, hloop⟩)
    · match component, hmany with
      | first :: second :: rest, _ =>
          have hfirst : first ∈ first :: second :: rest := List.mem_cons_self ..
          have hnodup := (List.nodup_flatten.mp h.distinct).1 _ hin
          have hne : second ≠ first := fun hsame =>
            (List.nodup_cons.mp hnodup).1 (hsame ▸ List.mem_cons_self ..)
          obtain ⟨hto, hback⟩ := (hstrong first hfirst second).mp (by simp)
          refine ⟨first, hfirst, ?_⟩
          rcases Relation.reflTransGen_iff_eq_or_transGen.mp hto with hsame | hto
          · exact absurd hsame hne
          · exact hto.trans_left hback
    · exact ⟨node, List.mem_singleton_self _, Relation.TransGen.single hloop⟩

end

end StrongComponents
end Foundation
