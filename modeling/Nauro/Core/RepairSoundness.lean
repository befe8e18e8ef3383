import Nauro.Core.DecisionReformat
import Nauro.Core.Repair

/-!
# What a repair leaves behind

The planner's refusals look at one child and one target; the findings of the doctor range over the
whole store. The record of the target is replaced by its superseded form: the edges stay the same,
and a new finding would need a second decision that supersedes the target, which is refused.

* `repair_keeps_findings` — the findings after the repair.
-/

namespace Nauro
namespace Core

open Foundation

variable {E : Type}

/-! ## Scans -/

/-- What holds of every scan of a store. -/
structure StoreScan.Sound (tables : UnicodeTables) (scan : StoreScan E) : Prop where
  sorted : scan.stems.Pairwise fun a b => stemLe tables a b = true
  distinct : scan.stems.Nodup
  inOrder : (scan.records.map ScannedDecision.stem).Sublist scan.stems
  /-- Every file is read or fails. -/
  read : ∀ stem ∈ scan.stems, (∃ r ∈ scan.records, r.stem = stem) ∨
    stem ∈ scan.failures.map ParseFailure.stem
  numbered : ∀ r ∈ scan.records,
    r.decision.num = (extractDecisionNumber tables r.stem).getD 0

/-- A parsed decision has the number of its file name. -/
theorem parseDecision_num {tables : UnicodeTables} {yaml : Yaml E} {text filename : Text}
    {d : Decision E} (h : parseDecision tables yaml text filename = .ok d) :
    d.num = (extractDecisionNumber tables filename).getD 0 := by
  obtain ⟨block, body, m, title, rationale, rejected, -, -, -, hmake⟩ := parseDecision_ok h
  rw [(fromMapping_ok hmake).2]

theorem Store.recordAt?_some {rt : Runtime E} {store : Store} {stem : Text}
    {r : ScannedDecision E} (h : store.recordAt? rt stem = some r) :
    r.stem = stem ∧ store.parseAt rt stem = some (.ok r.decision) := by
  unfold Store.recordAt? at h
  split at h
  · next d hd =>
      cases h
      exact ⟨rfl, hd⟩
  · cases h

theorem scanStore_sound {rt : Runtime E} (htables : rt.tables.Lawful) (store : Store) :
    (scanStore rt store).Sound rt.tables := by
  have hperm : (scanStore rt store).stems.Perm store.decisions.keys :=
    (List.perm_insertionSort _ _).trans (List.perm_insertionSort _ _)
  refine ⟨List.pairwise_insertionSort _ _, hperm.nodup_iff.mpr store.decisions.distinct, ?_, ?_,
    ?_⟩
  · change (((sortStemsByNumber rt.tables store.listDecisions).filterMap
      (store.recordAt? rt)).map _).Sublist (sortStemsByNumber rt.tables store.listDecisions)
    generalize sortStemsByNumber rt.tables store.listDecisions = stems
    induction stems with
    | nil => exact List.Sublist.slnil
    | cons stem stems ih =>
        cases hrecord : store.recordAt? rt stem with
        | none =>
            rw [List.filterMap_cons_none hrecord]
            exact ih.cons _
        | some r =>
            rw [List.filterMap_cons_some hrecord, List.map_cons, (Store.recordAt?_some hrecord).1]
            exact ih.cons_cons _
  · intro stem hstem
    have hkey : (store.decisions.get? stem).isSome :=
      (Table.mem_keys_iff ..).mp (hperm.subset hstem)
    obtain ⟨text, htext⟩ := Option.isSome_iff_exists.mp hkey
    have hparse : store.parseAt rt stem =
        some (parseDecision rt.tables rt.yaml (rt.readText text) (decisionFilename stem)) := by
      rw [Store.parseAt, Store.readDecision, htext]
      rfl
    cases hresult : parseDecision rt.tables rt.yaml (rt.readText text) (decisionFilename stem) with
    | ok d =>
        refine Or.inl ⟨⟨stem, d⟩, List.mem_filterMap.mpr ⟨stem, hstem, ?_⟩, rfl⟩
        rw [Store.recordAt?, hparse, hresult]
    | error error =>
        refine Or.inr (List.mem_map.mpr ⟨⟨stem, error⟩, List.mem_filterMap.mpr ⟨stem, hstem, ?_⟩,
          rfl⟩)
        rw [Store.failureAt?, hparse, hresult]
  · intro r hr
    obtain ⟨stem, -, hrecord⟩ := List.mem_filterMap.mp hr
    obtain ⟨rfl, hparse⟩ := Store.recordAt?_some hrecord
    obtain ⟨text, -, htext⟩ := Option.map_eq_some_iff.mp hparse
    rw [parseDecision_num htext, extractDecisionNumber_decisionFilename htables]

/-- A scan after the record of a plan's target is replaced by its superseded form. -/
def StoreScan.flip (scan : StoreScan E) (plan : RepairPlan) : StoreScan E :=
  { scan with
    records := scan.records.map fun r =>
      if r.stem = plan.targetStem then ⟨r.stem, markSuperseded r.decision plan.childNum⟩ else r }

/-! ## Cycles -/

/-- Sorted sets with the same members are the same. -/
theorem sortedSet_congr {a b : List Nat} (h : ∀ n, n ∈ a ↔ n ∈ b) :
    sortNumbers a.dedup = sortNumbers b.dedup := by
  have hperm : a.dedup.Perm b.dedup :=
    (List.perm_ext_iff_of_nodup (List.nodup_dedup a) (List.nodup_dedup b)).mpr fun n => by
      rw [List.mem_dedup, List.mem_dedup, h n]
  exact (((List.perm_insertionSort _ _).trans hperm).trans
    (List.perm_insertionSort _ _).symm).eq_of_pairwise' (List.pairwise_insertionSort _ _)
    (List.pairwise_insertionSort _ _)

/-- The cycles depend on the set of edges only. -/
theorem edgeCycles_congr {edges edges' : List (Nat × Nat)} (h : ∀ e, e ∈ edges ↔ e ∈ edges') :
    edgeCycles edges = edgeCycles edges' := by
  have hsources : edgeSources edges = edgeSources edges' := by
    refine sortedSet_congr fun n => ?_
    simp only [List.mem_map, h]
  have htargets : edgeTargets edges = edgeTargets edges' := by
    funext node
    refine sortedSet_congr fun n => ?_
    simp only [List.mem_map, List.mem_filter, h]
  have hmembers : cycleMembers edges = cycleMembers edges' := by
    funext component
    unfold cycleMembers
    rw [htargets]
  rw [edgeCycles, edgeCycles, hsources, htargets, hmembers]

theorem mem_edgeTargets {edges : List (Nat × Nat)} {a b : Nat} :
    b ∈ edgeTargets edges a ↔ (a, b) ∈ edges := by
  rw [edgeTargets, mem_sortNumbers, List.mem_dedup]
  simp only [List.mem_map, List.mem_filter, beq_iff_eq]
  constructor
  · rintro ⟨⟨x, y⟩, ⟨hin, rfl⟩, rfl⟩
    exact hin
  · exact fun hin => ⟨(a, b), ⟨hin, rfl⟩, rfl⟩

/-- A number that supersedes itself is in a cycle. -/
theorem mem_edgeCycles_of_self {edges : List (Nat × Nat)} {n : Nat} (h : (n, n) ∈ edges) :
    n ∈ (edgeCycles edges).flatten := by
  have hsources : ∀ {a b}, (a, b) ∈ edges → a ∈ edgeSources edges := by
    intro a b hin
    rw [edgeSources, mem_sortNumbers, List.mem_dedup]
    exact List.mem_map.mpr ⟨(a, b), hin, rfl⟩
  have hroots : ∀ node, edgeTargets edges node ≠ [] → node ∈ edgeSources edges := by
    intro node hne
    obtain ⟨b, hb⟩ := List.exists_mem_of_ne_nil _ hne
    exact hsources (mem_edgeTargets.mp hb)
  obtain ⟨component, hcomponent, hin⟩ := StrongComponents.mem_components hroots (hsources h)
  have hmembers : ∃ members, cycleMembers edges component = some members ∧ n ∈ members := by
    match component, hin with
    | [node], hin =>
        obtain rfl : n = node := List.mem_singleton.mp hin
        exact ⟨[n], if_pos (mem_edgeTargets.mpr h), hin⟩
    | first :: second :: rest, hin => exact ⟨_, rfl, mem_sortNumbers.mpr hin⟩
  obtain ⟨members, hmembers, hin⟩ := hmembers
  refine List.mem_flatten.mpr ⟨members, ?_, hin⟩
  rw [edgeCycles, mem_sortByKey]
  exact List.mem_filterMap.mpr ⟨component, hcomponent, hmembers⟩

/-! ## The findings after a repair -/

/-- What the planner's checks say about the decisions before and after a target, and about the
child. -/
structure Repairable (front : List (Decision E)) (target : Decision E) (back : List (Decision E))
    (numbers : List Nat) (child : Decision E) : Prop where
  first : ∀ d ∈ front, d.num ≠ target.num
  child_mem : child ∈ front ++ target :: back
  child_ne : child.num ≠ target.num
  supersedes : refNumber child.supersedes = some target.num
  child_number : child.num ∈ numbers
  active : target.status = .active
  unclaimed : target.supersededBy = none
  acyclic : target.num ∉ (supersessionCycles (front ++ target :: back)).flatten
  /-- No other number supersedes the target. -/
  only : ∀ d ∈ front ++ target :: back, refNumber d.supersedes = some target.num →
    d.num ≠ target.num → d.num = child.num

theorem refNumber_supersededBy_markSuperseded (d : Decision E) (n : Nat) :
    refNumber (markSuperseded d n).supersededBy = some n :=
  number?_toDigits n

section

variable {front back : List (Decision E)} {target : Decision E} {numbers : List Nat}
  {child : Decision E}

theorem mem_flipped (target : Decision E) {d flipped : Decision E} (hd : d ∈ front ++ flipped :: back) :
    d = flipped ∨ d ∈ front ++ target :: back := by
  simp only [List.mem_append, List.mem_cons] at hd ⊢
  tauto

/-- Another number is found where it was. -/
theorem byNum_flipped (replacement : Nat) {n : Nat} (hne : n ≠ target.num) :
    byNum (front ++ markSuperseded target replacement :: back) n =
      byNum (front ++ target :: back) n := by
  have htarget : (target.num == n) = false := beq_eq_false_iff_ne.mpr fun h => hne h.symm
  have hflipped : ((markSuperseded target replacement).num == n) = false := htarget
  simp [byNum, List.find?_append, htarget, hflipped]

/-- A decision is found when it is the first of its number. -/
theorem byNum_append_cons {d : Decision E} (hfirst : ∀ other ∈ front, other.num ≠ d.num) :
    byNum (front ++ d :: back) d.num = some d := by
  have hnone : front.find? (fun other => other.num == d.num) = none :=
    List.find?_eq_none.mpr fun other hother => by simpa using hfirst other hother
  simp [byNum, List.find?_append, hnone]

theorem byNum_flipped_target (hfirst : ∀ d ∈ front, d.num ≠ target.num) (replacement : Nat) :
    byNum (front ++ markSuperseded target replacement :: back) target.num =
      some (markSuperseded target replacement) :=
  byNum_append_cons hfirst

/-- The edge of the new backref is the edge of the child. -/
theorem Repairable.edges (h : Repairable front target back numbers child) (e : Nat × Nat) :
    e ∈ supersessionEdges (front ++ markSuperseded target child.num :: back) ↔
      e ∈ supersessionEdges (front ++ target :: back) := by
  have htarget : target.edges =
      ((refNumber target.supersedes).map fun older => (target.num, older)).toList := by
    rw [Decision.edges, h.unclaimed]
    exact List.append_nil _
  have hflipped : (markSuperseded target child.num).edges =
      target.edges ++ [(child.num, target.num)] := by
    rw [Decision.edges, refNumber_supersededBy_markSuperseded, htarget]
    rfl
  have hchild : (child.num, target.num) ∈ supersessionEdges (front ++ target :: back) := by
    refine List.mem_flatMap.mpr ⟨child, h.child_mem, List.mem_append_left _ ?_⟩
    rw [h.supersedes]
    exact List.mem_singleton_self _
  simp only [supersessionEdges, List.flatMap_append, List.flatMap_cons, hflipped, List.mem_append,
    List.mem_singleton] at hchild ⊢
  constructor
  · rintro (hfront | (hedge | rfl) | hback)
    · exact Or.inl hfront
    · exact Or.inr (Or.inl hedge)
    · exact hchild
    · exact Or.inr (Or.inr hback)
  · rintro (hfront | hedge | hback)
    · exact Or.inl hfront
    · exact Or.inr (Or.inl (Or.inl hedge))
    · exact Or.inr (Or.inr hback)

/-- A repair neither closes a cycle nor opens one. -/
theorem Repairable.cycles (h : Repairable front target back numbers child) :
    supersessionCycles (front ++ markSuperseded target child.num :: back) =
      supersessionCycles (front ++ target :: back) :=
  edgeCycles_congr h.edges

/-- The new backref names a decision that is there. -/
theorem Repairable.danglingRefs (h : Repairable front target back numbers child) :
    danglingRefs (front ++ markSuperseded target child.num :: back) numbers ⊆
      danglingRefs (front ++ target :: back) numbers := by
  intro row hrow
  simp only [Core.danglingRefs, mem_sortByKey, List.mem_flatMap] at hrow ⊢
  obtain ⟨d, hd, hrow⟩ := hrow
  rcases mem_flipped target hd with rfl | hold
  · refine ⟨target, by simp, ?_⟩
    obtain ⟨field, hfield, hdangling⟩ := List.mem_filterMap.mp hrow
    refine List.mem_filterMap.mpr ⟨field, hfield, ?_⟩
    cases field with
    | supersedes => exact hdangling
    | supersededBy =>
        -- the child has a file
        have hpresent : (refNumber (RefField.supersededBy.value
            (markSuperseded target child.num))) = some child.num :=
          refNumber_supersededBy_markSuperseded target child.num
        rw [hpresent, Option.bind_some, if_pos h.child_number] at hdangling
        cases hdangling
  · exact ⟨d, hold, hrow⟩

/-- No decision but the child forwards to the target. -/
theorem Repairable.forward (h : Repairable front target back numbers child) {d : Decision E}
    (hd : d ∈ front ++ target :: back) (href : refNumber d.supersedes = some target.num) :
    d.num = child.num := by
  refine h.only d hd href fun hself => h.acyclic ?_
  refine mem_edgeCycles_of_self (List.mem_flatMap.mpr ⟨d, hd, List.mem_append_left _ ?_⟩)
  rw [href, hself]
  exact List.mem_singleton_self _

theorem Repairable.forwardBackConflict (h : Repairable front target back numbers child)
    {d : Decision E} (hd : d ∈ front ++ target :: back) {row : StatusContradiction}
    (hrow : forwardBackConflict (front ++ markSuperseded target child.num :: back) numbers d =
      some row) : Core.forwardBackConflict (front ++ target :: back) numbers d = some row := by
  obtain ⟨older, found, claimed, href, hfound, hclaimed, hin, hne, rfl⟩ :=
    forwardBackConflict_eq_some_iff.mp hrow
  by_cases holder : older = target.num
  · subst holder
    rw [byNum_flipped_target h.first] at hfound
    obtain rfl := Option.some.inj hfound
    rw [refNumber_supersededBy_markSuperseded] at hclaimed
    obtain rfl := Option.some.inj hclaimed
    exact absurd (h.forward hd href).symm hne
  · rw [byNum_flipped child.num holder] at hfound
    exact forwardBackConflict_eq_some_iff.mpr
      ⟨older, found, claimed, href, hfound, hclaimed, hin, hne, rfl⟩

theorem Repairable.contradictions (h : Repairable front target back numbers child) :
    statusContradictions (front ++ markSuperseded target child.num :: back) numbers ⊆
      statusContradictions (front ++ target :: back) numbers := by
  intro row hrow
  simp only [statusContradictions, mem_sortByKey] at hrow ⊢
  obtain ⟨d, hd, hrow⟩ := List.mem_flatMap.mp hrow
  rcases mem_flipped target hd with rfl | hold
  · refine List.mem_flatMap.mpr ⟨target, by simp, ?_⟩
    rcases List.mem_append.mp hrow with hactive | hconflict
    · cases hactive
    · exact List.mem_append_right _ (Option.mem_toList.mpr
        (h.forwardBackConflict (by simp) (Option.mem_toList.mp hconflict)))
  · refine List.mem_flatMap.mpr ⟨d, hold, ?_⟩
    rcases List.mem_append.mp hrow with hactive | hconflict
    · exact List.mem_append_left _ hactive
    · exact List.mem_append_right _ (Option.mem_toList.mpr
        (h.forwardBackConflict hold (Option.mem_toList.mp hconflict)))

/-- Every orphan after a repair is an orphan before it, of another target. -/
theorem Repairable.orphans (h : Repairable front target back numbers child)
    {counts : List Nat} {row : SupersedeOrphan}
    (hrow : row ∈ supersedeOrphans (front ++ markSuperseded target child.num :: back) counts
      (supersessionCycles (front ++ markSuperseded target child.num :: back))) :
    row ∈ supersedeOrphans (front ++ target :: back) counts
      (supersessionCycles (front ++ target :: back)) ∧ row.target ≠ target.num := by
  rw [h.cycles] at hrow
  simp only [supersedeOrphans, mem_sortByKey, List.mem_filterMap] at hrow ⊢
  obtain ⟨d, hd, hrow⟩ := hrow
  obtain ⟨hchild, hactive, href, hself, hone, hone', hcycle, hcycle', found, hfound, hopen⟩ :=
    orphanOf?_eq_some_iff.mp hrow
  have hne : row.target ≠ target.num := by
    intro heq
    rw [heq, byNum_flipped_target h.first] at hfound
    obtain rfl := Option.some.inj hfound
    cases hopen.1
  rw [byNum_flipped child.num hne] at hfound
  refine ⟨⟨d, ?_, orphanOf?_eq_some_iff.mpr ⟨hchild, hactive, href, hself, hone, hone', hcycle,
    hcycle', found, hfound, hopen⟩⟩, hne⟩
  rcases mem_flipped target hd with rfl | hold
  · cases hactive
  · exact hold

end

theorem titleCarriers_flipped {tables : UnicodeTables} {front back : List (ScannedDecision E)}
    (r : ScannedDecision E) (replacement : Nat) (title : Text) :
    (titleCarriers tables (front ++ ⟨r.stem, markSuperseded r.decision replacement⟩ :: back)
      title).Sublist (titleCarriers tables (front ++ r :: back) title) := by
  refine List.Sublist.map _ ?_
  have hretired : ((markSuperseded r.decision replacement).status == .active &&
      normalizeTitle tables (markSuperseded r.decision replacement).title == title) = false := rfl
  rw [List.filter_append, List.filter_append, List.filter_cons_of_neg (by simp [hretired])]
  exact (List.Sublist.refl _).append (((List.sublist_cons_self r back).filter _))

/-- A repair leaves a title with fewer carriers, never with new ones. -/
theorem duplicateActiveTitles_flipped {tables : UnicodeTables}
    {front back : List (ScannedDecision E)} (r : ScannedDecision E) (replacement : Nat)
    {row : DuplicateActiveTitle}
    (hrow : row ∈ duplicateActiveTitles tables
      (front ++ ⟨r.stem, markSuperseded r.decision replacement⟩ :: back)) :
    ∃ old ∈ duplicateActiveTitles tables (front ++ r :: back),
      old.normalizedTitle = row.normalizedTitle ∧ row.carriers ⊆ old.carriers := by
  obtain ⟨hmany, hcarriers⟩ := mem_duplicateActiveTitles.mp hrow
  have hfewer : (titleCarriers tables
      (front ++ ⟨r.stem, markSuperseded r.decision replacement⟩ :: back)
        row.normalizedTitle).Sublist
      (titleCarriers tables (front ++ r :: back) row.normalizedTitle) :=
    titleCarriers_flipped r replacement row.normalizedTitle
  refine ⟨⟨row.normalizedTitle, (titleCarriers tables (front ++ r :: back)
    row.normalizedTitle).insertionSort fun a b => carrierLe a b = true⟩,
    mem_duplicateActiveTitles.mpr ⟨Nat.lt_of_lt_of_le hmany hfewer.length_le, rfl⟩, rfl, ?_⟩
  intro carrier hin
  rw [hcarriers] at hin
  exact (List.perm_insertionSort _ _).mem_iff.mpr
    (hfewer.subset ((List.perm_insertionSort _ _).mem_iff.mp hin))

/-! ## What a plan says about the records -/

theorem subset_addRefusal (rows : List RepairRefusal) (refusal : RepairRefusal) :
    rows ⊆ addRefusal rows refusal := by
  unfold addRefusal
  split_ifs
  · exact List.Subset.refl _
  · exact List.subset_append_left _ _

/-- A refusal is kept up to its guidance. -/
theorem addRefusal_kept (rows : List RepairRefusal) (refusal : RepairRefusal) :
    ∃ kept ∈ addRefusal rows refusal, kept.decisions = refusal.decisions := by
  unfold addRefusal
  split_ifs with hany
  · obtain ⟨kept, hin, hsame⟩ := List.any_eq_true.mp hany
    simp only [Bool.and_eq_true, beq_iff_eq] at hsame
    exact ⟨kept, hin, hsame.1.2⟩
  · exact ⟨refusal, List.mem_append_right _ (List.mem_singleton_self _), rfl⟩

theorem foldl_addRefusal_kept {rows : List RepairRefusal} {refusal : RepairRefusal}
    (before : List RepairRefusal) (h : refusal ∈ rows ∨ refusal ∈ before) :
    ∃ kept ∈ rows.foldl addRefusal before, kept.decisions = refusal.decisions := by
  induction rows generalizing before refusal with
  | nil => exact ⟨refusal, h.resolve_left (by simp), rfl⟩
  | cons row rows ih =>
      rcases h with hin | hbefore
      · rcases List.mem_cons.mp hin with rfl | hin
        · obtain ⟨kept, hkept, hsame⟩ := addRefusal_kept before refusal
          obtain ⟨kept', hkept', hsame'⟩ := ih (addRefusal before refusal) (Or.inr hkept)
          exact ⟨kept', hkept', hsame'.trans hsame⟩
        · exact ih _ (Or.inl hin)
      · exact ih _ (Or.inr (subset_addRefusal before row hbefore))

/-- Where nothing blocks an orphan, no refusal of a candidate does. -/
theorem RepairView.not_refused {v : RepairView E} {candidates : List RepairCandidate}
    {orphan : SupersedeOrphan}
    (hfree : (v.refusals candidates).any (fun refusal => refusal.blocks orphan) = false)
    {candidate : RepairCandidate} (hcandidate : candidate ∈ candidates) {refusal : RepairRefusal}
    (hrefusal : refusal ∈ v.candidateRefusals candidates candidate) :
    refusal.blocks orphan = false := by
  have hne : candidates ≠ [] := List.ne_nil_of_mem hcandidate
  obtain ⟨kept, hkept, hsame⟩ := foldl_addRefusal_kept []
    (Or.inl (List.mem_append_left _ (List.mem_flatMap.mpr ⟨candidate, hcandidate, hrefusal⟩)))
  have hrow : kept ∈ v.refusals candidates := by
    rw [RepairView.refusals, if_neg hne, (List.perm_insertionSort _ _).mem_iff]
    exact hkept
  have hblocks := List.any_eq_false.mp hfree kept hrow
  rw [RepairRefusal.blocks, hsame] at hblocks
  exact Bool.eq_false_iff.mpr hblocks

theorem StoreScan.count_numbers (tables : UnicodeTables) (scan : StoreScan E) (n : Nat) :
    (scan.numbers tables).count n = (scan.stemsOf tables n).length := by
  rw [StoreScan.numbers, StoreScan.stemsOf]
  induction scan.stems with
  | nil => rfl
  | cons stem stems ih =>
      cases hnumber : extractDecisionNumber tables stem with
      | none => simp [hnumber, ih]
      | some m => by_cases hm : m = n <;> simp [hnumber, hm, ih]

/-- The first record of a number is that of the one stem that carries the number. -/
theorem StoreScan.Sound.first {tables : UnicodeTables} {scan : StoreScan E}
    (hscan : scan.Sound tables) {front back : List (ScannedDecision E)} {r : ScannedDecision E}
    (hrecords : scan.records = front ++ r :: back) {n : Nat}
    (honly : scan.stemsOf tables n = [r.stem]) :
    r.decision.num = n ∧ ∀ d ∈ front.map ScannedDecision.decision, d.num ≠ n := by
  have hnumber : extractDecisionNumber tables r.stem = some n := by
    have hin : r.stem ∈ scan.stemsOf tables n := honly ▸ List.mem_singleton_self _
    exact beq_iff_eq.mp (List.mem_filter.mp hin).2
  have hself : r.decision.num = n := by
    rw [hscan.numbered r (hrecords ▸ List.mem_append_right _ (List.mem_cons_self ..)), hnumber]
    rfl
  refine ⟨hself, fun d hd heq => ?_⟩
  obtain ⟨other, hother, rfl⟩ := List.mem_map.mp hd
  have hin : other ∈ scan.records := hrecords ▸ List.mem_append_left _ hother
  have hstem : other.stem ∈ scan.stems := hscan.inOrder.subset (List.mem_map_of_mem hin)
  have hstems : scan.records.map ScannedDecision.stem =
      front.map ScannedDecision.stem ++ r.stem :: back.map ScannedDecision.stem := by
    rw [hrecords, List.map_append, List.map_cons]
  have hbefore : stemLe tables other.stem r.stem = true := by
    have hsorted := hscan.sorted.sublist hscan.inOrder
    rw [hstems] at hsorted
    exact (List.pairwise_append.mp hsorted).2.2 other.stem (List.mem_map_of_mem hother) r.stem
      (List.mem_cons_self ..)
  have hne : other.stem ≠ r.stem := by
    have hnodup := hscan.distinct.sublist hscan.inOrder
    rw [hstems] at hnodup
    exact (List.nodup_append.mp hnodup).2.2 other.stem (List.mem_map_of_mem hother) r.stem
      (List.mem_cons_self ..)
  have hnum := hscan.numbered other hin
  cases hextract : extractDecisionNumber tables other.stem with
  | none =>
      -- a stem without a number comes after every numbered one
      rw [stemLe, hextract, hnumber] at hbefore
      cases hbefore
  | some m =>
      rw [hextract, Option.getD_some, heq] at hnum
      have hcarrier : other.stem ∈ scan.stemsOf tables n :=
        List.mem_filter.mpr ⟨hstem, by rw [hextract, hnum]; exact beq_self_eq_true _⟩
      rw [honly, List.mem_singleton] at hcarrier
      exact hne hcarrier

/-- The stages of an assessment that returns a plan. -/
theorem assessRepair_plan {rt : Runtime E} {scan : StoreScan E} {assessment : RepairAssessment}
    {plan : RepairPlan} (h : assessRepair rt scan = some assessment)
    (hplan : assessment.plan = some plan) :
    ∃ orphan, (diagnoseScan rt.tables scan).supersedeOrphans = [orphan] ∧
      (((repairView rt.tables scan).refusals
        (repairCandidates scan.parsed (scan.numbers rt.tables))).any fun refusal =>
          refusal.blocks orphan) = false ∧
      buildPlan rt (repairView rt.tables scan) orphan = some plan := by
  unfold assessRepair at h
  simp only at h
  split at h
  · next orphan horphans =>
      split_ifs at h with hblocked
      · cases h
        cases hplan
      · obtain ⟨built, hbuilt, hassessment⟩ := Option.map_eq_some_iff.mp h
        subst hassessment
        obtain rfl := Option.some.inj hplan
        exact ⟨orphan, horphans, Bool.eq_false_iff.mpr hblocked, hbuilt⟩
  · cases h
    cases hplan

theorem buildPlan_eq_some {rt : Runtime E} {v : RepairView E} {orphan : SupersedeOrphan}
    {plan : RepairPlan} (h : buildPlan rt v orphan = some plan) :
    ∃ child target, byNum v.parsed orphan.child = some child ∧
      byNum v.parsed orphan.target = some target ∧
      (v.stemsOf orphan.target).head? = some plan.targetStem ∧
      formatDecision rt.yaml (markSuperseded target orphan.child) = some plan.newContent ∧
      plan.childNum = child.num ∧ plan.targetNum = target.num := by
  simp only [buildPlan, Option.bind_eq_bind, Option.bind_eq_some_iff] at h
  obtain ⟨child, hchild, target, htarget, stem, hstem, content, hcontent, hplan⟩ := h
  obtain rfl := Option.some.inj hplan
  exact ⟨child, target, hchild, htarget, hstem, hcontent, rfl, rfl⟩

theorem byNum_num {parsed : List (Decision E)} {n : Nat} {d : Decision E}
    (h : byNum parsed n = some d) : d.num = n :=
  beq_iff_eq.mp (List.find?_some (p := fun d : Decision E => d.num == n) h)

/-- The children of a target are those of its candidates. -/
theorem mem_childrenOf {candidates : List RepairCandidate} {child target : Nat} :
    child ∈ childrenOf candidates target ↔ ⟨child, target⟩ ∈ candidates := by
  rw [childrenOf, List.mem_map]
  constructor
  · rintro ⟨⟨c, n⟩, hin, rfl⟩
    obtain ⟨hin, hn⟩ := List.mem_filter.mp hin
    have htarget : n = target := beq_iff_eq.mp hn
    exact htarget ▸ hin
  · exact fun hin => ⟨_, List.mem_filter.mpr ⟨hin, beq_self_eq_true _⟩, rfl⟩

theorem mem_repairCandidates {parsed : List (Decision E)} {numbers : List Nat}
    {candidate : RepairCandidate} :
    candidate ∈ repairCandidates parsed numbers ↔
      ∃ d ∈ parsed, candidateOf? parsed numbers d = some candidate := by
  rw [repairCandidates, mem_sortByKey, List.mem_dedup, List.mem_filterMap]

/-- A plan is only returned for records that a repair keeps in order. -/
theorem repairable_of_plan {rt : Runtime E} {scan : StoreScan E} (hscan : scan.Sound rt.tables)
    {assessment : RepairAssessment} {plan : RepairPlan}
    (h : assessRepair rt scan = some assessment) (hplan : assessment.plan = some plan) :
    ∃ front r back child, scan.records = front ++ r :: back ∧ r.stem = plan.targetStem ∧
      r.decision.num = plan.targetNum ∧ child.num = plan.childNum ∧
      scan.stemsOf rt.tables plan.targetNum = [plan.targetStem] ∧
      (diagnoseScan rt.tables scan).supersedeOrphans = [⟨plan.childNum, plan.targetNum⟩] ∧
      formatDecision rt.yaml (markSuperseded r.decision plan.childNum) = some plan.newContent ∧
      Repairable (front.map ScannedDecision.decision) r.decision
        (back.map ScannedDecision.decision) (scan.numbers rt.tables) child := by
  obtain ⟨orphan, horphans, hfree, hbuilt⟩ := assessRepair_plan h hplan
  obtain ⟨first, target, hfirst, htarget, hstem, hcontent, hchildNum, htargetNum⟩ :=
    buildPlan_eq_some hbuilt
  have horphan : orphan ∈ (diagnoseScan rt.tables scan).supersedeOrphans :=
    horphans ▸ List.mem_singleton_self _
  obtain ⟨child, hchild, hrow⟩ := List.mem_filterMap.mp (mem_sortByKey.mp horphan)
  obtain ⟨hnum, -, href, hself, hone, hone', -, hcycle, target', htarget', hactive, hopen⟩ :=
    orphanOf?_eq_some_iff.mp hrow
  have htargetIn : orphan.target ∈ scan.numbers rt.tables := by
    refine List.count_pos_iff.mp ?_
    rw [hone']
    exact Nat.one_pos
  obtain rfl : target' = target := Option.some.inj (htarget'.symm.trans htarget)
  have hplanChild : plan.childNum = orphan.child := hchildNum.trans (byNum_num hfirst)
  have hplanTarget : plan.targetNum = orphan.target := htargetNum.trans (byNum_num htarget)
  -- the one stem of the target
  have hstems : scan.stemsOf rt.tables orphan.target = [plan.targetStem] := by
    rw [StoreScan.count_numbers] at hone'
    obtain ⟨stem, hlist⟩ := List.length_eq_one_iff.mp hone'
    have hhead : (scan.stemsOf rt.tables orphan.target).head? = some plan.targetStem := hstem
    rw [hlist] at hhead ⊢
    rw [Option.some.inj hhead]
  have hcandidate : ∀ d ∈ scan.parsed, refNumber d.supersedes = some orphan.target →
      d.num ≠ orphan.target →
      ⟨d.num, orphan.target⟩ ∈ repairCandidates scan.parsed (scan.numbers rt.tables) := by
    intro d hd href hne
    refine mem_repairCandidates.mpr ⟨d, hd, candidateOf?_eq_some_iff.mpr ⟨rfl, href, hne.symm,
      htargetIn, fun found hfound => ?_⟩⟩
    obtain rfl : found = target' := Option.some.inj (hfound.symm.trans htarget)
    rw [hopen]
    exact (Option.some_ne_none _).symm
  have hpair : ⟨orphan.child, orphan.target⟩ ∈
      repairCandidates scan.parsed (scan.numbers rt.tables) := by
    rw [hnum]
    exact hcandidate child hchild href hself.symm
  -- the target's file was read
  have hread : plan.targetStem ∉ scan.failures.map ParseFailure.stem := by
    intro hfailed
    have hview : (repairView rt.tables scan).stemsOf orphan.target = [plan.targetStem] := hstems
    have hfailed' : plan.targetStem ∈ (repairView rt.tables scan).failedStems := hfailed
    have hrefused : unparseableTargetRefusal ⟨orphan.child, orphan.target⟩ plan.targetStem ∈
        (repairView rt.tables scan).candidateRefusals
          (repairCandidates scan.parsed (scan.numbers rt.tables))
          ⟨orphan.child, orphan.target⟩ := by
      simp [RepairView.candidateRefusals, hview, hfailed']
    have hblocks := RepairView.not_refused hfree hpair hrefused
    simp [RepairRefusal.blocks, unparseableTargetRefusal] at hblocks
  have hin : plan.targetStem ∈ scan.stems := by
    have hcarrier : plan.targetStem ∈ scan.stemsOf rt.tables orphan.target :=
      hstems ▸ List.mem_singleton_self _
    exact (List.mem_filter.mp hcarrier).1
  obtain ⟨r, hr, hrstem⟩ := (hscan.read _ hin).resolve_right hread
  obtain ⟨front, back, hrecords⟩ := List.append_of_mem hr
  obtain ⟨hrnum, hbefore⟩ := hscan.first hrecords (hrstem ▸ hstems)
  have hparsed : scan.parsed = front.map ScannedDecision.decision ++ r.decision ::
      back.map ScannedDecision.decision := by
    rw [StoreScan.parsed, hrecords, List.map_append, List.map_cons]
  have hfound : byNum scan.parsed orphan.target = some r.decision := by
    rw [hparsed, ← hrnum]
    exact byNum_append_cons fun d hd => hrnum ▸ hbefore d hd
  obtain rfl : r.decision = target' := Option.some.inj (hfound.symm.trans htarget)
  refine ⟨front, r, back, child, hrecords, hrstem, hrnum.trans hplanTarget.symm,
    hnum.symm.trans hplanChild.symm, by rw [hplanTarget]; exact hstems, ?_,
    by rw [hplanChild]; exact hcontent, ?_⟩
  · rw [horphans, hplanChild, hplanTarget]
  · refine ⟨fun d hd => by rw [hrnum]; exact hbefore d hd, hparsed ▸ hchild,
      by rw [hrnum]; exact hself.symm, by rw [hrnum]; exact href,
      List.count_pos_iff.mp (hone ▸ Nat.one_pos), hactive, hopen,
      by rw [hrnum, ← hparsed]; exact hcycle, ?_⟩
    intro d hd href' hne
    rw [hrnum] at href' hne
    -- a second child is refused
    by_contra hother
    have hsecond := hcandidate d (hparsed ▸ hd) href' hne
    have hsiblings : 1 < (childrenOf (repairCandidates scan.parsed (scan.numbers rt.tables))
        orphan.target).length := by
      have hone := mem_childrenOf.mpr hpair
      have htwo := mem_childrenOf.mpr hsecond
      by_contra hshort
      match hlist : childrenOf (repairCandidates scan.parsed (scan.numbers rt.tables))
          orphan.target with
      | [] =>
          rw [hlist] at hone
          cases hone
      | [only] =>
          rw [hlist, List.mem_singleton] at hone htwo
          exact hother (htwo.trans (hone.symm.trans hnum))
      | _ :: _ :: _ =>
          rw [hlist] at hshort
          simp at hshort
    have hrefused : multipleChildrenRefusal orphan.target
        (childrenOf (repairCandidates scan.parsed (scan.numbers rt.tables)) orphan.target) ∈
        (repairView rt.tables scan).candidateRefusals
          (repairCandidates scan.parsed (scan.numbers rt.tables))
          ⟨orphan.child, orphan.target⟩ := by
      simp [RepairView.candidateRefusals, hsiblings]
    have hblocks := RepairView.not_refused hfree hpair hrefused
    simp [RepairRefusal.blocks, multipleChildrenRefusal] at hblocks

/-! ## Soundness -/

/-- What a repair does to a diagnosis: the orphan is gone and no finding is new. -/
structure RepairKeeps (plan : RepairPlan) (before after : StoreDiagnosis) : Prop where
  reported : ⟨plan.childNum, plan.targetNum⟩ ∈ before.supersedeOrphans
  closed : ⟨plan.childNum, plan.targetNum⟩ ∉ after.supersedeOrphans
  orphans : after.supersedeOrphans ⊆ before.supersedeOrphans
  danglingRefs : after.danglingRefs ⊆ before.danglingRefs
  cycles : after.cycles = before.cycles
  contradictions : after.contradictions ⊆ before.contradictions
  /-- A title is reported with no carrier that was not reported for it. -/
  titles : ∀ row ∈ after.duplicateActiveTitles, ∃ old ∈ before.duplicateActiveTitles,
    old.normalizedTitle = row.normalizedTitle ∧ row.carriers ⊆ old.carriers

/-- A repair closes its orphan and adds no finding. -/
theorem repair_keeps_findings {rt : Runtime E} (htables : rt.tables.Lawful) {store : Store}
    {assessment : RepairAssessment} {plan : RepairPlan}
    (h : planSupersedeRepair rt store = some assessment) (hplan : assessment.plan = some plan) :
    RepairKeeps plan (diagnoseStore rt store)
      (diagnoseScan rt.tables ((scanStore rt store).flip plan)) := by
  have hscan := scanStore_sound htables store
  obtain ⟨front, r, back, child, hrecords, hstem, htarget, hchild, -, horphans, -, hrepairable⟩ :=
    repairable_of_plan hscan h hplan
  have hnodup := hscan.distinct.sublist hscan.inOrder
  rw [hrecords, List.map_append, List.map_cons, List.nodup_middle, List.nodup_cons,
    ← List.map_append] at hnodup
  have hothers : ∀ other ∈ front ++ back, (if other.stem = plan.targetStem then
      (⟨other.stem, markSuperseded other.decision plan.childNum⟩ : ScannedDecision E)
      else other) = other := by
    intro other hother
    refine if_neg fun heq => hnodup.1 ?_
    rw [hstem, ← heq]
    exact List.mem_map_of_mem hother
  have hflip : ((scanStore rt store).flip plan).records =
      front ++ ⟨r.stem, markSuperseded r.decision child.num⟩ :: back := by
    rw [StoreScan.flip, hrecords, List.map_append, List.map_cons, if_pos hstem, hchild,
      List.map_congr_left fun other hin => hothers other (List.mem_append_left _ hin),
      List.map_congr_left fun other hin => hothers other (List.mem_append_right _ hin),
      List.map_id'', List.map_id'']
    all_goals exact fun _ => rfl
  have hparsed : (scanStore rt store).parsed = front.map ScannedDecision.decision ++ r.decision ::
      back.map ScannedDecision.decision := by
    rw [StoreScan.parsed, hrecords, List.map_append, List.map_cons]
  have hparsed' : ((scanStore rt store).flip plan).parsed =
      front.map ScannedDecision.decision ++ markSuperseded r.decision child.num ::
        back.map ScannedDecision.decision := by
    rw [StoreScan.parsed, hflip, List.map_append, List.map_cons]
  have hnumbers : ((scanStore rt store).flip plan).numbers rt.tables =
      (scanStore rt store).numbers rt.tables := rfl
  refine ⟨?_, ?_, ?_, ?_, ?_, ?_, ?_⟩
  · exact horphans ▸ List.mem_singleton_self _
  · intro hin
    simp only [diagnoseScan, hparsed', hnumbers] at hin
    exact (hrepairable.orphans hin).2 htarget.symm
  · intro row hin
    simp only [diagnoseScan, diagnoseStore, hparsed, hparsed', hnumbers] at hin ⊢
    exact (hrepairable.orphans hin).1
  · simp only [diagnoseScan, diagnoseStore, hparsed, hparsed', hnumbers]
    exact hrepairable.danglingRefs
  · simp only [diagnoseScan, diagnoseStore, hparsed, hparsed']
    exact hrepairable.cycles
  · simp only [diagnoseScan, diagnoseStore, hparsed, hparsed', hnumbers]
    exact hrepairable.contradictions
  · intro row hin
    simp only [diagnoseScan, diagnoseStore, hflip, hrecords] at hin ⊢
    exact duplicateActiveTitles_flipped r child.num hin

def repairDay : Date := ⟨2026, 5, 20, by decide⟩

/-- The text of a decision file with a title and further frontmatter lines. -/
def decisionText (title extra : String) : Text :=
  ("---\ndate: 2026-01-02\nconfidence: high\n" ++ extra ++ "---\n\n# 001 — " ++ title ++
    "\n\n## Decision\n\nOne day.\n").toList

/-- Decision 2 supersedes decision 1, which is not flipped; both are active under one title. -/
def halfWrittenStore : Store where
  decisions := (Table.empty.put "001-queue".toList (decisionText "Queue" "")).put
    "002-queue".toList (decisionText "Queue" "supersedes: \"1\"\n")
  questions := none
  hashes := []

/-- The half-written supersession is repaired. -/
theorem half_written_is_repaired :
    ∃ assessment plan,
      planSupersedeRepair (Runtime.plain repairDay) halfWrittenStore = some assessment ∧
      assessment.plan = some plan ∧
      RepairKeeps plan (diagnoseStore (Runtime.plain repairDay) halfWrittenStore)
        (diagnoseScan .ascii ((scanStore (Runtime.plain repairDay) halfWrittenStore).flip plan)) := by
  have hsome : ((planSupersedeRepair (Runtime.plain repairDay) halfWrittenStore).bind
      RepairAssessment.plan).isSome = true := by decide +kernel
  obtain ⟨plan, hbind⟩ := Option.isSome_iff_exists.mp hsome
  obtain ⟨assessment, hassessment, hplan⟩ := Option.bind_eq_some_iff.mp hbind
  exact ⟨assessment, plan, hassessment, hplan,
    repair_keeps_findings UnicodeTables.ascii_lawful hassessment hplan⟩

end Core
end Nauro
