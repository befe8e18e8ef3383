import Nauro.Core.RepairSoundness

/-!
# A store with one more decision file

A file of a new number joins the scan of a store; everything else stays where it was.

* `Joins.quiet` — a decision without references adds no finding but a title.
-/

namespace Nauro
namespace Core

open Foundation

variable {E : Type}

/-! ## The scan of a store with one more file -/

/-- A store with one more decision file. -/
structure Store.Grown (store grown : Store) (stem : Text) : Prop where
  fresh : stem ∉ store.decisions.keys
  keys : grown.decisions.keys = store.decisions.keys ++ [stem]
  others : ∀ other, other ≠ stem → grown.decisions.get? other = store.decisions.get? other

theorem Store.Grown.write {store : Store} {stem : Text} (hfresh : stem ∉ store.decisions.keys)
    (text : Text) : store.Grown (store.writeDecision stem text) stem where
  fresh := hfresh
  keys := Table.keys_put_of_notMem hfresh text
  others _ hne := Table.get?_put_of_ne hne text

theorem Store.Grown.mem_keys {store grown : Store} {stem : Text} (h : store.Grown grown stem) :
    stem ∈ grown.decisions.keys := by
  rw [h.keys]
  exact List.mem_append_right _ (List.mem_singleton_self _)

/-- The new file is written again. -/
theorem Store.Grown.rewrite {store grown : Store} {stem : Text} (h : store.Grown grown stem)
    (text : Text) : store.Grown (grown.writeDecision stem text) stem where
  fresh := h.fresh
  keys := (Table.keys_put_of_mem h.mem_keys text).trans h.keys
  others other hne := (Table.get?_put_of_ne hne text).trans (h.others other hne)

theorem Store.Grown.congr {store grown other : Store} {stem : Text} (h : store.Grown grown stem)
    (hsame : other.decisions = grown.decisions) : store.Grown other stem where
  fresh := h.fresh
  keys := hsame ▸ h.keys
  others := hsame ▸ h.others

theorem Store.Grown.parseAt {store grown : Store} {stem : Text} (h : store.Grown grown stem)
    (rt : Runtime E) {other : Text} (hne : other ≠ stem) :
    grown.parseAt rt other = store.parseAt rt other := by
  rw [Store.parseAt, Store.parseAt, Store.readDecision, Store.readDecision, h.others other hne]

/-- The new stem joins the others at its place. -/
theorem Store.Grown.stems {store grown : Store} {stem : Text} (h : store.Grown grown stem)
    (rt : Runtime E) :
    ∃ front back, (scanStore rt store).stems = front ++ back ∧
      (scanStore rt grown).stems = front ++ stem :: back := by
  have hperm : ∀ s : Store, (scanStore rt s).stems.Perm s.decisions.keys := fun s =>
    (List.perm_insertionSort _ _).trans (List.perm_insertionSort _ _)
  have hsorted : ∀ s : Store,
      (scanStore rt s).stems.Pairwise fun a b => stemLe rt.tables a b = true := fun s =>
    List.pairwise_insertionSort _ _
  have hin : stem ∈ (scanStore rt grown).stems := (hperm grown).mem_iff.mpr h.mem_keys
  obtain ⟨front, back, hstems⟩ := List.append_of_mem hin
  refine ⟨front, back, ?_, hstems⟩
  have hsame : (front ++ back).Perm (scanStore rt store).stems := by
    have hall : (stem :: (front ++ back)).Perm (stem :: store.decisions.keys) := by
      have hmiddle := hperm grown
      rw [hstems, h.keys] at hmiddle
      exact (List.perm_middle.symm.trans hmiddle).trans (List.perm_append_singleton _ _)
    exact hall.cons_inv.trans (hperm store).symm
  have hrest : (front ++ back).Pairwise fun a b => stemLe rt.tables a b = true := by
    have hwhole := hsorted grown
    rw [hstems] at hwhole
    exact hwhole.sublist ((List.Sublist.refl front).append (List.sublist_cons_self stem back))
  exact (hsame.eq_of_pairwise' hrest (hsorted store)).symm

/-- A new file that parses is one more record. -/
theorem Store.Grown.records {store grown : Store} {stem : Text} (h : store.Grown grown stem)
    {rt : Runtime E} {d : Decision E} (hparse : grown.parseAt rt stem = some (.ok d)) :
    (∃ front back, (scanStore rt store).records = front ++ back ∧
      (scanStore rt grown).records = front ++ ⟨stem, d⟩ :: back) ∧
    (scanStore rt grown).failures = (scanStore rt store).failures := by
  obtain ⟨front, back, hstems, hstems'⟩ := h.stems rt
  have hother : ∀ other ∈ front ++ back, other ≠ stem := by
    rintro other hin rfl
    rw [← hstems] at hin
    exact h.fresh (Store.mem_listDecisions.mp (mem_sortStemsByNumber.mp hin))
  have hrecord : ∀ other ∈ front ++ back, grown.recordAt? rt other = store.recordAt? rt other := by
    intro other hin
    rw [Store.recordAt?, Store.recordAt?, h.parseAt rt (hother other hin)]
  have hfailure : ∀ other ∈ front ++ back,
      grown.failureAt? rt other = store.failureAt? rt other := by
    intro other hin
    rw [Store.failureAt?, Store.failureAt?, h.parseAt rt (hother other hin)]
  have hstem : grown.recordAt? rt stem = some ⟨stem, d⟩ := by rw [Store.recordAt?, hparse]
  have hfree : grown.failureAt? rt stem = none := by rw [Store.failureAt?, hparse]
  have hrecords : ∀ s : Store, (scanStore rt s).records =
      (scanStore rt s).stems.filterMap (s.recordAt? rt) := fun _ => rfl
  have hfailures : ∀ s : Store, (scanStore rt s).failures =
      (scanStore rt s).stems.filterMap (s.failureAt? rt) := fun _ => rfl
  refine ⟨⟨front.filterMap (store.recordAt? rt), back.filterMap (store.recordAt? rt), ?_, ?_⟩, ?_⟩
  · rw [hrecords, hstems, List.filterMap_append]
  · rw [hrecords, hstems', List.filterMap_append, List.filterMap_cons_some hstem,
      List.filterMap_congr fun other hin => hrecord other (List.mem_append_left _ hin),
      List.filterMap_congr fun other hin => hrecord other (List.mem_append_right _ hin)]
  · rw [hfailures, hfailures, hstems, hstems', List.filterMap_append, List.filterMap_append,
      List.filterMap_cons_none hfree,
      List.filterMap_congr fun other hin => hfailure other (List.mem_append_left _ hin),
      List.filterMap_congr fun other hin => hfailure other (List.mem_append_right _ hin)]

/-- A new file that does not parse is a failure. -/
theorem Store.Grown.failures {store grown : Store} {stem : Text} (h : store.Grown grown stem)
    {rt : Runtime E} (hparse : ∀ d, grown.parseAt rt stem ≠ some (.ok d)) :
    (scanStore rt grown).failures ≠ [] := by
  obtain ⟨text, htext⟩ := Option.isSome_iff_exists.mp (Table.mem_keys_iff.mp h.mem_keys)
  have hresult : grown.parseAt rt stem =
      some (parseDecision rt.tables rt.yaml (rt.readText text) (decisionFilename stem)) := by
    rw [Store.parseAt, Store.readDecision, htext]
    rfl
  cases hparsed : parseDecision rt.tables rt.yaml (rt.readText text) (decisionFilename stem) with
  | ok d => exact absurd (hresult.trans (by rw [hparsed])) (hparse d)
  | error error =>
      refine List.ne_nil_of_mem (a := (⟨stem, error⟩ : ParseFailure))
        (List.mem_filterMap.mpr ⟨stem, ?_, ?_⟩)
      · exact mem_sortStemsByNumber.mpr (Store.mem_listDecisions.mpr h.mem_keys)
      · rw [Store.failureAt?, hresult, hparsed]

/-- The number of the new stem is counted once more. -/
theorem Store.Grown.count_numbers {store grown : Store} {stem : Text}
    (h : store.Grown grown stem) {rt : Runtime E} {number : Nat}
    (hnumber : extractDecisionNumber rt.tables stem = some number) (n : Nat) :
    ((scanStore rt grown).numbers rt.tables).count n =
      ((scanStore rt store).numbers rt.tables).count n + if n = number then 1 else 0 := by
  obtain ⟨front, back, hstems, hstems'⟩ := h.stems rt
  rw [StoreScan.numbers, StoreScan.numbers, hstems, hstems', List.filterMap_append,
    List.filterMap_append, List.filterMap_cons_some hnumber, List.count_append, List.count_append,
    List.count_cons]
  by_cases hn : n = number
  · simp [hn, Nat.add_assoc]
  · have hne : (number == n) = false := beq_eq_false_iff_ne.mpr fun heq => hn heq.symm
    simp [hn, hne]

/-- Every decision of a store has a number below the next one. -/
theorem num_lt_next {rt : Runtime E} (htables : rt.tables.Lawful) {store : Store} {d : Decision E}
    (hd : d ∈ parseAllDecisions rt store) : d.num < nextDecisionNum rt store := by
  obtain ⟨r, hr, rfl⟩ := List.mem_map.mp hd
  have hscan := scanStore_sound htables store
  have hstem : r.stem ∈ store.listDecisions :=
    mem_sortStemsByNumber.mp (hscan.inOrder.subset (List.mem_map_of_mem hr))
  rw [hscan.numbered r hr]
  cases hnumber : extractDecisionNumber rt.tables r.stem with
  | none => exact Nat.succ_pos _
  | some n => exact lt_nextDecisionNum hstem hnumber

/-- No file carries the next number. -/
theorem next_notMem_numbers (rt : Runtime E) (store : Store) :
    nextDecisionNum rt store ∉ (scanStore rt store).numbers rt.tables := by
  intro hin
  obtain ⟨stem, hstem, hnumber⟩ := List.mem_filterMap.mp hin
  exact absurd (lt_nextDecisionNum (mem_sortStemsByNumber.mp hstem) hnumber) (lt_irrefl _)

/-! ## The findings of a store with one more decision -/

/-- A decision of a new number joins decisions without a dangling reference. -/
structure Joins (front back : List (Decision E)) (d : Decision E) (numbers grown : List Nat) :
    Prop where
  counts : ∀ n, grown.count n = numbers.count n + if n = d.num then 1 else 0
  fresh : d.num ∉ numbers
  others : ∀ other ∈ front ++ back, other.num ≠ d.num
  noDangling : danglingRefs (front ++ back) numbers = []

section

variable {front back : List (Decision E)} {d : Decision E} {numbers grown : List Nat}

theorem mem_joined {other : Decision E} :
    other ∈ front ++ d :: back ↔ other = d ∨ other ∈ front ++ back := by
  simp only [List.mem_append, List.mem_cons]
  tauto

theorem Joins.mem_numbers (h : Joins front back d numbers grown) {n : Nat} :
    n ∈ grown ↔ n ∈ numbers ∨ n = d.num := by
  rw [← List.count_pos_iff, ← List.count_pos_iff, h.counts n]
  by_cases hn : n = d.num
  · simp [hn]
  · simp [hn]

/-- A reference names a number that was there before. -/
theorem Joins.ref_mem (h : Joins front back d numbers grown) {other : Decision E}
    (hother : other ∈ front ++ back) (field : RefField) {n : Nat}
    (href : refNumber (field.value other) = some n) : n ∈ numbers := by
  by_contra hmissing
  have hrow : (⟨other.num, field, n⟩ : DanglingRef) ∈ danglingRefs (front ++ back) numbers := by
    rw [danglingRefs, mem_sortByKey]
    refine List.mem_flatMap.mpr ⟨other, hother, List.mem_filterMap.mpr ⟨field, ?_, ?_⟩⟩
    · cases field <;> simp
    · rw [href, Option.bind_some, if_neg hmissing]
  rw [h.noDangling] at hrow
  cases hrow

theorem Joins.ref_ne (h : Joins front back d numbers grown) {other : Decision E}
    (hother : other ∈ front ++ back) (field : RefField) {n : Nat}
    (href : refNumber (field.value other) = some n) : n ≠ d.num :=
  fun heq => h.fresh (heq ▸ h.ref_mem hother field href)

theorem byNum_joined {n : Nat} (hne : n ≠ d.num) :
    byNum (front ++ d :: back) n = byNum (front ++ back) n := by
  have hskip : (d.num == n) = false := beq_eq_false_iff_ne.mpr fun h => hne h.symm
  simp [byNum, List.find?_append, hskip]

theorem danglingRefs_eq_nil_iff {parsed : List (Decision E)} {existing : List Nat} :
    danglingRefs parsed existing = [] ↔
      ∀ d ∈ parsed, ∀ (field : RefField) n, refNumber (field.value d) = some n → n ∈ existing := by
  rw [List.eq_nil_iff_forall_not_mem]
  simp only [danglingRefs, mem_sortByKey, List.mem_flatMap, Decision.danglingRefs,
    List.mem_filterMap, Option.bind_eq_some_iff, not_exists, not_and]
  constructor
  · intro h d hd field n href
    by_contra hmissing
    refine h ⟨d.num, field, n⟩ d hd field ?_ n href (if_neg hmissing)
    cases field <;> simp
  · intro h row d hd field _ n href hrow
    rw [if_pos (h d hd field n href)] at hrow
    cases hrow

/-- A decision without references adds no finding but a title. -/
structure Quiet (parsed joined : List (Decision E)) (numbers grown : List Nat) : Prop where
  danglingRefs : danglingRefs joined grown = []
  cycles : supersessionCycles joined = supersessionCycles parsed
  contradictions : statusContradictions joined grown ⊆ statusContradictions parsed numbers
  orphans : ∀ cycles, supersedeOrphans joined grown cycles = supersedeOrphans parsed numbers cycles

theorem Joins.quiet (h : Joins front back d numbers grown) (hforward : d.supersedes = none)
    (hback : d.supersededBy = none) :
    Quiet (front ++ back) (front ++ d :: back) numbers grown := by
  refine ⟨?_, ?_, ?_, fun cycles => ?_⟩
  · refine danglingRefs_eq_nil_iff.mpr fun other hother field n href => ?_
    rcases mem_joined.mp hother with rfl | hold
    · cases field with
      | supersedes => simp [RefField.value, hforward, refNumber] at href
      | supersededBy => simp [RefField.value, hback, refNumber] at href
    · exact h.mem_numbers.mpr (Or.inl (h.ref_mem hold field href))
  · have hedges : d.edges = [] := by simp [Decision.edges, hforward, hback, refNumber]
    rw [supersessionCycles, supersessionCycles, supersessionEdges, supersessionEdges]
    simp [hedges]
  · intro row hrow
    simp only [statusContradictions, mem_sortByKey] at hrow ⊢
    obtain ⟨other, hother, hrow⟩ := List.mem_flatMap.mp hrow
    rcases mem_joined.mp hother with rfl | hold
    · simp [activeWithSupersededBy, forwardBackConflict, hforward, hback, refNumber] at hrow
    · refine List.mem_flatMap.mpr ⟨other, hold, ?_⟩
      rcases List.mem_append.mp hrow with hactive | hconflict
      · exact List.mem_append_left _ hactive
      · refine List.mem_append_right _ (Option.mem_toList.mpr ?_)
        obtain ⟨older, target, claimed, href, hfound, hclaimed, -, hne, rfl⟩ :=
          forwardBackConflict_eq_some_iff.mp (Option.mem_toList.mp hconflict)
        rw [byNum_joined (h.ref_ne hold .supersedes href)] at hfound
        have htarget : target ∈ front ++ back := List.mem_of_find?_eq_some hfound
        exact forwardBackConflict_eq_some_iff.mpr ⟨older, target, claimed, href, hfound, hclaimed,
          h.ref_mem htarget .supersededBy hclaimed, hne, rfl⟩
  · have hsame : ∀ other ∈ front ++ back,
        orphanOf? (front ++ d :: back) grown cycles other =
          orphanOf? (front ++ back) numbers cycles other := by
      intro other hother
      ext row
      rw [orphanOf?_eq_some_iff, orphanOf?_eq_some_iff]
      by_cases href : refNumber other.supersedes = some row.target
      · have hne := h.ref_ne hother .supersedes href
        have hself := h.others other hother
        rw [h.counts, h.counts, if_neg hself, if_neg hne, byNum_joined hne]
        simp only [Nat.add_zero]
      · simp [href]
    have hnone : orphanOf? (front ++ d :: back) grown cycles d = none := by
      refine Option.eq_none_iff_forall_ne_some.mpr fun row hrow => ?_
      have href := (orphanOf?_eq_some_iff.mp hrow).2.2.1
      simp [hforward, refNumber] at href
    rw [supersedeOrphans, supersedeOrphans, List.filterMap_append, List.filterMap_append,
      List.filterMap_cons_none hnone,
      List.filterMap_congr fun other hin => hsame other (List.mem_append_left _ hin),
      List.filterMap_congr fun other hin => hsame other (List.mem_append_right _ hin)]

end

/-- A new file of the next number joins the decisions of a store without a dangling reference. -/
theorem Store.Grown.joins {store grown : Store} {stem : Text} (h : store.Grown grown stem)
    {rt : Runtime E} (htables : rt.tables.Lawful)
    (hnumber : extractDecisionNumber rt.tables stem = some (nextDecisionNum rt store))
    {d : Decision E} (hparse : grown.parseAt rt stem = some (.ok d))
    (hclean : (diagnoseStore rt store).danglingRefs = []) {front back : List (ScannedDecision E)}
    (hrecords : (scanStore rt store).records = front ++ back) :
    Joins (front.map ScannedDecision.decision) (back.map ScannedDecision.decision) d
      ((scanStore rt store).numbers rt.tables) ((scanStore rt grown).numbers rt.tables) := by
  have hparsed : parseAllDecisions rt store =
      front.map ScannedDecision.decision ++ back.map ScannedDecision.decision := by
    rw [← List.map_append, ← hrecords]
    rfl
  have hnum : d.num = nextDecisionNum rt store := by
    obtain ⟨text, -, htext⟩ := Option.map_eq_some_iff.mp hparse
    rw [parseDecision_num htext, extractDecisionNumber_decisionFilename htables, hnumber]
    rfl
  refine ⟨fun n => hnum ▸ h.count_numbers hnumber n, hnum ▸ next_notMem_numbers rt store,
    fun other hother => ?_, hparsed ▸ hclean⟩
  rw [hnum]
  exact (num_lt_next htables (hparsed ▸ hother)).ne

/-! ## Titles -/

theorem length_titleCarriers_joined {tables : UnicodeTables} {front back : List (ScannedDecision E)}
    {r : ScannedDecision E} (hactive : r.decision.status = .active) (title : Text) :
    (titleCarriers tables (front ++ r :: back) title).length =
      (titleCarriers tables (front ++ back) title).length +
        if normalizeTitle tables r.decision.title = title then 1 else 0 := by
  unfold titleCarriers
  rw [List.length_map, List.length_map, List.filter_append, List.filter_append, List.filter_cons]
  by_cases htitle : normalizeTitle tables r.decision.title = title
  · simp [hactive, htitle, Nat.add_assoc]
  · simp [htitle]

theorem mem_titleCarriers_pos {tables : UnicodeTables} {records : List (ScannedDecision E)}
    {title : Text} :
    0 < (titleCarriers tables records title).length ↔
      ∃ r ∈ records, r.decision.status = .active ∧
        normalizeTitle tables r.decision.title = title := by
  rw [titleCarriers, List.length_map, List.length_pos_iff_exists_mem]
  simp only [List.mem_filter, Bool.and_eq_true, beq_iff_eq]

theorem duplicateActiveTitles_eq_nil_iff {tables : UnicodeTables}
    {records : List (ScannedDecision E)} :
    duplicateActiveTitles tables records = [] ↔
      ∀ title, (titleCarriers tables records title).length ≤ 1 := by
  rw [List.eq_nil_iff_forall_not_mem]
  constructor
  · intro h title
    by_contra hmany
    exact h ⟨title, (titleCarriers tables records title).insertionSort
      fun a b => carrierLe a b = true⟩ (mem_duplicateActiveTitles.mpr ⟨not_le.mp hmany, rfl⟩)
  · intro h row hrow
    exact absurd (mem_duplicateActiveTitles.mp hrow).1 (not_lt.mpr (h _))

/-- A new active decision repeats a title just when an active decision has it. -/
theorem duplicateActiveTitles_joined {tables : UnicodeTables}
    {front back : List (ScannedDecision E)} {r : ScannedDecision E}
    (hactive : r.decision.status = .active)
    (hclean : duplicateActiveTitles tables (front ++ back) = []) :
    duplicateActiveTitles tables (front ++ r :: back) ≠ [] ↔
      ∃ other ∈ front ++ back, other.decision.status = .active ∧
        normalizeTitle tables other.decision.title = normalizeTitle tables r.decision.title := by
  have hone := duplicateActiveTitles_eq_nil_iff.mp hclean
  rw [Ne, duplicateActiveTitles_eq_nil_iff, ← mem_titleCarriers_pos]
  simp only [length_titleCarriers_joined hactive]
  constructor
  · intro hne
    by_contra hnone
    refine hne fun title => ?_
    by_cases htitle : normalizeTitle tables r.decision.title = title
    · rw [if_pos htitle, ← htitle]
      omega
    · rw [if_neg htitle]
      exact hone title
  · intro hpos hall
    have hmany := hall (normalizeTitle tables r.decision.title)
    rw [if_pos rfl] at hmany
    omega

/-! ## Clean stores -/

theorem StoreDiagnosis.isClean_iff {diagnosis : StoreDiagnosis} :
    diagnosis.isClean = true ↔
      diagnosis.unparseable = [] ∧ diagnosis.danglingRefs = [] ∧ diagnosis.cycles = [] ∧
        diagnosis.contradictions = [] ∧ diagnosis.duplicateNumbers = [] ∧
        diagnosis.duplicateActiveTitles = [] := by
  simp [StoreDiagnosis.isClean, and_assoc]

theorem duplicateNumbers_eq_nil_iff {tables : UnicodeTables} {scan : StoreScan E} :
    duplicateNumbers tables scan = [] ↔ ∀ n, (scan.numbers tables).count n ≤ 1 := by
  rw [duplicateNumbers, List.filterMap_eq_nil_iff]
  simp only [mem_sortNumbers, List.mem_dedup, scan.count_numbers tables]
  constructor
  · intro h n
    by_cases hn : n ∈ scan.numbers tables
    · have hrow := h n hn
      split_ifs at hrow with hmany
      omega
    · rw [← scan.count_numbers tables, List.count_eq_zero_of_not_mem hn]
      exact Nat.zero_le 1
  · intro h n _
    rw [if_neg (not_lt.mpr (h n))]

end Core
end Nauro
