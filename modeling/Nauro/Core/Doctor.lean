import Nauro.Core.Screening
import Nauro.Foundation.StrongComponents

/-!
# Diagnosing a store

`diagnose_store` reads every decision file once and reports what is wrong with the references
between them. Six findings are blocking; a half-written supersession is repairable, and an unknown
frontmatter key only advisory.
-/

namespace Nauro
namespace Core

open Foundation

variable {E : Type}

/-! ## One scan -/

/-- Every decision file, read once: records, failures and the full stem set, in order. -/
structure StoreScan (E : Type) where
  records : List (ScannedDecision E)
  failures : List ParseFailure
  stems : List Text

/-- `scan_decision_records` with the stems. -/
def scanStore (rt : Runtime E) (store : Store) : StoreScan E :=
  let (records, failures) := scanDecisionRecords rt store
  ⟨records, failures, sortStemsByNumber rt.tables store.listDecisions⟩

def StoreScan.parsed (scan : StoreScan E) : List (Decision E) :=
  scan.records.map ScannedDecision.decision

/-- The numbers that the stems carry, once for each file. -/
def StoreScan.numbers (tables : UnicodeTables) (scan : StoreScan E) : List Nat :=
  scan.stems.filterMap (extractDecisionNumber tables)

/-- The stems that carry a number. -/
def StoreScan.stemsOf (tables : UnicodeTables) (scan : StoreScan E) (number : Nat) : List Text :=
  scan.stems.filter fun stem => extractDecisionNumber tables stem == some number

/-- `_index_by_num`: the first decision of a number. -/
def byNum (parsed : List (Decision E)) (number : Nat) : Option (Decision E) :=
  parsed.find? fun d => d.num == number

/-- `int(raw)` of a reference that is set. -/
def refNumber (ref : Option Text) : Option Nat :=
  ref.bind number?

/-- `sorted` by a key of numbers. -/
def sortByKey {α : Type} (key : α → List Nat) (rows : List α) : List α :=
  rows.insertionSort fun a b => key a ≤ key b

def sortNumbers (numbers : List Nat) : List Nat :=
  numbers.insertionSort fun a b => a ≤ b

def sortTexts (texts : List Text) : List Text :=
  texts.insertionSort fun a b => textLe a b = true

@[simp] theorem mem_sortByKey {α : Type} {key : α → List Nat} {rows : List α} {row : α} :
    row ∈ sortByKey key rows ↔ row ∈ rows :=
  (List.perm_insertionSort _ rows).mem_iff

@[simp] theorem mem_sortNumbers {numbers : List Nat} {n : Nat} :
    n ∈ sortNumbers numbers ↔ n ∈ numbers :=
  (List.perm_insertionSort _ numbers).mem_iff

@[simp] theorem mem_sortTexts {texts : List Text} {text : Text} :
    text ∈ sortTexts texts ↔ text ∈ texts :=
  (List.perm_insertionSort _ texts).mem_iff

/-! ## Findings -/

inductive RefField where
  | supersedes
  | supersededBy
deriving DecidableEq

def RefField.value (field : RefField) (d : Decision E) : Option Text :=
  match field with
  | .supersedes => d.supersedes
  | .supersededBy => d.supersededBy

/-- The place of `superseded_by` and `supersedes` in the order of their names. -/
def RefField.rank : RefField → Nat
  | .supersededBy => 0
  | .supersedes => 1

structure DanglingRef where
  source : Nat
  field : RefField
  target : Nat
deriving DecidableEq

inductive StatusContradiction where
  | activeWithSupersededBy (decision other : Nat)
  | forwardBackConflict (decision other conflictingWith : Nat)
deriving DecidableEq

def StatusContradiction.key : StatusContradiction → List Nat
  | .activeWithSupersededBy decision other => [0, decision, other, 0]
  | .forwardBackConflict decision other conflictingWith => [1, decision, other, conflictingWith]

structure SupersedeOrphan where
  child : Nat
  target : Nat
deriving DecidableEq

structure DuplicateDecisionNumber where
  number : Nat
  stems : List Text
deriving DecidableEq

structure DecisionFileCarrier where
  number : Nat
  stem : Text
deriving DecidableEq

structure DuplicateActiveTitle where
  normalizedTitle : Text
  carriers : List DecisionFileCarrier
deriving DecidableEq

structure UnknownFrontmatterKeys where
  number : Nat
  keys : List Text
deriving DecidableEq

structure StoreDiagnosis where
  unparseable : List ParseFailure
  danglingRefs : List DanglingRef
  /-- The members of each cycle, sorted. -/
  cycles : List (List Nat)
  contradictions : List StatusContradiction
  duplicateNumbers : List DuplicateDecisionNumber
  duplicateActiveTitles : List DuplicateActiveTitle
  supersedeOrphans : List SupersedeOrphan
  unknownFrontmatterKeys : List UnknownFrontmatterKeys

/-- `is_clean`: no blocking finding. -/
def StoreDiagnosis.isClean (d : StoreDiagnosis) : Bool :=
  d.unparseable.isEmpty && d.danglingRefs.isEmpty && d.cycles.isEmpty &&
    d.contradictions.isEmpty && d.duplicateNumbers.isEmpty && d.duplicateActiveTitles.isEmpty

/-- `has_repairable_defects`. -/
def StoreDiagnosis.hasRepairableDefects (d : StoreDiagnosis) : Bool :=
  !d.supersedeOrphans.isEmpty

/-! ## The checks -/

/-- `_duplicate_numbers`. -/
def duplicateNumbers (tables : UnicodeTables) (scan : StoreScan E) :
    List DuplicateDecisionNumber :=
  (sortNumbers (scan.numbers tables).dedup).filterMap fun number =>
    let carriers := scan.stemsOf tables number
    if 1 < carriers.length then some ⟨number, sortTexts carriers⟩ else none

def carrierLe (a b : DecisionFileCarrier) : Bool :=
  a.number < b.number || (a.number == b.number && textLe a.stem b.stem)

/-- The active carriers of a normalized title. -/
def titleCarriers (tables : UnicodeTables) (records : List (ScannedDecision E)) (title : Text) :
    List DecisionFileCarrier :=
  (records.filter fun record => record.decision.status == .active &&
    normalizeTitle tables record.decision.title == title).map fun record =>
      ⟨record.decision.num, record.stem⟩

/-- `_duplicate_active_titles`. -/
def duplicateActiveTitles (tables : UnicodeTables) (records : List (ScannedDecision E)) :
    List DuplicateActiveTitle :=
  let active := records.filter fun record => record.decision.status == .active
  let titles := (active.map fun record => normalizeTitle tables record.decision.title).dedup
  (sortTexts titles).filterMap fun title =>
    let carriers := titleCarriers tables records title
    if 1 < carriers.length then
      some ⟨title, carriers.insertionSort fun a b => carrierLe a b = true⟩
    else none

theorem mem_duplicateActiveTitles {tables : UnicodeTables} {records : List (ScannedDecision E)}
    {row : DuplicateActiveTitle} :
    row ∈ duplicateActiveTitles tables records ↔
      1 < (titleCarriers tables records row.normalizedTitle).length ∧
        row.carriers = (titleCarriers tables records row.normalizedTitle).insertionSort
          fun a b => carrierLe a b = true := by
  have htitle : 0 < (titleCarriers tables records row.normalizedTitle).length →
      row.normalizedTitle ∈ (records.filter fun record => record.decision.status == .active).map
        fun record => normalizeTitle tables record.decision.title := by
    intro hpos
    obtain ⟨carrier, hcarrier⟩ := List.exists_mem_of_length_pos hpos
    obtain ⟨record, hrecord, -⟩ := List.mem_map.mp hcarrier
    obtain ⟨hin, hboth⟩ := List.mem_filter.mp hrecord
    obtain ⟨hactive, hsame⟩ := Bool.and_eq_true_iff.mp hboth
    exact List.mem_map.mpr ⟨record, List.mem_filter.mpr ⟨hin, hactive⟩, beq_iff_eq.mp hsame⟩
  simp only [duplicateActiveTitles, List.mem_filterMap, mem_sortTexts, List.mem_dedup]
  constructor
  · rintro ⟨title, -, hrow⟩
    split_ifs at hrow with hmany
    cases hrow
    exact ⟨hmany, rfl⟩
  · rintro ⟨hmany, hcarriers⟩
    refine ⟨row.normalizedTitle, htitle (Nat.zero_lt_of_lt hmany), ?_⟩
    rw [if_pos hmany, ← hcarriers]

/-- `_unknown_frontmatter_keys`. -/
def unknownFrontmatterKeys (parsed : List (Decision E)) : List UnknownFrontmatterKeys :=
  sortByKey (fun row => [row.number]) (parsed.filterMap fun d =>
    if d.extra.entries = [] then none
    else some ⟨d.num, sortTexts (d.extra.entries.map Prod.fst)⟩)

/-- The dangling references of one decision. -/
def Decision.danglingRefs (existing : List Nat) (d : Decision E) : List DanglingRef :=
  [RefField.supersedes, .supersededBy].filterMap fun field =>
    (refNumber (field.value d)).bind fun target =>
      if target ∈ existing then none else some ⟨d.num, field, target⟩

/-- `_dangling_refs`. -/
def danglingRefs (parsed : List (Decision E)) (existing : List Nat) : List DanglingRef :=
  sortByKey (fun row => [row.source, row.field.rank, row.target])
    (parsed.flatMap (Decision.danglingRefs existing))

/-- The edges of one decision, each from the newer decision to the older one. -/
def Decision.edges (d : Decision E) : List (Nat × Nat) :=
  ((refNumber d.supersedes).map fun older => (d.num, older)).toList ++
    ((refNumber d.supersededBy).map fun newer => (newer, d.num)).toList

def supersessionEdges (parsed : List (Decision E)) : List (Nat × Nat) :=
  parsed.flatMap Decision.edges

/-- `sorted(adjacency.get(node, ()))`. -/
def edgeTargets (edges : List (Nat × Nat)) (node : Nat) : List Nat :=
  sortNumbers ((edges.filter fun edge => edge.1 == node).map Prod.snd).dedup

/-- `sorted(adjacency)`. -/
def edgeSources (edges : List (Nat × Nat)) : List Nat :=
  sortNumbers (edges.map Prod.fst).dedup

/-- The sorted members of a component, when it is a cycle: a single node has to reach itself. -/
def cycleMembers (edges : List (Nat × Nat)) (component : List Nat) : Option (List Nat) :=
  match component with
  | [node] => if node ∈ edgeTargets edges node then some [node] else none
  | members => some (sortNumbers members)

/-- The cycles of a set of edges. -/
def edgeCycles (edges : List (Nat × Nat)) : List (List Nat) :=
  sortByKey id ((StrongComponents.components (edgeTargets edges) (edgeSources edges)).filterMap
    (cycleMembers edges))

/-- `_cycles`. -/
def supersessionCycles (parsed : List (Decision E)) : List (List Nat) :=
  edgeCycles (supersessionEdges parsed)

/-- The conflict of a decision with the backref of the decision it supersedes. -/
def forwardBackConflict (parsed : List (Decision E)) (existing : List Nat) (d : Decision E) :
    Option StatusContradiction := do
  let older ← refNumber d.supersedes
  let target ← byNum parsed older
  let claimed ← refNumber target.supersededBy
  if claimed ∈ existing ∧ claimed ≠ d.num then
    some (.forwardBackConflict d.num target.num claimed)
  else none

theorem forwardBackConflict_eq_some_iff {parsed : List (Decision E)} {existing : List Nat}
    {d : Decision E} {row : StatusContradiction} :
    forwardBackConflict parsed existing d = some row ↔
      ∃ older target claimed, refNumber d.supersedes = some older ∧
        byNum parsed older = some target ∧ refNumber target.supersededBy = some claimed ∧
        claimed ∈ existing ∧ claimed ≠ d.num ∧
        row = .forwardBackConflict d.num target.num claimed := by
  simp only [forwardBackConflict, Option.bind_eq_bind, Option.bind_eq_some_iff]
  constructor
  · rintro ⟨older, href, target, hfound, claimed, hclaimed, hrow⟩
    split_ifs at hrow with hconflict
    exact ⟨older, target, claimed, href, hfound, hclaimed, hconflict.1, hconflict.2,
      (Option.some.inj hrow).symm⟩
  · rintro ⟨older, target, claimed, href, hfound, hclaimed, hin, hne, rfl⟩
    exact ⟨older, href, target, hfound, claimed, hclaimed, if_pos ⟨hin, hne⟩⟩

def activeWithSupersededBy (d : Decision E) : Option StatusContradiction :=
  if d.status = .active then
    (refNumber d.supersededBy).map fun other => .activeWithSupersededBy d.num other
  else none

/-- `_contradictions`. -/
def statusContradictions (parsed : List (Decision E)) (existing : List Nat) :
    List StatusContradiction :=
  sortByKey StatusContradiction.key (parsed.flatMap fun d =>
    (activeWithSupersededBy d).toList ++ (forwardBackConflict parsed existing d).toList)

/-- The orphan that a decision makes as a child. -/
def orphanOf? (parsed : List (Decision E)) (numbers : List Nat) (cycles : List (List Nat))
    (d : Decision E) : Option SupersedeOrphan := do
  let number ← if d.status = .active then refNumber d.supersedes else none
  if number = d.num ∨ numbers.count d.num ≠ 1 ∨ numbers.count number ≠ 1 ∨
      d.num ∈ cycles.flatten ∨ number ∈ cycles.flatten then none
  else
    let target ← byNum parsed number
    if target.status ≠ .active ∨ target.supersededBy ≠ none then none
    else some ⟨d.num, number⟩

/-- What makes an orphan: an active child, and a target that is active and carries no backref. -/
theorem orphanOf?_eq_some_iff {parsed : List (Decision E)} {numbers : List Nat}
    {cycles : List (List Nat)} {d : Decision E} {row : SupersedeOrphan} :
    orphanOf? parsed numbers cycles d = some row ↔
      row.child = d.num ∧ d.status = .active ∧ refNumber d.supersedes = some row.target ∧
        row.target ≠ d.num ∧ numbers.count d.num = 1 ∧ numbers.count row.target = 1 ∧
        d.num ∉ cycles.flatten ∧ row.target ∉ cycles.flatten ∧
        ∃ target, byNum parsed row.target = some target ∧ target.status = .active ∧
          target.supersededBy = none := by
  have hone : ∀ {a b : Nat}, (⟨a, b⟩ : SupersedeOrphan) = row ↔ row.child = a ∧ row.target = b := by
    intro a b
    constructor
    · rintro rfl
      exact ⟨rfl, rfl⟩
    · rintro ⟨rfl, rfl⟩
      rfl
  unfold orphanOf?
  by_cases hactive : d.status = .active
  · cases href : refNumber d.supersedes with
    | none => simp [hactive]
    | some number =>
        by_cases hblocked : number = d.num ∨ numbers.count d.num ≠ 1 ∨
            numbers.count number ≠ 1 ∨ d.num ∈ cycles.flatten ∨ number ∈ cycles.flatten
        · simp only [hactive, if_true, Option.bind_eq_bind, Option.bind_some, if_pos hblocked,
            reduceCtorEq, false_iff]
          rintro ⟨-, -, hnumber, hself, hchild, htarget, hcycle, hcycle', -⟩
          obtain rfl := Option.some.inj hnumber
          rcases hblocked with h | h | h | h | h
          · exact hself h
          · exact h hchild
          · exact h htarget
          · exact hcycle h
          · exact hcycle' h
        · have hfree := hblocked
          simp only [not_or, not_not] at hfree
          obtain ⟨hself, hchild, htarget, hcycle, hcycle'⟩ := hfree
          simp only [hactive, if_true, Option.bind_eq_bind, Option.bind_some, if_neg hblocked,
            Option.bind_eq_some_iff, Option.some.injEq]
          constructor
          · rintro ⟨target, hfound, hrow⟩
            split_ifs at hrow with hclaimed
            obtain ⟨hnum, rfl⟩ := hone.mp (Option.some.inj hrow)
            simp only [not_or, not_not] at hclaimed
            exact ⟨hnum, trivial, rfl, hself, hchild, htarget, hcycle, hcycle', target, hfound,
              hclaimed⟩
          · rintro ⟨hnum, -, rfl, -, -, -, -, -, target, hfound, hopen⟩
            refine ⟨target, hfound, ?_⟩
            rw [if_neg (by simp only [not_or, not_not]; exact hopen)]
            exact congrArg some (hone.mpr ⟨hnum, rfl⟩)
  · simp [hactive]

/-- `_supersede_orphans`. -/
def supersedeOrphans (parsed : List (Decision E)) (numbers : List Nat)
    (cycles : List (List Nat)) : List SupersedeOrphan :=
  sortByKey (fun row => [row.child, row.target])
    (parsed.filterMap (orphanOf? parsed numbers cycles))

/-! ## The diagnosis -/

/-- The diagnosis of a scan. -/
def diagnoseScan (tables : UnicodeTables) (scan : StoreScan E) : StoreDiagnosis :=
  let numbers := scan.numbers tables
  let cycles := supersessionCycles scan.parsed
  { unparseable := scan.failures.insertionSort fun a b => textLe a.stem b.stem = true
    danglingRefs := danglingRefs scan.parsed numbers
    cycles
    contradictions := statusContradictions scan.parsed numbers
    duplicateNumbers := duplicateNumbers tables scan
    duplicateActiveTitles := duplicateActiveTitles tables scan.records
    supersedeOrphans := supersedeOrphans scan.parsed numbers cycles
    unknownFrontmatterKeys := unknownFrontmatterKeys scan.parsed }

/-- `diagnose_store`. -/
def diagnoseStore (rt : Runtime E) (store : Store) : StoreDiagnosis :=
  diagnoseScan rt.tables (scanStore rt store)

end Core
end Nauro
