import Mathlib.Data.Char
import Mathlib.Data.Prod.Lex
import Nauro.Core.GraphComponents
import Nauro.Core.QuestionContext
import Nauro.Core.ReferenceScan

/-!
# The payload of the decision graph

`build_graph_payload` keeps one record of each number, the first one in a sort by number, title,
date, status, confidence and body. Records that tie on all of these stay in the order they came in,
and may still differ in their type and in the decisions they refer to.

* `payload_ignores_order_iff` — the payload is the same for every order of the records if and only if
  the records that tie say the same.
-/

namespace Nauro
namespace Core

open Foundation Questions

variable {E : Type}

/-! ## Nodes -/

/-- `_SCAFFOLD_SEED_TITLE`. -/
def scaffoldSeedTitle : Text := "Initial project setup".toList

/-- `is_scaffold_seed`. -/
def isScaffoldSeed (d : Decision E) : Bool :=
  d.num == 1 && d.title == scaffoldSeedTitle

/-- The decisions but for the scaffold seed. -/
def graphRecords (decisions : List (Decision E)) : List (Decision E) :=
  decisions.filter fun d => !isScaffoldSeed d

abbrev NodeKey := Nat ×ₗ Text ×ₗ Text ×ₗ Text ×ₗ Text ×ₗ Text

/-- The sort key of a record. -/
def nodeKey (d : Decision E) : NodeKey :=
  toLex (d.num, toLex (d.title, toLex (d.date.isoformat, toLex (Token.value d.status,
    toLex (Token.value d.confidence, d.body)))))

def sortNodes (records : List (Decision E)) : List (Decision E) :=
  records.insertionSort fun a b => nodeKey a ≤ nodeKey b

structure CollectedNodes (E : Type) where
  kept : List (Decision E)
  duplicateNumbers : List Nat

def CollectedNodes.numbers (c : CollectedNodes E) : List Nat :=
  c.kept.map Decision.num

/-- One round of the loop; the numbers seen are those of the records that are kept. -/
def CollectedNodes.add (c : CollectedNodes E) (d : Decision E) : CollectedNodes E :=
  if d.num ∈ c.numbers then
    if d.num ∈ c.duplicateNumbers then c
    else { c with duplicateNumbers := c.duplicateNumbers ++ [d.num] }
  else { c with kept := c.kept ++ [d] }

/-- `_collect_nodes`. -/
def collectNodes (decisions : List (Decision E)) : CollectedNodes E :=
  (sortNodes (graphRecords decisions)).foldl CollectedNodes.add ⟨[], []⟩

structure GraphNode where
  number : Nat
  title : Text
  status : Text
  decisionType : Option Text
  confidence : Text
  date : Text
  body : Option Text
deriving DecidableEq

/-- `_node_dict`. -/
def nodeDict (includeBodies : Bool) (d : Decision E) : GraphNode where
  number := d.num
  title := d.title
  status := Token.value d.status
  decisionType := d.decisionType.map Token.value
  confidence := Token.value d.confidence
  date := d.date.isoformat
  body := if includeBodies then some d.body else none

/-! ## Edges -/

/-- `sorted` of a set of pairs. -/
def sortedPairs (pairs : List GraphEdge) : List GraphEdge :=
  sortEdges pairs.dedup

/-- The edges that the references of a record yield. -/
def supersessionPairs (nodeNumbers : List Nat) (d : Decision E) : List GraphEdge :=
  ((refNumber d.supersedes).toList.filter fun target =>
      target ∈ nodeNumbers ∧ target ≠ d.num).map (GraphEdge.mk d.num) ++
    ((refNumber d.supersededBy).toList.filter fun newer =>
      newer ∈ nodeNumbers ∧ newer ≠ d.num).map fun newer => ⟨newer, d.num⟩

/-- `_collect_supersession_edges`. -/
def collectSupersessionEdges (c : CollectedNodes E) : List GraphEdge :=
  sortedPairs (c.kept.flatMap (supersessionPairs c.numbers))

/-- The citations of one record. -/
def citedPairs (tables : UnicodeTables) (nodeNumbers : List Nat) (maxNumber : Nat)
    (supersession : List GraphEdge) (num : Nat) (body : Text) :
    Except ScanFailure (List GraphEdge) := do
  let cited ← scanDecisionReferences tables body maxNumber
  pure ((cited.filter fun target => target ≠ num ∧ target ∈ nodeNumbers ∧
    ⟨num, target⟩ ∉ supersession ∧ ⟨target, num⟩ ∉ supersession).map (GraphEdge.mk num))

/-- `_scan_citation_pairs`. -/
def scanCitationPairs (tables : UnicodeTables) (c : CollectedNodes E) (maxNumber : Nat)
    (supersession : List GraphEdge) : Except ScanFailure (List GraphEdge) := do
  let pairs ← c.kept.mapM fun d =>
    citedPairs tables c.numbers maxNumber supersession d.num d.body
  pure (sortedPairs pairs.flatten)

/-! ## Open questions -/

/-- `_SENTENCE_ABBREVIATIONS`. -/
def sentenceAbbreviations : List Text :=
  ["e.g".toList, "i.e".toList, "vs".toList, "etc".toList, "cf".toList]

/-- `_ends_with_abbreviation`, on the text before the period. -/
def endsWithAbbreviation (tables : UnicodeTables) (isAlpha : Char → Bool) (before : Text) : Bool :=
  let token := lower tables (before.rtakeWhile fun c => !isSpace c)
  decide (token ∈ sentenceAbbreviations) || (token.length == 1 && token.all isAlpha)

/-- `first_sentence_end`, with what is read so far. -/
def firstSentenceEnd (tables : UnicodeTables) (isAlpha : Char → Bool) (before : Text) :
    Text → Nat
  | [] => before.length
  | c :: rest =>
      if (c == '.' || c == '!' || c == '?') && rest.head?.all isSpace &&
          !(c == '.' && endsWithAbbreviation tables isAlpha before) then
        before.length + 1
      else firstSentenceEnd tables isAlpha (before ++ [c]) rest

/-- `_cap_to_first_unit`. -/
def capToFirstUnit (tables : UnicodeTables) (isAlpha : Char → Bool) (body : Text) : Text :=
  let text := strip body
  rstrip (text.take (min (text.takeWhile (· != '\n')).length
    (firstSentenceEnd tables isAlpha [] text)))

structure GraphOpenQuestion where
  id : Text
  body : Text
  references : List Nat
deriving DecidableEq

/-- The text of an entry that is scanned. -/
def fullBody (entry : QuestionEntry) : Text :=
  joinLines (entry.body :: entry.continuation)

/-- `genuine_open_entries`; no file has none. -/
def genuineOpenEntries (questions : Option OpenQuestionsFile) : List QuestionEntry :=
  questions.toList.flatMap fun file => file.entries.filter QuestionEntry.isGenuineOpen

/-- `_filter_open_questions`. -/
def filterOpenQuestions (tables : UnicodeTables) (isAlpha : Char → Bool)
    (questions : Option OpenQuestionsFile) (nodeNumbers : List Nat) (maxNumber : Nat) :
    Except ScanFailure (List GraphOpenQuestion) :=
  (genuineOpenEntries questions).mapM fun entry => do
    let cited ← scanDecisionReferences tables (fullBody entry) maxNumber
    pure { id := entry.id
           body := capToFirstUnit tables isAlpha entry.body
           references := sortNumbers (cited.dedup.filter (· ∈ nodeNumbers)) }

/-! ## The payload -/

structure GraphStats where
  isolatedNodeCount : Nat
  supersessionEdgeCount : Nat
  citationEdgeCount : Nat
  componentCount : Nat
  branchPointCount : Nat
  duplicateNumbers : List Nat
deriving DecidableEq

structure GraphPayload where
  payloadVersion : Nat
  project : Text
  decisionCount : Nat
  maxDecisionNumber : Nat
  nodes : List GraphNode
  supersessionEdges : List GraphEdge
  citationEdges : List GraphEdge
  components : List GraphComponent
  openQuestions : List GraphOpenQuestion
  stats : GraphStats
deriving DecidableEq

/-- `GRAPH_PAYLOAD_VERSION`. -/
def graphPayloadVersion : Nat := 2

/-- `max(node_numbers) if node_numbers else 0`. -/
def maxNumber (numbers : List Nat) : Nat :=
  numbers.foldr max 0

/-- What the payload is built with: the character tables, the order of sets, and the arguments other
than the decisions. -/
structure GraphContext where
  tables : UnicodeTables
  /-- `str.isalpha` of a character. -/
  isAlpha : Char → Bool
  order : SetOrder
  questions : Option OpenQuestionsFile
  project : Text
  includeBodies : Bool

/-- `build_graph_payload`. -/
def buildGraphPayload (ctx : GraphContext) (decisions : List (Decision E)) :
    Except ScanFailure GraphPayload := do
  let collected := collectNodes decisions
  let maxDecisionNumber := maxNumber collected.numbers
  let supersessionEdges := collectSupersessionEdges collected
  let citationEdges ← scanCitationPairs ctx.tables collected maxDecisionNumber supersessionEdges
  let openQuestions ← filterOpenQuestions ctx.tables ctx.isAlpha ctx.questions collected.numbers
    maxDecisionNumber
  let built := buildComponents ctx.order supersessionEdges
  pure {
    payloadVersion := graphPayloadVersion
    project := ctx.project
    decisionCount := collected.kept.length
    maxDecisionNumber
    nodes := collected.kept.map (nodeDict ctx.includeBodies)
    supersessionEdges
    citationEdges
    components := built.components
    openQuestions
    stats := {
      isolatedNodeCount := isolatedNodeCount collected.numbers built.incident
      supersessionEdgeCount := supersessionEdges.length
      citationEdgeCount := citationEdges.length
      componentCount := built.components.length
      branchPointCount := built.branchPointCount
      duplicateNumbers := collected.duplicateNumbers } }

/-! ## Sorting and keeping -/

theorem pairwise_sortNodes (records : List (Decision E)) :
    (sortNodes records).Pairwise fun a b => nodeKey a ≤ nodeKey b := by
  have : Std.Total fun a b : Decision E => nodeKey a ≤ nodeKey b := ⟨fun a b => le_total _ _⟩
  have : IsTrans (Decision E) fun a b => nodeKey a ≤ nodeKey b := ⟨fun _ _ _ => le_trans⟩
  exact List.pairwise_insertionSort _ records

theorem eq_of_nodeKey {a b : Decision E} (h : nodeKey a = nodeKey b) :
    a.num = b.num ∧ a.title = b.title ∧ a.date.isoformat = b.date.isoformat ∧
      Token.value a.status = Token.value b.status ∧
      Token.value a.confidence = Token.value b.confidence ∧ a.body = b.body := by
  simpa [nodeKey, toLex_inj] using h

/-- Sorted records have the keys that their number of occurrences determines. -/
theorem map_nodeKey_sortNodes {records records' : List (Decision E)}
    (h : records'.Perm records) :
    (sortNodes records').map nodeKey = (sortNodes records).map nodeKey := by
  have hsorted (rs : List (Decision E)) : ((sortNodes rs).map nodeKey).Pairwise (· ≤ ·) :=
    List.pairwise_map.mpr (pairwise_sortNodes rs)
  have hperm : ((sortNodes records').map nodeKey).Perm ((sortNodes records).map nodeKey) :=
    (((List.perm_insertionSort _ _).trans h).trans (List.perm_insertionSort _ _).symm).map _
  exact hperm.eq_of_pairwise' (hsorted _) (hsorted _)

/-- Collections that show the same: equal keys, in order, and equal duplicates. -/
def SameKeys (c c' : CollectedNodes E) : Prop :=
  c.kept.map nodeKey = c'.kept.map nodeKey ∧ c.duplicateNumbers = c'.duplicateNumbers

theorem SameKeys.numbers {c c' : CollectedNodes E} (h : SameKeys c c') :
    c.numbers = c'.numbers := by
  have hnums (ds : List (Decision E)) :
      ds.map Decision.num = (ds.map nodeKey).map fun k => (ofLex k).1 := by
    rw [List.map_map]
    rfl
  rw [CollectedNodes.numbers, CollectedNodes.numbers, hnums, hnums, h.1]

theorem SameKeys.add {c c' : CollectedNodes E} (h : SameKeys c c') {d d' : Decision E}
    (hd : nodeKey d = nodeKey d') : SameKeys (c.add d) (c'.add d') := by
  unfold CollectedNodes.add
  rw [h.numbers, h.2, (eq_of_nodeKey hd).1]
  split_ifs
  · exact h
  · exact ⟨h.1, rfl⟩
  · exact ⟨by simp [h.1, hd], rfl⟩

theorem SameKeys.foldl {records records' : List (Decision E)}
    (h : records.map nodeKey = records'.map nodeKey) {c c' : CollectedNodes E}
    (hc : SameKeys c c') : SameKeys (records.foldl .add c) (records'.foldl .add c') := by
  induction records generalizing records' c c' with
  | nil =>
      rw [List.map_nil, eq_comm, List.map_eq_nil_iff] at h
      rw [h]
      exact hc
  | cons d rest ih =>
      cases records' with
      | nil => simp at h
      | cons d' rest' =>
          rw [List.map_cons, List.map_cons, List.cons.injEq] at h
          exact ih h.2 (hc.add h.1)

/-- Whatever the order of the decisions, the nodes have the same keys. -/
theorem collectNodes_sameKeys {ds ds' : List (Decision E)} (h : ds'.Perm ds) :
    SameKeys (collectNodes ds') (collectNodes ds) :=
  SameKeys.foldl (map_nodeKey_sortNodes (h.filter _)) ⟨rfl, rfl⟩

theorem CollectedNodes.kept_add (c : CollectedNodes E) (d : Decision E) :
    (c.add d).kept = if d.num ∈ c.numbers then c.kept else c.kept ++ [d] := by
  unfold CollectedNodes.add
  split_ifs <;> rfl

/-- A record is kept if it is the first of its number. -/
theorem mem_kept_foldl {records : List (Decision E)} {c : CollectedNodes E} {d : Decision E} :
    d ∈ (records.foldl .add c).kept ↔
      d ∈ c.kept ∨ d.num ∉ c.numbers ∧ records.find? (·.num == d.num) = some d := by
  induction records generalizing c with
  | nil => simp
  | cons a rest ih =>
      have hnumbers : (c.add a).numbers =
          if a.num ∈ c.numbers then c.numbers else c.numbers ++ [a.num] := by
        rw [CollectedNodes.numbers, CollectedNodes.kept_add]
        split_ifs
        · rfl
        · exact List.map_append
      rw [List.foldl_cons, ih, hnumbers, CollectedNodes.kept_add, List.find?_cons]
      by_cases hnum : a.num = d.num
      · rw [beq_iff_eq.mpr hnum, hnum]
        split_ifs with hseen
        · simp [hseen]
        · simp [hseen, eq_comm]
      · have hne : d ≠ a := fun h => hnum (h ▸ rfl)
        rw [beq_false_of_ne hnum]
        split_ifs
        · rfl
        · simp [hne, Ne.symm hnum]

theorem mem_kept_iff {ds : List (Decision E)} {d : Decision E} :
    d ∈ (collectNodes ds).kept ↔
      (sortNodes (graphRecords ds)).find? (·.num == d.num) = some d := by
  rw [collectNodes, mem_kept_foldl]
  simp [CollectedNodes.numbers]

theorem kept_unique {ds : List (Decision E)} {a b : Decision E}
    (ha : a ∈ (collectNodes ds).kept) (hb : b ∈ (collectNodes ds).kept) (h : a.num = b.num) :
    a = b := by
  rw [mem_kept_iff] at ha hb
  rw [h] at ha
  exact Option.some_injective _ (ha.symm.trans hb)

/-! ## The records that may be kept -/

/-- A record with the least key of its number. -/
def LeastRecord (ds : List (Decision E)) (d : Decision E) : Prop :=
  d ∈ graphRecords ds ∧ ∀ e ∈ graphRecords ds, e.num = d.num → nodeKey d ≤ nodeKey e

theorem LeastRecord.of_perm {ds ds' : List (Decision E)} (h : ds'.Perm ds) {d : Decision E} :
    LeastRecord ds' d ↔ LeastRecord ds d := by
  have hmem (e : Decision E) : e ∈ graphRecords ds' ↔ e ∈ graphRecords ds := (h.filter _).mem_iff
  simp only [LeastRecord, hmem]

theorem mem_sortNodes {records : List (Decision E)} {d : Decision E} :
    d ∈ sortNodes records ↔ d ∈ records :=
  (List.perm_insertionSort _ records).mem_iff

theorem least_of_kept {ds : List (Decision E)} {d : Decision E}
    (h : d ∈ (collectNodes ds).kept) : LeastRecord ds d := by
  rw [mem_kept_iff, List.find?_eq_some_iff_append] at h
  obtain ⟨-, before, after, hsplit, hbefore⟩ := h
  have hsorted := pairwise_sortNodes (graphRecords ds)
  have hin : d ∈ sortNodes (graphRecords ds) := by simp [hsplit]
  refine ⟨mem_sortNodes.mp hin, fun e he hnum => ?_⟩
  rw [← mem_sortNodes, hsplit, List.mem_append, List.mem_cons] at he
  rw [hsplit, List.pairwise_append, List.pairwise_cons] at hsorted
  rcases he with he | rfl | he
  · have := hbefore e he
    simp [hnum] at this
  · exact le_rfl
  · exact hsorted.2.1.1 e he

/-- The kept record of a number that some record has. -/
theorem exists_kept {ds : List (Decision E)} {d : Decision E} (h : d ∈ graphRecords ds) :
    ∃ kept ∈ (collectNodes ds).kept, kept.num = d.num := by
  obtain ⟨kept, hkept⟩ : ∃ kept,
      (sortNodes (graphRecords ds)).find? (·.num == d.num) = some kept := by
    rw [← Option.isSome_iff_exists, List.find?_isSome]
    exact ⟨d, mem_sortNodes.mpr h, beq_self_eq_true _⟩
  have hfound := List.find?_some hkept
  have hnum : kept.num = d.num := beq_iff_eq.mp hfound
  exact ⟨kept, mem_kept_iff.mpr (hnum ▸ hkept), hnum⟩

theorem mem_numbers_iff {ds : List (Decision E)} {n : Nat} :
    n ∈ (collectNodes ds).numbers ↔ n ∈ (graphRecords ds).map Decision.num := by
  rw [CollectedNodes.numbers, List.mem_map, List.mem_map]
  constructor
  · rintro ⟨d, hd, rfl⟩
    exact ⟨d, (least_of_kept hd).1, rfl⟩
  · rintro ⟨d, hd, rfl⟩
    exact exists_kept hd

theorem find?_orderedInsert_self {d : Decision E} {records : List (Decision E)}
    (h : ∀ e ∈ records, e.num = d.num → nodeKey d ≤ nodeKey e) :
    (records.orderedInsert (fun a b => nodeKey a ≤ nodeKey b) d).find? (·.num == d.num) =
      some d := by
  induction records with
  | nil => simp
  | cons e rest ih =>
      rw [List.orderedInsert_cons]
      split_ifs with hle
      · simp
      · have hnum : (e.num == d.num) = false :=
          beq_false_of_ne fun hnum => hle (h e List.mem_cons_self hnum)
        rw [List.find?_cons, hnum]
        exact ih fun e' he' => h e' (List.mem_cons_of_mem e he')

theorem find?_orderedInsert_of_ne {n : Nat} {d : Decision E} (h : d.num ≠ n)
    (records : List (Decision E)) :
    (records.orderedInsert (fun a b => nodeKey a ≤ nodeKey b) d).find? (·.num == n) =
      records.find? (·.num == n) := by
  have hd : (d.num == n) = false := beq_false_of_ne h
  induction records with
  | nil => simp [hd]
  | cons e rest ih =>
      rw [List.orderedInsert_cons]
      split_ifs
      · rw [List.find?_cons, hd]
      · rw [List.find?_cons, List.find?_cons, ih]

/-- A least record is kept when it comes first. -/
theorem kept_of_first {ds rest : List (Decision E)} {d : Decision E} (h : LeastRecord ds d)
    (hperm : (d :: rest).Perm ds) : d ∈ (collectNodes (d :: rest)).kept := by
  have hleast : LeastRecord (d :: rest) d := (LeastRecord.of_perm hperm).mpr h
  have hrecords : graphRecords (d :: rest) = d :: graphRecords rest :=
    List.filter_cons_of_pos (List.mem_filter.mp h.1).2
  rw [mem_kept_iff, hrecords, sortNodes, List.insertionSort_cons]
  refine find?_orderedInsert_self fun e he hnum => hleast.2 e ?_ hnum
  rw [hrecords]
  exact List.mem_cons_of_mem d (mem_sortNodes.mp he)

/-- Two least records of different numbers are kept when they come first. -/
theorem exists_perm_keeping {ds : List (Decision E)} {a b : Decision E}
    (ha : LeastRecord ds a) (hb : LeastRecord ds b) :
    ∃ ds', ds'.Perm ds ∧ a ∈ (collectNodes ds').kept ∧
      (a.num ≠ b.num → b ∈ (collectNodes ds').kept) := by
  obtain ⟨s, t, rfl⟩ := List.append_of_mem (List.mem_of_mem_filter ha.1)
  have hfirst : (a :: (s ++ t)).Perm (s ++ a :: t) := List.perm_middle.symm
  by_cases hab : a.num = b.num
  · exact ⟨_, hfirst, kept_of_first ha hfirst, fun h => absurd hab h⟩
  have hbin : b ∈ s ++ t := by
    have hin := hfirst.mem_iff.mpr (List.mem_of_mem_filter hb.1)
    rcases List.mem_cons.mp hin with rfl | hin
    · exact absurd rfl hab
    · exact hin
  obtain ⟨u, v, hsplit⟩ := List.append_of_mem hbin
  have hsecond : (a :: b :: (u ++ v)).Perm (s ++ a :: t) := by
    refine List.Perm.trans (List.Perm.cons a ?_) hfirst
    rw [hsplit]
    exact List.perm_middle.symm
  refine ⟨_, hsecond, kept_of_first ha hsecond, fun _ => ?_⟩
  have hleast : LeastRecord (a :: b :: (u ++ v)) b := (LeastRecord.of_perm hsecond).mpr hb
  have hrecords : graphRecords (a :: b :: (u ++ v)) = a :: b :: graphRecords (u ++ v) := by
    rw [graphRecords, List.filter_cons, if_pos (List.mem_filter.mp ha.1).2, List.filter_cons,
      if_pos (List.mem_filter.mp hb.1).2]
    rfl
  rw [mem_kept_iff, hrecords, sortNodes, List.insertionSort_cons, find?_orderedInsert_of_ne hab,
    List.insertionSort_cons]
  refine find?_orderedInsert_self fun e he hnum => hleast.2 e ?_ hnum
  rw [hrecords]
  exact List.mem_cons_of_mem a (List.mem_cons_of_mem b (mem_sortNodes.mp he))

/-! ## The edges -/

theorem mem_sortedPairs {pairs : List GraphEdge} {e : GraphEdge} :
    e ∈ sortedPairs pairs ↔ e ∈ pairs := by
  rw [sortedPairs, sortEdges, mem_sortByKey, List.mem_dedup]

theorem sortedPairs_congr {pairs pairs' : List GraphEdge} (h : ∀ e, e ∈ pairs ↔ e ∈ pairs') :
    sortedPairs pairs = sortedPairs pairs' := by
  have hperm : (sortedPairs pairs).Perm (sortedPairs pairs') :=
    ((List.perm_insertionSort _ _).trans ((List.perm_ext_iff_of_nodup (List.nodup_dedup _)
      (List.nodup_dedup _)).mpr fun e => by simp [h])).trans (List.perm_insertionSort _ _).symm
  have : Std.Antisymm fun a b : GraphEdge => [a.source, a.target] ≤ [b.source, b.target] :=
    ⟨fun a b hab hba => by
      have := le_antisymm hab hba
      cases a
      cases b
      simpa using this⟩
  have : Std.Total fun a b : GraphEdge => [a.source, a.target] ≤ [b.source, b.target] :=
    ⟨fun a b => le_total _ _⟩
  have : IsTrans GraphEdge fun a b => [a.source, a.target] ≤ [b.source, b.target] :=
    ⟨fun _ _ _ => le_trans⟩
  exact hperm.eq_of_pairwise' (List.pairwise_insertionSort _ _) (List.pairwise_insertionSort _ _)

/-- One of two records refers to the other: `newer` supersedes `older`. -/
def Retires (newer older : Decision E) : Prop :=
  refNumber newer.supersedes = some older.num ∨ refNumber older.supersededBy = some newer.num

/-- An edge joins two nodes of which one refers to the other. -/
theorem mem_collectSupersessionEdges {ds : List (Decision E)} {e : GraphEdge} :
    e ∈ collectSupersessionEdges (collectNodes ds) ↔
      ∃ newer ∈ (collectNodes ds).kept, ∃ older ∈ (collectNodes ds).kept,
        e = ⟨newer.num, older.num⟩ ∧ newer.num ≠ older.num ∧ Retires newer older := by
  have hnumbers (n : Nat) : n ∈ (collectNodes ds).numbers ↔
      ∃ d ∈ (collectNodes ds).kept, d.num = n := List.mem_map
  simp only [collectSupersessionEdges, mem_sortedPairs, List.mem_flatMap, supersessionPairs,
    List.mem_append, List.mem_map, List.mem_filter, Option.mem_toList, Option.mem_def,
    decide_eq_true_eq, hnumbers, Retires]
  constructor
  · rintro ⟨d, hd, ⟨_, ⟨href, ⟨other, hother, rfl⟩, hne⟩, rfl⟩ |
      ⟨_, ⟨href, ⟨other, hother, rfl⟩, hne⟩, rfl⟩⟩
    · exact ⟨d, hd, other, hother, rfl, Ne.symm hne, Or.inl href⟩
    · exact ⟨other, hother, d, hd, rfl, hne, Or.inr href⟩
  · rintro ⟨newer, hnewer, older, holder, rfl, hne, href | href⟩
    · exact ⟨newer, hnewer, Or.inl ⟨_, ⟨href, ⟨older, holder, rfl⟩, Ne.symm hne⟩, rfl⟩⟩
    · exact ⟨older, holder, Or.inr ⟨_, ⟨href, ⟨newer, hnewer, rfl⟩, hne⟩, rfl⟩⟩

/-! ## When the order does not matter -/

/-- The records that tie say the same: they have one type, and an edge that some of them yield is
yielded whichever of them are kept. -/
structure TiesSettled (ds : List (Decision E)) : Prop where
  types : ∀ a b, LeastRecord ds a → LeastRecord ds b → a.num = b.num →
    a.decisionType = b.decisionType
  edges : ∀ a b, LeastRecord ds a → LeastRecord ds b → a.num ≠ b.num → Retires a b →
    (∀ a', LeastRecord ds a' → a'.num = a.num → refNumber a'.supersedes = some b.num) ∨
    ∀ b', LeastRecord ds b' → b'.num = b.num → refNumber b'.supersededBy = some a.num

/-- No scan of a body or of an open question raises. -/
structure ScansReturn (ctx : GraphContext) (ds : List (Decision E)) : Prop where
  bodies : ∀ d, LeastRecord ds d → ∃ found, scanDecisionReferences ctx.tables d.body
    (maxNumber ((graphRecords ds).map Decision.num)) = .ok found
  questions : ∀ entry ∈ genuineOpenEntries ctx.questions, ∃ found,
    scanDecisionReferences ctx.tables (fullBody entry)
      (maxNumber ((graphRecords ds).map Decision.num)) = .ok found

theorem maxNumber_congr {numbers numbers' : List Nat} (h : ∀ n, n ∈ numbers ↔ n ∈ numbers') :
    maxNumber numbers = maxNumber numbers' := by
  have hle (ns : List Nat) (b : Nat) : maxNumber ns ≤ b ↔ ∀ n ∈ ns, n ≤ b := by
    induction ns with
    | nil => simp [maxNumber]
    | cons n ns ih => simpa [maxNumber] using fun _ => ih
  exact eq_of_forall_ge_iff fun b => by simp only [hle, h]

theorem scan_returns_iff {A B : Type} {scan : Except ScanFailure A} {f : A → B} :
    (∃ b, (do let a ← scan; pure (f a)) = .ok b) ↔ ∃ a, scan = .ok a := by
  constructor
  · rintro ⟨b, h⟩
    obtain ⟨a, ha, -⟩ := bind_eq_ok_iff.mp h
    exact ⟨a, ha⟩
  · rintro ⟨a, ha⟩
    exact ⟨f a, bind_eq_ok_iff.mpr ⟨a, ha, rfl⟩⟩

theorem mapM_returns_iff {A B : Type} {f : A → Except ScanFailure B} {xs : List A} :
    (∃ ys, xs.mapM f = .ok ys) ↔ ∀ x ∈ xs, ∃ y, f x = .ok y :=
  ⟨fun ⟨_, h⟩ x hx => ((mem_of_mapM_ok h).1 x hx).imp fun _ => And.right, exists_mapM_ok⟩

theorem scanCitationPairs_returns_iff {tables : UnicodeTables} {ds : List (Decision E)}
    {maxNumber : Nat} {supersession : List GraphEdge} :
    (∃ edges, scanCitationPairs tables (collectNodes ds) maxNumber supersession = .ok edges) ↔
      ∀ d, LeastRecord ds d →
        ∃ found, scanDecisionReferences tables d.body maxNumber = .ok found := by
  rw [scanCitationPairs, scan_returns_iff, mapM_returns_iff]
  simp only [citedPairs, scan_returns_iff]
  constructor
  · intro h d hd
    obtain ⟨kept, hkept, hnum⟩ := exists_kept hd.1
    have hleast : LeastRecord ds kept := least_of_kept hkept
    have hkey : nodeKey kept = nodeKey d :=
      le_antisymm (hleast.2 d hd.1 hnum.symm) (hd.2 kept hleast.1 hnum)
    exact (eq_of_nodeKey hkey).2.2.2.2.2 ▸ h kept hkept
  · exact fun h d hd => h d (least_of_kept hd)

theorem filterOpenQuestions_returns_iff {tables : UnicodeTables} {isAlpha : Char → Bool}
    {questions : Option OpenQuestionsFile} {numbers : List Nat} {maxNumber : Nat} :
    (∃ entries, filterOpenQuestions tables isAlpha questions numbers maxNumber = .ok entries) ↔
      ∀ entry ∈ genuineOpenEntries questions,
        ∃ found, scanDecisionReferences tables (fullBody entry) maxNumber = .ok found := by
  rw [filterOpenQuestions, mapM_returns_iff]
  simp only [scan_returns_iff]

/-- The payload is built if and only if no scan raises. -/
theorem buildGraphPayload_returns_iff {ctx : GraphContext} {ds : List (Decision E)} :
    (∃ payload, buildGraphPayload ctx ds = .ok payload) ↔ ScansReturn ctx ds := by
  have hmax : maxNumber (collectNodes ds).numbers =
      maxNumber ((graphRecords ds).map Decision.num) := maxNumber_congr fun _ => mem_numbers_iff
  constructor
  · rintro ⟨payload, h⟩
    obtain ⟨edges, hedges, h⟩ := bind_eq_ok_iff.mp h
    obtain ⟨entries, hentries, -⟩ := bind_eq_ok_iff.mp h
    exact ⟨hmax ▸ scanCitationPairs_returns_iff.mp ⟨edges, hedges⟩,
      hmax ▸ filterOpenQuestions_returns_iff.mp ⟨entries, hentries⟩⟩
  · rintro ⟨hbodies, hquestions⟩
    rw [← hmax] at hbodies hquestions
    obtain ⟨edges, hedges⟩ := scanCitationPairs_returns_iff.mpr hbodies
    obtain ⟨entries, hentries⟩ := filterOpenQuestions_returns_iff.mpr hquestions
    exact ⟨_, bind_eq_ok_iff.mpr ⟨edges, hedges, bind_eq_ok_iff.mpr ⟨entries, hentries, rfl⟩⟩⟩

/-- The parts of a payload that the records that tie may change. -/
theorem payload_parts {ctx : GraphContext} {ds : List (Decision E)} {payload : GraphPayload}
    (h : buildGraphPayload ctx ds = .ok payload) :
    payload.nodes = (collectNodes ds).kept.map (nodeDict ctx.includeBodies) ∧
      payload.supersessionEdges = collectSupersessionEdges (collectNodes ds) := by
  obtain ⟨edges, -, h⟩ := bind_eq_ok_iff.mp h
  obtain ⟨entries, -, h⟩ := bind_eq_ok_iff.mp h
  cases h
  exact ⟨rfl, rfl⟩

section Settled

variable {ds ds₁ ds₂ : List (Decision E)} (hsettled : TiesSettled ds) (h₁ : ds₁.Perm ds)
  (h₂ : ds₂.Perm ds)

include hsettled h₁ h₂

theorem TiesSettled.edge {e : GraphEdge}
    (h : e ∈ collectSupersessionEdges (collectNodes ds₁)) :
    e ∈ collectSupersessionEdges (collectNodes ds₂) := by
  obtain ⟨a, ha, b, hb, rfl, hne, hretires⟩ := mem_collectSupersessionEdges.mp h
  have hleast {d : Decision E} (hd : d ∈ (collectNodes ds₁).kept) : LeastRecord ds d :=
    (LeastRecord.of_perm h₁).mp (least_of_kept hd)
  have hother {d : Decision E} (hd : d ∈ (collectNodes ds₁).kept) :
      ∃ d' ∈ (collectNodes ds₂).kept, d'.num = d.num ∧ LeastRecord ds d' := by
    obtain ⟨d', hd', hnum⟩ := exists_kept (((h₂.symm.filter _).mem_iff).mp (hleast hd).1)
    exact ⟨d', hd', hnum, (LeastRecord.of_perm h₂).mp (least_of_kept hd')⟩
  obtain ⟨a', ha', hnuma, hleasta⟩ := hother ha
  obtain ⟨b', hb', hnumb, hleastb⟩ := hother hb
  rw [← hnuma, ← hnumb]
  refine mem_collectSupersessionEdges.mpr
    ⟨a', ha', b', hb', rfl, by rwa [hnuma, hnumb], ?_⟩
  rcases hsettled.edges a b (hleast ha) (hleast hb) hne hretires with hrefs | hrefs
  · exact Or.inl ((hrefs a' hleasta hnuma).trans (by rw [hnumb]))
  · exact Or.inr ((hrefs b' hleastb hnumb).trans (by rw [hnuma]))

theorem TiesSettled.nodes (includeBodies : Bool) :
    (collectNodes ds₁).kept.map (nodeDict includeBodies) =
      (collectNodes ds₂).kept.map (nodeDict includeBodies) := by
  have hkeys := (collectNodes_sameKeys (h₁.trans h₂.symm)).1
  have hlength : (collectNodes ds₁).kept.length = (collectNodes ds₂).kept.length := by
    simpa using congrArg List.length hkeys
  refine List.ext_getElem (by simpa using hlength) fun i hi hi' => ?_
  rw [List.length_map] at hi hi'
  rw [List.getElem_map, List.getElem_map]
  have hkey : nodeKey (collectNodes ds₁).kept[i] = nodeKey (collectNodes ds₂).kept[i] := by
    have := List.getElem_of_eq hkeys (i := i) (by simpa using hi)
    simpa using this
  obtain ⟨hnum, htitle, hdate, hstatus, hconfidence, hbody⟩ := eq_of_nodeKey hkey
  have htype := hsettled.types _ _
    ((LeastRecord.of_perm h₁).mp (least_of_kept (List.getElem_mem hi)))
    ((LeastRecord.of_perm h₂).mp (least_of_kept (List.getElem_mem hi'))) hnum
  simp only [nodeDict, hnum, htitle, hdate, hstatus, hconfidence, hbody, htype]

/-- With settled ties the build comes out the same, also where it raises. -/
theorem TiesSettled.build (ctx : GraphContext) :
    buildGraphPayload ctx ds₁ = buildGraphPayload ctx ds₂ := by
  have hsame : SameKeys (collectNodes ds₁) (collectNodes ds₂) :=
    collectNodes_sameKeys (h₁.trans h₂.symm)
  have hedges : collectSupersessionEdges (collectNodes ds₁) =
      collectSupersessionEdges (collectNodes ds₂) :=
    sortedPairs_congr fun _ => mem_sortedPairs.symm.trans
      ((Iff.intro (hsettled.edge h₁ h₂) (hsettled.edge h₂ h₁)).trans mem_sortedPairs)
  have hcited (maxNumber : Nat) (supersession : List GraphEdge) :
      scanCitationPairs ctx.tables (collectNodes ds₁) maxNumber supersession =
        scanCitationPairs ctx.tables (collectNodes ds₂) maxNumber supersession := by
    -- A citation is read off the number and the body, and both are in the key.
    have hkeyed (ds : List (Decision E)) (numbers : List Nat) :
        (ds.mapM fun d => citedPairs ctx.tables numbers maxNumber supersession d.num d.body) =
          (ds.map nodeKey).mapM fun k => citedPairs ctx.tables numbers maxNumber supersession
            (ofLex k).1 (ofLex (ofLex (ofLex (ofLex (ofLex k).2).2).2).2).2 := by
      rw [List.mapM_map]
      rfl
    rw [scanCitationPairs, scanCitationPairs, hsame.numbers, hkeyed, hkeyed, hsame.1]
  have hlength : (collectNodes ds₁).kept.length = (collectNodes ds₂).kept.length := by
    simpa using congrArg List.length hsame.1
  rw [buildGraphPayload, buildGraphPayload]
  simp only [hsame.numbers, hedges, hcited, hsame.2, hlength,
    hsettled.nodes h₁ h₂ ctx.includeBodies]

end Settled

/-- **The payload ignores the order of the decisions** if and only if it is built at all and the
records that tie for a number say the same. -/
theorem payload_ignores_order_iff (ctx : GraphContext) (ds : List (Decision E)) :
    (∃ payload, ∀ ds' : List (Decision E), ds'.Perm ds →
        buildGraphPayload ctx ds' = .ok payload) ↔
      ScansReturn ctx ds ∧ TiesSettled ds := by
  constructor
  · rintro ⟨payload, h⟩
    have hparts (ds' : List (Decision E)) (hperm : ds'.Perm ds) := payload_parts (h ds' hperm)
    refine ⟨buildGraphPayload_returns_iff.mp ⟨payload, h ds (.refl ds)⟩, ⟨?_, ?_⟩⟩
    · intro a b ha hb hnum
      obtain ⟨dsa, hpa, hka, -⟩ := exists_perm_keeping ha ha
      obtain ⟨dsb, hpb, hkb, -⟩ := exists_perm_keeping hb hb
      have hin : nodeDict ctx.includeBodies a ∈
          (collectNodes dsb).kept.map (nodeDict ctx.includeBodies) := by
        rw [← (hparts dsb hpb).1, (hparts dsa hpa).1]
        exact List.mem_map_of_mem hka
      obtain ⟨b', hb', heq⟩ := List.mem_map.mp hin
      have hnum' : b'.num = a.num := congrArg GraphNode.number heq
      obtain rfl := kept_unique hb' hkb (hnum'.trans hnum)
      exact Option.map_injective Token.value_injective (congrArg GraphNode.decisionType heq).symm
    · intro a b ha hb hne hretires
      by_contra hnot
      rw [not_or] at hnot
      push Not at hnot
      obtain ⟨⟨a', ha', hnuma, hrefs⟩, b', hb', hnumb, hacks⟩ := hnot
      obtain ⟨ds₁, hp₁, hka, hkb⟩ := exists_perm_keeping ha hb
      obtain ⟨ds₂, hp₂, hka', hkb'⟩ := exists_perm_keeping ha' hb'
      have hin : (⟨a.num, b.num⟩ : GraphEdge) ∈ collectSupersessionEdges (collectNodes ds₂) := by
        rw [← (hparts ds₂ hp₂).2, (hparts ds₁ hp₁).2]
        exact mem_collectSupersessionEdges.mpr ⟨a, hka, b, hkb hne, rfl, hne, hretires⟩
      obtain ⟨x, hx, y, hy, heq, -, hr⟩ := mem_collectSupersessionEdges.mp hin
      rw [GraphEdge.mk.injEq] at heq
      obtain ⟨hax, hby⟩ := heq
      obtain rfl := kept_unique hx hka' (hax.symm.trans hnuma.symm)
      obtain rfl := kept_unique hy (hkb' (by rwa [hnuma, hnumb])) (hby.symm.trans hnumb.symm)
      rcases hr with hr | hr
      · exact hrefs (hr.trans (by rw [hby]))
      · exact hacks (hr.trans (by rw [hax]))
  · rintro ⟨hreturns, hsettled⟩
    obtain ⟨payload, hpayload⟩ := buildGraphPayload_returns_iff.mpr hreturns
    exact ⟨payload, fun ds' hperm => (hsettled.build hperm (.refl ds) ctx).trans hpayload⟩

/-- A record of a number that is given twice. -/
def tiedRecord (decisionType : Option DecisionType) : Decision Empty where
  date := ⟨2026, 5, 1, rfl⟩
  confidence := .high
  version := 1
  status := .active
  decisionType
  reversibility := none
  source := none
  filesAffected := []
  supersedes := none
  supersededBy := none
  proposedBy := none
  approvedBy := none
  approvedAt := none
  proposalId := none
  proposedBaseCommit := none
  rejected := []
  num := 2
  title := "Use Postgres".toList
  rationale := []
  body := []
  content := []
  extra := .none

/-- Of two records that differ in their type only, the first one is the node. -/
theorem tied_types_swap :
    let ctx : GraphContext := ⟨.ascii, Char.isAlpha, ⟨List.dedup, fun _ => .refl _⟩, none, [], false⟩
    let a := tiedRecord none
    let b := tiedRecord (some .pattern)
    ∃ payload payload', buildGraphPayload ctx [a, b] = .ok payload ∧
      buildGraphPayload ctx [b, a] = .ok payload' ∧ payload ≠ payload' := by
  intro ctx a b
  have hscan (n : Int) : scanDecisionReferences ctx.tables [] n = .ok [] := by
    have hempty (p : ReferencePrefix) : scanPrefix ctx.tables [] [] p n 0 [] = .ok [] := by
      unfold scanPrefix
      split
      · rfl
      · rename_i hfind
        cases hfind
    exact bind_eq_ok_iff.mpr ⟨[], hempty .decision, hempty .d⟩
  have hreturns (ds : List (Decision Empty)) (hds : ∀ d ∈ ds, d.body = []) :
      ScansReturn ctx ds :=
    ⟨fun d hd => ⟨[], by rw [hds d (List.mem_of_mem_filter hd.1)]; exact hscan _⟩,
      fun _ hentry => absurd hentry List.not_mem_nil⟩
  obtain ⟨payload, hp⟩ :=
    buildGraphPayload_returns_iff.mpr (hreturns [a, b] (by simp [a, b, tiedRecord]))
  obtain ⟨payload', hp'⟩ :=
    buildGraphPayload_returns_iff.mpr (hreturns [b, a] (by simp [a, b, tiedRecord]))
  refine ⟨payload, payload', hp, hp', fun h => ?_⟩
  have hnodes : (collectNodes [a, b]).kept.map (nodeDict false) =
      (collectNodes [b, a]).kept.map (nodeDict false) := by
    rw [← (payload_parts hp).1, ← (payload_parts hp').1, h]
  revert hnodes
  decide +kernel

end Core
end Nauro
