import Nauro.Core.Store

/-!
# The newest active decisions

A reader that shows only the newest active decisions reads the decision files from the end, a
batch at a time, and stops when it has enough of them.

* `recent_agrees` — the walk against the scan of every file.
-/

namespace Nauro
namespace Core

open Foundation

variable {E : Type}

/-! ## The walk -/

/-- `_TAIL_WALK_BATCH`. -/
def tailWalkBatch : Nat := 32

/-- The loop that moves a start back while the stem before it shares the number. -/
def backUp (shares : Nat → Bool) : Nat → Nat
  | 0 => 0
  | start + 1 => if shares start then backUp shares start else start + 1

/-- Where the batch before an end starts. -/
def batchStart (tables : UnicodeTables) (stems : List Text) (stop : Nat) : Nat :=
  let start := stop - tailWalkBatch
  let boundaryNum := stems[start]?.map (extractDecisionNumber tables)
  backUp (fun i => stems[i]?.map (extractDecisionNumber tables) == boundaryNum) start

theorem backUp_le (shares : Nat → Bool) (start : Nat) : backUp shares start ≤ start := by
  induction start with
  | zero => exact Nat.le_refl 0
  | succ start ih =>
      rw [backUp]
      split_ifs
      · exact Nat.le_succ_of_le ih
      · exact Nat.le_refl _

theorem batchStart_lt (tables : UnicodeTables) (stems : List Text) {stop : Nat} (h : stop ≠ 0) :
    batchStart tables stems stop < stop := by
  have hback := backUp_le (fun i => stems[i]?.map (extractDecisionNumber tables) ==
    stems[stop - tailWalkBatch]?.map (extractDecisionNumber tables)) (stop - tailWalkBatch)
  have hbatch : 0 < tailWalkBatch := by decide
  rw [batchStart]
  omega

/-- `_tail_batches`, from an end. -/
def tailBatches (tables : UnicodeTables) (stems : List Text) (stop : Nat) : List (List Text) :=
  if _ : stop = 0 then []
  else
    let start := batchStart tables stems stop
    (stems.take stop).drop start :: tailBatches tables stems start
termination_by stop
decreasing_by exact batchStart_lt tables stems (by assumption)

/-- The active decisions among some stems, in their order. -/
def activeAmong (rt : Runtime E) (store : Store) (stems : List Text) : List (Decision E) :=
  ((stems.filterMap (store.recordAt? rt)).map ScannedDecision.decision).filter fun d =>
    d.status == .active

/-- The loop over the batches: each one goes before what is in hand. -/
def collectRecent (rt : Runtime E) (store : Store) (count : Int) :
    List (List Text) → List (Decision E) → List (Decision E)
  | [], active => active
  | batch :: rest, active =>
      let found := activeAmong rt store batch ++ active
      if count ≤ found.length then found else collectRecent rt store count rest found

/-- `parse_recent_active_decisions`. -/
def parseRecentActiveDecisions (rt : Runtime E) (store : Store) (count : Int) :
    List (Decision E) :=
  let stems := sortStemsByNumber rt.tables store.listDecisions
  if stems.any fun stem => (extractDecisionNumber rt.tables stem).isNone then
    (parseAllDecisions rt store).filter fun d => d.status == .active
  else if count ≤ 0 then []
  else collectRecent rt store count (tailBatches rt.tables stems stems.length) []

/-! ## The concise context -/

/-- `L0_DECISIONS_SUMMARY_LIMIT`. -/
def l0DecisionsSummaryLimit : Nat := 10

/-- `decisions_summary_lines`. -/
def decisionsSummaryLines (decisions : List (Decision E)) (limit : Nat) : List Text :=
  (decisions.take limit).map fun d =>
    "- D".toList ++ Nat.toDigits 10 d.num ++ " — ".toList ++ d.title ++
      (" (".toList ++ d.date.isoformat ++ ")".toList)

/-- `build_l0`, after the sections made of the project, state, stack and question files. -/
def buildL0 (fileSections : List Text) (decisions : List (Decision E)) : Text :=
  let active := decisions.filter fun d => d.status == .active
  let recent := active.reverse.take l0DecisionsSummaryLimit
  let decisionSections :=
    if active.isEmpty then []
    else ["## Recent Decisions\n".toList ++
      ['\n'].intercalate (decisionsSummaryLines recent 10)]
  "\n\n".toList.intercalate (fileSections ++ decisionSections)

/-! ## What the walk returns -/

theorem activeAmong_append (rt : Runtime E) (store : Store) (front back : List Text) :
    activeAmong rt store (front ++ back) =
      activeAmong rt store front ++ activeAmong rt store back := by
  rw [activeAmong, List.filterMap_append, List.map_append, List.filter_append]
  rfl

theorem filter_parseAllDecisions (rt : Runtime E) (store : Store) :
    (parseAllDecisions rt store).filter (fun d => d.status == .active) =
      activeAmong rt store (sortStemsByNumber rt.tables store.listDecisions) := rfl

/-- The batches before an end, put in order again, are the stems before it. -/
theorem flatten_tailBatches (tables : UnicodeTables) (stems : List Text) (stop : Nat) :
    (tailBatches tables stems stop).reverse.flatten = stems.take stop := by
  induction stop using Nat.strong_induction_on with
  | _ stop ih =>
      rw [tailBatches]
      split_ifs with hzero
      · rw [hzero]
        rfl
      · have hstart := batchStart_lt tables stems hzero
        have hfront : (stems.take stop).take (batchStart tables stems stop) =
            stems.take (batchStart tables stems stop) := by
          rw [List.take_take, Nat.min_eq_left hstart.le]
        rw [List.reverse_cons, List.flatten_append, ih _ hstart, List.flatten_singleton, ← hfront]
        exact List.take_append_drop _ _

/-- The walk returns the end of what its batches hold: enough, or all of it. -/
theorem collectRecent_spec (rt : Runtime E) (store : Store) (count : Int)
    (batches : List (List Text)) (active : List (Decision E)) :
    let all := activeAmong rt store batches.reverse.flatten ++ active
    collectRecent rt store count batches active <:+ all ∧
      (count ≤ (collectRecent rt store count batches active).length ∨
        collectRecent rt store count batches active = all) := by
  induction batches generalizing active with
  | nil => exact ⟨List.suffix_refl _, Or.inr rfl⟩
  | cons batch rest ih =>
      have hall : activeAmong rt store (batch :: rest).reverse.flatten ++ active =
          activeAmong rt store rest.reverse.flatten ++
            (activeAmong rt store batch ++ active) := by
        rw [List.reverse_cons, List.flatten_append, List.flatten_singleton, activeAmong_append,
          List.append_assoc]
      dsimp only
      rw [hall, collectRecent]
      split_ifs with henough
      · exact ⟨List.suffix_append _ _, Or.inl henough⟩
      · exact ih _

/-- The last elements of a list are those of an end of it that is long enough. -/
theorem take_reverse_of_suffix {α : Type*} {back all : List α} {limit : Nat} (h : back <:+ all)
    (hlength : min limit all.length ≤ back.length) :
    back.reverse.take limit = all.reverse.take limit := by
  obtain ⟨front, rfl⟩ := h
  rw [List.length_append] at hlength
  rw [List.reverse_append, List.take_append, List.length_reverse]
  have hnone : limit - back.length = 0 ∨ front = [] := by
    by_cases hfront : front.length = 0
    · exact Or.inr (List.eq_nil_of_length_eq_zero hfront)
    · left
      omega
  rcases hnone with hzero | hnil
  · rw [hzero, List.take_zero, List.append_nil]
  · rw [hnil, List.reverse_nil, List.take_nil, List.append_nil]

/-- The active decisions of a suffix of active decisions are all of it. -/
theorem filter_active_of_suffix {rt : Runtime E} {store : Store} {stems : List Text}
    {recent : List (Decision E)} (h : recent <:+ activeAmong rt store stems) :
    recent.filter (fun d => d.status == .active) = recent := by
  apply List.filter_eq_self.mpr
  intro d hd
  exact (List.mem_filter.mp (h.subset hd)).2

/-- The walk returns the end of the active decisions of the full scan, as many as requested or
all of them. -/
theorem parseRecent_spec (rt : Runtime E) (store : Store) (count : Int) :
    let full := activeAmong rt store (sortStemsByNumber rt.tables store.listDecisions)
    let recent := parseRecentActiveDecisions rt store count
    recent <:+ full ∧ min count full.length ≤ (recent.length : Int) := by
  intro full recent
  unfold recent parseRecentActiveDecisions
  dsimp only
  split_ifs with hunnumbered hcount
  · rw [filter_parseAllDecisions]
    exact ⟨List.suffix_refl _, Int.min_le_right _ _⟩
  · exact ⟨List.nil_suffix, Int.le_trans (Int.min_le_left _ _) hcount⟩
  · have hall : activeAmong rt store (tailBatches rt.tables
        (sortStemsByNumber rt.tables store.listDecisions)
        (sortStemsByNumber rt.tables store.listDecisions).length).reverse.flatten ++ [] = full := by
      rw [flatten_tailBatches, List.take_length, List.append_nil]
    have hspec := collectRecent_spec rt store count (tailBatches rt.tables
      (sortStemsByNumber rt.tables store.listDecisions)
      (sortStemsByNumber rt.tables store.listDecisions).length) []
    dsimp only at hspec
    rw [hall] at hspec
    obtain ⟨hsuffix, henough | heq⟩ := hspec
    · exact ⟨hsuffix, Int.le_trans (Int.min_le_left _ _) henough⟩
    · refine ⟨hsuffix, ?_⟩
      rw [heq]
      exact Int.min_le_right _ _

/-- Reading only recent decisions gives the end of the active decisions of the full scan, with at
least the requested number of them or all; and where the request is for as many as the concise
context shows, or for all there are, the context is that of the full scan. -/
theorem recent_agrees (rt : Runtime E) (store : Store) (count : Int) :
    let full := (parseAllDecisions rt store).filter fun d => d.status == .active
    let recent := parseRecentActiveDecisions rt store count
    recent <:+ full ∧ min count full.length ≤ (recent.length : Int) ∧
      ((l0DecisionsSummaryLimit : Int) ≤ count ∨ (full.length : Int) ≤ count →
        ∀ fileSections : List Text,
          buildL0 fileSections recent = buildL0 fileSections (parseAllDecisions rt store)) := by
  intro full recent
  obtain ⟨hsuffix, hlength⟩ := parseRecent_spec rt store count
  refine ⟨hsuffix, hlength, ?_⟩
  intro hcount fileSections
  have hactive : recent.filter (fun d => d.status == .active) = recent :=
    filter_active_of_suffix hsuffix
  have hshown : min l0DecisionsSummaryLimit full.length ≤ recent.length := by
    have hmin : min count full.length ≤ (recent.length : Int) := hlength
    omega
  have htail : recent.reverse.take l0DecisionsSummaryLimit =
      full.reverse.take l0DecisionsSummaryLimit := take_reverse_of_suffix hsuffix hshown
  have hempty : recent.isEmpty = full.isEmpty := by
    have hle : recent.length ≤ full.length := hsuffix.length_le
    have hlimit : l0DecisionsSummaryLimit = 10 := rfl
    rw [Bool.eq_iff_iff, List.isEmpty_iff_length_eq_zero, List.isEmpty_iff_length_eq_zero]
    omega
  unfold buildL0
  rw [hactive]
  dsimp only
  rw [htail, hempty]

/-- A store with one active decision. -/
def oneActiveStore : Store where
  decisions := Table.empty.put "001-queue".toList
    ("---\ndate: 2026-01-02\nconfidence: high\n---\n\n# 001 — Queue\n\n" ++
      "## Decision\n\nOne day.\n").toList
  questions := none
  hashes := []

/-- A request for no decision leaves the context without the one it would show. -/
theorem none_requested_not_shown :
    ¬ ∀ (store : Store) (count : Int) (fileSections : List Text),
      buildL0 fileSections
          (parseRecentActiveDecisions (Runtime.plain ⟨2026, 5, 20, by decide⟩) store count) =
        buildL0 fileSections
          (parseAllDecisions (Runtime.plain ⟨2026, 5, 20, by decide⟩) store) := by
  intro h
  have hdiffers : buildL0 []
      (parseRecentActiveDecisions (Runtime.plain ⟨2026, 5, 20, by decide⟩) oneActiveStore 0) ≠
        buildL0 [] (parseAllDecisions (Runtime.plain ⟨2026, 5, 20, by decide⟩) oneActiveStore) := by
    decide +kernel
  exact hdiffers (h oneActiveStore 0 [])

end Core
end Nauro
