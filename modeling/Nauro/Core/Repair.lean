import Nauro.Core.Doctor
import Nauro.Core.Transitions

/-!
# Planning the repair of a half-written supersession

A plan exists only when the store holds exactly one orphan and no refusal names either side of it.
-/

namespace Nauro
namespace Core

open Foundation

variable {E : Type}

/-! ## Refusals -/

inductive RepairRefusalKind where
  | multipleChildren
  | cycleMember
  | unparseableChild
  | unparseableTarget
  | duplicateDecisionNumber
  | competingReference
deriving DecidableEq

/-- The place of a kind in the order of the kinds' names. -/
def RepairRefusalKind.rank : RepairRefusalKind → Nat
  | .competingReference => 0
  | .cycleMember => 1
  | .duplicateDecisionNumber => 2
  | .multipleChildren => 3
  | .unparseableChild => 4
  | .unparseableTarget => 5

/-- A refusal; one that names no decision blocks every candidate. -/
structure RepairRefusal where
  kind : RepairRefusalKind
  decisions : List Nat
  stems : List Text
  guidance : Text
deriving DecidableEq

/-- `blocks`. -/
def RepairRefusal.blocks (r : RepairRefusal) (orphan : SupersedeOrphan) : Bool :=
  r.decisions.isEmpty || r.decisions.contains orphan.child || r.decisions.contains orphan.target

/-- `_label`. -/
def repairLabel (num : Nat) : Text :=
  'D' :: Nat.toDigits 10 num

/-- `_join`. -/
def joinLabels (nums : List Nat) : Text :=
  commaJoined (nums.map repairLabel)

/-- A forward supersession edge whose backref is not in place. -/
structure RepairCandidate where
  child : Nat
  target : Nat
deriving DecidableEq

/-- `sorted` of a set of numbers. -/
def sortedSet (numbers : List Nat) : List Nat :=
  sortNumbers numbers.dedup

@[simp] theorem mem_sortedSet {numbers : List Nat} {n : Nat} :
    n ∈ sortedSet numbers ↔ n ∈ numbers := by
  rw [sortedSet, mem_sortNumbers, List.mem_dedup]

/-- `_duplicate_number_refusal`. -/
def duplicateNumberRefusal (num : Nat) (stems : List Text) : RepairRefusal where
  kind := .duplicateDecisionNumber
  decisions := [num]
  stems := sortTexts stems
  guidance := repairLabel num ++ " is carried by more than one file (".toList ++
    commaJoined (sortTexts stems) ++
    "); renumber or remove the duplicate before repairing.".toList

/-- `_cycle_refusal`. -/
def cycleRefusal (members : List Nat) : RepairRefusal where
  kind := .cycleMember
  decisions := members
  stems := []
  guidance :=
    (match members with
    | [member] => repairLabel member ++ " references itself".toList
    | _ => joinLabels members ++ " form a supersession cycle".toList) ++
      "; untangle it by hand before repairing.".toList

/-- `_unparseable_target_refusal`. -/
def unparseableTargetRefusal (candidate : RepairCandidate) (stem : Text) : RepairRefusal where
  kind := .unparseableTarget
  decisions := [candidate.target, candidate.child]
  stems := [stem]
  guidance := repairLabel candidate.target ++ " (".toList ++ stem ++
    ") does not parse, so its frontmatter cannot be rewritten safely; fix the file first.".toList

/-- `_unparseable_child_refusal`. -/
def unparseableChildRefusal (stems : List Text) : RepairRefusal where
  kind := .unparseableChild
  decisions := []
  stems := stems
  guidance := commaJoined stems ++ (" does not parse, so the decisions that claim to " ++
    "supersede others cannot be fully enumerated; fix the file first.").toList

/-- `_multiple_children_refusal`. -/
def multipleChildrenRefusal (target : Nat) (children : List Nat) : RepairRefusal where
  kind := .multipleChildren
  decisions := sortedSet (target :: children)
  stems := []
  guidance := joinLabels (sortNumbers children) ++ " all claim to supersede ".toList ++
    repairLabel target ++ "; only a human can say which one retires it.".toList

/-- `_competing_reference_refusal`. -/
def competingReferenceRefusal (candidate : RepairCandidate) (competing : List Nat) :
    RepairRefusal where
  kind := .competingReference
  decisions := sortedSet (candidate.child :: candidate.target :: competing)
  stems := []
  guidance := joinLabels competing ++ " already reference ".toList ++
    repairLabel candidate.child ++ " or ".toList ++ repairLabel candidate.target ++
    "; the pair is not isolated enough to rewrite automatically.".toList

/-! ## Candidates -/

/-- The candidate that a decision makes as a child. -/
def candidateOf? (parsed : List (Decision E)) (numbers : List Nat) (d : Decision E) :
    Option RepairCandidate := do
  let number ← refNumber d.supersedes
  if number = d.num ∨ number ∉ numbers then none
  else if (byNum parsed number).any fun target =>
      target.supersededBy == some (Nat.toDigits 10 d.num) then none
  else some ⟨d.num, number⟩

theorem candidateOf?_eq_some_iff {parsed : List (Decision E)} {numbers : List Nat}
    {d : Decision E} {candidate : RepairCandidate} :
    candidateOf? parsed numbers d = some candidate ↔
      candidate.child = d.num ∧ refNumber d.supersedes = some candidate.target ∧
        candidate.target ≠ d.num ∧ candidate.target ∈ numbers ∧
        ∀ target, byNum parsed candidate.target = some target →
          target.supersededBy ≠ some (Nat.toDigits 10 d.num) := by
  have hone : ∀ {a b : Nat}, (⟨a, b⟩ : RepairCandidate) = candidate ↔
      candidate.child = a ∧ candidate.target = b := by
    intro a b
    constructor
    · rintro rfl
      exact ⟨rfl, rfl⟩
    · rintro ⟨rfl, rfl⟩
      rfl
  simp only [candidateOf?, Option.bind_eq_bind, Option.bind_eq_some_iff]
  constructor
  · rintro ⟨number, href, hrow⟩
    split_ifs at hrow with hskip hsettled
    obtain ⟨hchild, rfl⟩ := hone.mp (Option.some.inj hrow)
    simp only [not_or, not_not] at hskip
    refine ⟨hchild, href, hskip.1, hskip.2, fun target hfound hback => hsettled ?_⟩
    rw [hfound, Option.any_some, hback]
    exact beq_self_eq_true _
  · rintro ⟨hchild, href, hself, hin, hopen⟩
    refine ⟨candidate.target, href, ?_⟩
    rw [if_neg (by simp only [not_or, not_not]; exact ⟨hself, hin⟩), if_neg]
    · exact congrArg some (hone.mpr ⟨hchild, rfl⟩)
    · intro hsettled
      obtain ⟨target, hfound, hback⟩ := (Option.any_eq_true _ _).mp hsettled
      exact hopen target hfound (beq_iff_eq.mp hback)

/-- `_candidates`. -/
def repairCandidates (parsed : List (Decision E)) (numbers : List Nat) : List RepairCandidate :=
  sortByKey (fun row => [row.child, row.target])
    (parsed.filterMap (candidateOf? parsed numbers)).dedup

/-- Whether a decision of another number names the target in `superseded_by`, or one names the
child in `supersedes`. -/
def Decision.competes (candidate : RepairCandidate) (d : Decision E) : Bool :=
  (d.num != candidate.child && refNumber d.supersededBy == some candidate.target) ||
    (d.num != candidate.target && refNumber d.supersedes == some candidate.child)

/-- `_competing_references`. -/
def competingReferences (candidate : RepairCandidate) (parsed : List (Decision E)) : List Nat :=
  let others := (parsed.filter (Decision.competes candidate)).map Decision.num
  let retired := (byNum parsed candidate.child).filter fun child =>
    child.status == .superseded || child.supersededBy.isSome
  sortedSet (others ++ (retired.map Decision.num).toList)

/-! ## Assembling the refusals -/

/-- What the planner reads off a scan. -/
structure RepairView (E : Type) where
  parsed : List (Decision E)
  cycles : List (List Nat)
  numbers : List Nat
  stemsOf : Nat → List Text
  failedStems : List Text

def repairView (tables : UnicodeTables) (scan : StoreScan E) : RepairView E where
  parsed := scan.parsed
  cycles := supersessionCycles scan.parsed
  numbers := scan.numbers tables
  stemsOf := scan.stemsOf tables
  failedStems := scan.failures.map ParseFailure.stem

/-- `children_by_target[target]`. -/
def childrenOf (candidates : List RepairCandidate) (target : Nat) : List Nat :=
  (candidates.filter fun candidate => candidate.target == target).map RepairCandidate.child

/-- The refusals about one number of a candidate. -/
def RepairView.numberRefusals (v : RepairView E) (num : Nat) : List RepairRefusal :=
  (if 1 < v.numbers.count num then [duplicateNumberRefusal num (v.stemsOf num)] else []) ++
    ((v.cycles.reverse.find? fun members => num ∈ members).map cycleRefusal).toList

/-- The refusals about one candidate. -/
def RepairView.candidateRefusals (v : RepairView E) (candidates : List RepairCandidate)
    (candidate : RepairCandidate) : List RepairRefusal :=
  let unparseable := match v.stemsOf candidate.target with
    | [stem] => if stem ∈ v.failedStems then [unparseableTargetRefusal candidate stem] else []
    | _ => []
  let siblings := childrenOf candidates candidate.target
  let competing := competingReferences candidate v.parsed
  v.numberRefusals candidate.child ++ v.numberRefusals candidate.target ++ unparseable ++
    (if 1 < siblings.length then [multipleChildrenRefusal candidate.target siblings] else []) ++
    (if competing ≠ [] then [competingReferenceRefusal candidate competing] else [])

/-- The unread files that no candidate names as its target. -/
def RepairView.unread (v : RepairView E) (candidates : List RepairCandidate) : List Text :=
  let namedTargets := candidates.flatMap fun candidate =>
    match v.stemsOf candidate.target with
    | [stem] => [stem]
    | _ => []
  sortTexts (v.failedStems.filter fun stem => !namedTargets.contains stem)

/-- `rows.setdefault(key, refusal)`: the first refusal of a kind, decisions and stems. -/
def addRefusal (rows : List RepairRefusal) (refusal : RepairRefusal) : List RepairRefusal :=
  if rows.any fun row => row.kind == refusal.kind && row.decisions == refusal.decisions &&
      row.stems == refusal.stems then rows
  else rows ++ [refusal]

/-- The order of refusals: by kind, then decisions, then stems. -/
def refusalLe (a b : RepairRefusal) : Bool :=
  if a.kind ≠ b.kind then a.kind.rank ≤ b.kind.rank
  else if a.decisions ≠ b.decisions then decide (a.decisions ≤ b.decisions)
  else decide (a.stems ≤ b.stems)

/-- `_refusals`. -/
def RepairView.refusals (v : RepairView E) (candidates : List RepairCandidate) :
    List RepairRefusal :=
  if candidates = [] then []
  else
    let unread := v.unread candidates
    let rows := candidates.flatMap (v.candidateRefusals candidates) ++
      (if unread ≠ [] then [unparseableChildRefusal unread] else [])
    (rows.foldl addRefusal []).insertionSort fun a b => refusalLe a b = true

/-! ## The plan -/

/-- The rewrite that closes one orphan, and the facts to judge it. -/
structure RepairPlan where
  childNum : Nat
  childTitle : Text
  childVersion : Nat
  childDate : Date
  targetNum : Nat
  targetTitle : Text
  targetVersion : Nat
  targetDate : Date
  targetStatus : DecisionStatus
  targetStem : Text
  targetPath : Text
  newContent : Text
  preImageDigest : Text

structure RepairAssessment where
  plan : Option RepairPlan
  refusals : List RepairRefusal
  orphans : List SupersedeOrphan

/-- `_build_plan`; `none` when an exception leaves it. -/
def buildPlan (rt : Runtime E) (v : RepairView E) (orphan : SupersedeOrphan) :
    Option RepairPlan := do
  let child ← byNum v.parsed orphan.child
  let target ← byNum v.parsed orphan.target
  let targetStem ← (v.stemsOf orphan.target).head?
  let newContent ← formatDecision rt.yaml (markSuperseded target orphan.child)
  return {
    childNum := child.num
    childTitle := child.title
    childVersion := child.version
    childDate := child.date
    targetNum := target.num
    targetTitle := target.title
    targetVersion := target.version
    targetDate := target.date
    targetStatus := target.status
    targetStem
    targetPath := decisionPath targetStem
    newContent
    preImageDigest := rt.digest target.content }

/-- The plan of a scan with its orphans and refusals; `none` when an exception leaves it. -/
def assessRepair (rt : Runtime E) (scan : StoreScan E) : Option RepairAssessment :=
  let v := repairView rt.tables scan
  let refusals := v.refusals (repairCandidates v.parsed v.numbers)
  let orphans := (diagnoseScan rt.tables scan).supersedeOrphans
  match orphans with
  | [orphan] =>
      if refusals.any fun refusal => refusal.blocks orphan then some ⟨none, refusals, orphans⟩
      else (buildPlan rt v orphan).map fun plan => ⟨some plan, refusals, orphans⟩
  | _ => some ⟨none, refusals, orphans⟩

/-- `plan_supersede_repair`. -/
def planSupersedeRepair (rt : Runtime E) (store : Store) : Option RepairAssessment :=
  assessRepair rt (scanStore rt store)

/-- The write of a confirmed plan. -/
def applyRepair (store : Store) (plan : RepairPlan) : Store :=
  store.writeDecision plan.targetStem plan.newContent

end Core
end Nauro
