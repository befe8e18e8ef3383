import Nauro.Core.ProposeDecision
import Nauro.Foundation.JoinedPair

/-!
# Exact duplicates

The hash index holds one hash for each decision that a proposal has written, over its title and
its rationale with a bar between them. A title or a rationale may hold a bar too.

* `duplicate_exact_iff` — when a proposal refused as a duplicate has its pair recorded.
-/

namespace Nauro
namespace Core

open Foundation Foundation.JoinedPair

variable {E : Type}

/-! ## What a hash is over -/

/-- A title and a rationale, each stripped and in lower case. -/
def normalizedPair (tables : UnicodeTables) (pair : Text × Text) : Text × Text :=
  (lower tables (strip pair.1), lower tables (strip pair.2))

theorem computeHash_eq (rt : Runtime E) (title rationale : Text) :
    computeHash rt title rationale =
      rt.digest (joined '|' (normalizedPair rt.tables (title, rationale))) := by
  rw [computeHash, joined, List.append_assoc, List.singleton_append]
  rfl

/-- A recorded pair with the text of another, its bar elsewhere. -/
def BarElsewhere (tables : UnicodeTables) (recorded pair : Text × Text) : Prop :=
  Shifted '|' (normalizedPair tables recorded) (normalizedPair tables pair)

def SameContent (tables : UnicodeTables) (recorded pair : Text × Text) : Prop :=
  normalizedPair tables recorded = normalizedPair tables pair

instance (tables : UnicodeTables) (recorded pair : Text × Text) :
    Decidable (SameContent tables recorded pair) :=
  inferInstanceAs (Decidable (_ = _))

/-- Pairs have one hash when they have one content or only their bars differ. -/
theorem computeHash_eq_iff {rt : Runtime E} (hdigest : Function.Injective rt.digest)
    {recorded pair : Text × Text} :
    computeHash rt recorded.1 recorded.2 = computeHash rt pair.1 pair.2 ↔
      SameContent rt.tables recorded pair ∨ BarElsewhere rt.tables recorded pair := by
  rw [computeHash_eq, computeHash_eq, hdigest.eq_iff]
  exact joined_eq_iff

/-! ## When the screen reports a duplicate -/

/-- An enumeration value that is unset, blank or a member. -/
def AllowedField (raw : Option Text) (allowed : List Text) : Prop :=
  ∀ text ∈ raw, strip text = [] ∨ strip text ∈ allowed

/-- A proposal that passes every check before that of its hash. -/
structure Proposal.Hashed (p : Proposal) : Prop extends p.WellFormed where
  decisionType : AllowedField p.decisionType (tokenValues DecisionType)
  reversibility : AllowedField p.reversibility (tokenValues Reversibility)
  source : AllowedField p.source (tokenValues DecisionSource)

def Proposal.pair (p : Proposal) : Text × Text :=
  (p.title, p.rationale)

theorem screenEnum_eq_none_iff {name : String} {raw : Option Text} {allowed : List Text} :
    screenEnum name raw allowed = none ↔ AllowedField raw allowed := by
  cases raw with
  | none => simp [screenEnum, AllowedField]
  | some text =>
      simp only [screenEnum, AllowedField, Option.bind_some, Option.mem_some_iff, forall_eq',
        ite_eq_right_iff, reduceCtorEq, imp_false, not_and_or, not_not]

theorem screenEnum_ne_duplicate {name : String} {raw : Option Text} {allowed : List Text} :
    screenEnum name raw allowed ≠ some .duplicateContent := by
  cases raw with
  | none => simp [screenEnum]
  | some text =>
      simp only [screenEnum, Option.bind_some]
      split_ifs <;> simp

/-- A check that has another message lets the duplicate through only when it passes. -/
theorem or_eq_duplicate_iff {first rest : Option Refusal}
    (hfirst : first ≠ some .duplicateContent) :
    first.or rest = some .duplicateContent ↔ first = none ∧ rest = some .duplicateContent := by
  cases first with
  | none => simp
  | some refusal =>
      simp only [Option.some_or, reduceCtorEq, false_and, iff_false]
      exact hfirst

theorem ite_eq_duplicate_iff {failed : Prop} [Decidable failed] {refusal : Refusal}
    {rest : Option Refusal} (hrefusal : refusal ≠ .duplicateContent) :
    (if failed then some refusal else rest) = some .duplicateContent ↔
      ¬ failed ∧ rest = some .duplicateContent := by
  by_cases hfailed : failed
  · simp [hfailed, hrefusal]
  · simp [hfailed]

theorem screenStructural_duplicate_iff {rt : Runtime E} {p : Proposal}
    {existingHashes : List Text} {activeDecisions : List (Decision E)} :
    screenStructural rt p existingHashes activeDecisions = some .duplicateContent ↔
      p.Hashed ∧ computeHash rt p.title p.rationale ∈ existingHashes := by
  have hlabels : screenLabels p.rejected ≠ some .duplicateContent := by
    simp [screenLabels]
  have htitles : screenTitle rt (strip p.title) activeDecisions ≠ some .duplicateContent := by
    simp [screenTitle]
  have hhash : computeHash rt (strip p.title) (strip p.rationale) =
      computeHash rt p.title p.rationale := by
    rw [computeHash, computeHash, strip_strip, strip_strip]
  have hconfidence : p.confidence.any (tokenValues DecisionConfidence).contains = true ↔
      ∃ value ∈ p.confidence, value ∈ tokenValues DecisionConfidence := by
    simp [Option.any_eq_true]
  have hlast : (if computeHash rt p.title p.rationale ∈ existingHashes then
      some Refusal.duplicateContent else screenTitle rt (strip p.title) activeDecisions) =
        some .duplicateContent ↔ computeHash rt p.title p.rationale ∈ existingHashes := by
    split_ifs with hin
    · simp [hin]
    · simp [hin, htitles]
  unfold screenStructural
  dsimp only
  rw [hhash, ite_eq_duplicate_iff (by simp), ite_eq_duplicate_iff (by simp),
    ite_eq_duplicate_iff (by simp), or_eq_duplicate_iff screenEnum_ne_duplicate,
    or_eq_duplicate_iff screenEnum_ne_duplicate, or_eq_duplicate_iff screenEnum_ne_duplicate,
    ite_eq_duplicate_iff (by simp), or_eq_duplicate_iff hlabels, hlast, screenEnum_eq_none_iff,
    screenEnum_eq_none_iff, screenEnum_eq_none_iff, screenLabels_eq_none_iff, Bool.not_eq_true',
    Bool.not_eq_false, hconfidence, not_lt]
  constructor
  · rintro ⟨htitle, -, hmember, htype, hreversibility, hsource, hlength, hitems, hin⟩
    exact ⟨⟨⟨htitle, hlength, hmember, hitems⟩, htype, hreversibility, hsource⟩, hin⟩
  · rintro ⟨hp, hin⟩
    have hrationale : strip p.rationale ≠ [] := by
      intro hnil
      have hlength := hp.rationale
      rw [hnil] at hlength
      exact absurd hlength (by decide)
    exact ⟨hp.title, hrationale, hp.confidence, hp.decisionType, hp.reversibility, hp.source,
      hp.rationale, hp.labels, hin⟩

/-! ## The index along a run -/

/-- The hashes of an index are those of the recorded pairs. -/
def Indexed (rt : Runtime E) (records : List (Text × Text)) (hashes : List Text) : Prop :=
  ∀ hash, hash ∈ hashes ↔ ∃ pair ∈ records, computeHash rt pair.1 pair.2 = hash

/-- The title and the rationale that a new decision is written with. -/
def Proposal.written (p : Proposal) : Text × Text :=
  (p.title, p.rationaleOrTitle)

/-- Whether the proposal appends to a decision in place of writing a new one. -/
def Proposal.appends (p : Proposal) : Prop :=
  p.operation = .update ∧ p.affected? ≠ none

instance (p : Proposal) : Decidable p.appends :=
  inferInstanceAs (Decidable (_ ∧ _))

/-- The pair that a proposal records once it has written a decision of its own. -/
def Progress.recorded (p : Proposal) (s : Progress E) : List (Text × Text) :=
  if p.appends ∨ s.writes = [] then [] else [p.written]

/-- The store that a proposal leaves. -/
def ProposeResult.storeAfter (store : Store) : ProposeResult E → Store
  | .refused _ => store
  | .stopped _ s => s.store
  | .confirmed _ s => s.store

def ProposeResult.recorded (p : Proposal) : ProposeResult E → List (Text × Text)
  | .refused _ => []
  | .stopped _ s => s.recorded p
  | .confirmed _ s => s.recorded p

/-- The store and the recorded pairs after a run of proposals. -/
def runProposals (rt : Runtime E) :
    Store × List (Text × Text) → List Proposal → Store × List (Text × Text)
  | state, [] => state
  | (store, records), p :: rest =>
      let result := proposeDecision rt store p
      runProposals rt (result.storeAfter store, records ++ result.recorded p) rest

theorem Store.mem_hashes_addHash {store : Store} {contentHash hash : Text} :
    hash ∈ (store.addHash contentHash).hashes ↔ hash ∈ store.hashes ∨ hash = contentHash := by
  unfold Store.addHash
  split_ifs with hin
  · constructor
    · exact Or.inl
    · rintro (hold | rfl)
      · exact hold
      · exact hin
  · simp

/-- Nothing is written yet, and the index is as it was. -/
def Unwritten (start : Store) (s : Progress E) : Prop :=
  s.writes = [] ∧ s.store.hashes = start.hashes

/-- The new decision is written, and its hash is in the index. -/
def Written (rt : Runtime E) (p : Proposal) (start : Store) (s : Progress E) : Prop :=
  s.writes ≠ [] ∧
    s.store.hashes = (start.addHash (computeHash rt p.title p.rationaleOrTitle)).hashes

theorem writeDecision_ensures {P Q : Progress E → Prop} {rt : Runtime E} {onFailure : Stop}
    {stem : Text} {d : Decision E}
    (h : ∀ s text, P s → Q ⟨s.store.writeDecision stem text, s.writes ++ [⟨stem, d, text⟩]⟩) :
    Effect.Ensures P (writeDecision rt onFailure stem d) (fun _ => Q) P := by
  unfold writeDecision
  apply Effect.Ensures.bind (Effect.Keeps.ofOption _ _).ensures
  intro text
  apply Effect.Ensures.modify
  intro s hs
  exact h s text hs

theorem readDecisionOr_keeps {P : Progress E → Prop} {rt : Runtime E} {onMissing : Stop}
    {stem : Text} : Effect.Keeps P (readDecisionOr rt onMissing stem) :=
  Effect.Keeps.bind Effect.Keeps.get fun _ => Effect.Keeps.ofOption _ _

theorem applyQuestionResolves_keeps {P : Progress E → Prop} {rt : Runtime E} {p : Proposal}
    {decisionId : Text}
    (h : ∀ s text, P s → P { s with store := s.store.writeQuestions text }) :
    Effect.Keeps P (applyQuestionResolves rt p decisionId) := by
  unfold applyQuestionResolves
  split_ifs
  · exact Effect.Keeps.pure _
  · split
    · exact Effect.Keeps.pure _
    · unfold writeQuestions
      refine Effect.Keeps.bind Effect.Keeps.get fun s => ?_
      refine Effect.Keeps.bind (Effect.Keeps.ofOption _ _) fun transition => ?_
      exact Effect.Keeps.bind (Effect.Keeps.modify fun s hs => h s _ hs) fun _ =>
        Effect.Keeps.pure _

section Writes

variable {rt : Runtime E} {p : Proposal} {start : Store}

/-- A new decision is written together with its hash, or not at all. -/
theorem writeDecisionDirect_ensures :
    Effect.Ensures (Unwritten start) (writeDecisionDirect rt p)
      (fun _ => Written rt p start) (Unwritten start) := by
  unfold writeDecisionDirect
  apply Effect.Ensures.bind Effect.Keeps.get.ensures
  intro s
  apply Effect.Ensures.bind (Effect.Keeps.ofOption _ _).ensures
  intro d
  -- Between the two writes the index is still the old one.
  have hwrite : Effect.Ensures (Unwritten start)
      (writeDecision rt .raised (p.newStem rt (nextDecisionNum rt s.store)) d)
      (fun _ s => s.writes ≠ [] ∧ s.store.hashes = start.hashes) (Unwritten start) :=
    writeDecision_ensures fun _ _ hs => ⟨by simp, hs.2⟩
  apply Effect.Ensures.bind hwrite
  intro _
  apply Effect.Ensures.bind (Effect.Ensures.modify (Q := fun _ => Written rt p start) ?_)
  · intro _
    exact Effect.Ensures.pure fun _ hs => hs
  · intro s hs
    refine ⟨hs.1, ?_⟩
    simp only [Store.addHash, hs.2]
    split_ifs
    · exact hs.2
    · rfl

theorem written_keeps_resolves {decisionId : Text} :
    Effect.Keeps (Written rt p start) (applyQuestionResolves rt p decisionId) :=
  applyQuestionResolves_keeps fun _ _ hs => hs

theorem written_keeps_write {onFailure : Stop} {stem : Text} {d : Decision E} :
    Effect.Keeps (Written rt p start) (writeDecision rt onFailure stem d) := by
  unfold writeDecision
  refine Effect.Keeps.bind (Effect.Keeps.ofOption _ _) fun text => ?_
  exact Effect.Keeps.modify fun s hs => ⟨by simp, hs.2⟩

/-- What follows the write of the new decision keeps it and its hash. -/
theorem afterWrite_ensures {A : Type} {rest : Text → Kernel E A}
    (hrest : ∀ stem, Effect.Keeps (Written rt p start) (rest stem)) :
    Effect.Ensures (Unwritten start) (writeDecisionDirect rt p >>= rest)
      (fun _ => Written rt p start) (fun s => Unwritten start s ∨ Written rt p start s) := by
  apply Effect.Ensures.bind (writeDecisionDirect_ensures.weaken (fun _ hs => hs)
    (fun _ _ hs => hs) fun _ hs => Or.inl hs)
  intro stem
  exact (hrest stem).ensures.weaken (fun _ hs => hs) (fun _ _ hs => hs) fun _ hs => Or.inr hs

theorem doAdd_ensures :
    Effect.Ensures (Unwritten start) (doAdd rt p) (fun _ => Written rt p start)
      (fun s => Unwritten start s ∨ Written rt p start s) := by
  unfold doAdd
  apply afterWrite_ensures
  intro stem
  exact Effect.Keeps.bind written_keeps_resolves fun _ => Effect.Keeps.pure _

theorem doSupersede_ensures {affectedDecisionId : Text} :
    Effect.Ensures (Unwritten start) (doSupersede rt p affectedDecisionId)
      (fun _ => Written rt p start) (fun s => Unwritten start s ∨ Written rt p start s) := by
  unfold doSupersede
  apply Effect.Ensures.bind ((Effect.Keeps.ofOption _ _).ensures.weaken (fun _ hs => hs)
    (fun _ _ hs => hs) fun _ hs => Or.inl hs)
  intro oldNum
  apply afterWrite_ensures
  intro newStem
  refine Effect.Keeps.bind readDecisionOr_keeps fun newBody => ?_
  refine Effect.Keeps.bind (Effect.Keeps.ofOption _ _) fun new => ?_
  refine Effect.Keeps.bind written_keeps_write fun _ => ?_
  refine Effect.Keeps.bind Effect.Keeps.get fun s => ?_
  refine Effect.Keeps.bind (Effect.Keeps.ofOption _ _) fun oldStem => ?_
  refine Effect.Keeps.bind readDecisionOr_keeps fun oldBody => ?_
  refine Effect.Keeps.bind (Effect.Keeps.ofOption _ _) fun old => ?_
  refine Effect.Keeps.bind written_keeps_write fun _ => ?_
  exact Effect.Keeps.bind written_keeps_resolves fun _ => Effect.Keeps.pure _

/-- An update leaves the index alone. -/
theorem doUpdate_keeps {affectedDecisionId : Text} {hashes : List Text} :
    Effect.Keeps (fun s : Progress E => s.store.hashes = hashes)
      (doUpdate rt p affectedDecisionId) := by
  unfold doUpdate writeDecision
  refine Effect.Keeps.bind Effect.Keeps.get fun s => ?_
  refine Effect.Keeps.bind (Effect.Keeps.ofOption _ _) fun stem => ?_
  refine Effect.Keeps.bind readDecisionOr_keeps fun body => ?_
  refine Effect.Keeps.bind (Effect.Keeps.ofOption _ _) fun target => ?_
  refine Effect.Keeps.bind ?_ fun _ => ?_
  · refine Effect.Keeps.bind (Effect.Keeps.ofOption _ _) fun text => ?_
    exact Effect.Keeps.modify fun _ hs => hs
  · exact Effect.Keeps.bind (applyQuestionResolves_keeps fun _ _ hs => hs) fun _ =>
      Effect.Keeps.pure _

/-- After any run of an operation the index is the old one, or it has the hash of the decision
that was written. -/
theorem executeOperation_hashes (s' : Progress E) (store : Store) {outcome : Except Stop Executed}
    (h : (executeOperation rt p).exec ⟨store, []⟩ = (outcome, s')) (hash : Text) :
    hash ∈ s'.store.hashes ↔ hash ∈ store.hashes ∨
      ∃ pair ∈ s'.recorded p, computeHash rt pair.1 pair.2 = hash := by
  have hstart : Unwritten store (⟨store, []⟩ : Progress E) := ⟨rfl, rfl⟩
  have hnew (hp : ¬ p.appends) (hs : Unwritten store s' ∨ Written rt p store s') :
      hash ∈ s'.store.hashes ↔ hash ∈ store.hashes ∨
        ∃ pair ∈ s'.recorded p, computeHash rt pair.1 pair.2 = hash := by
    rcases hs with ⟨hwrites, hhashes⟩ | ⟨hwrites, hhashes⟩
    · rw [Progress.recorded, if_pos (Or.inr hwrites), hhashes]
      simp
    · rw [Progress.recorded, if_neg (not_or.mpr ⟨hp, hwrites⟩), hhashes, Store.mem_hashes_addHash]
      simp [Proposal.written, eq_comm]
  have hended {x : Kernel E Executed} (hx : x.exec ⟨store, []⟩ = (outcome, s'))
      (hensures : Effect.Ensures (Unwritten store) x (fun _ => Written rt p store)
        (fun s => Unwritten store s ∨ Written rt p store s)) :
      Unwritten store s' ∨ Written rt p store s' := by
    have hrun := hensures _ hstart
    rw [hx] at hrun
    cases outcome with
    | ok executed => exact Or.inr hrun
    | error stop => exact hrun
  unfold executeOperation at h
  split at h
  · rename_i id hoperation haffected
    have hp : ¬ p.appends := fun hp => by simp [hp.1] at hoperation
    exact hnew hp (hended h doSupersede_ensures)
  · rename_i id hoperation haffected
    have hp : p.appends := ⟨hoperation, by simp [haffected]⟩
    have hkept : ((doUpdate rt p id).exec ⟨store, []⟩).2.store.hashes = store.hashes :=
      doUpdate_keeps ⟨store, []⟩ rfl
    rw [h] at hkept
    rw [Progress.recorded, if_pos (Or.inl hp), hkept]
    simp
  · rename_i hsupersede hupdate
    have hp : ¬ p.appends := by
      rintro ⟨hoperation, haffected⟩
      obtain ⟨id, hid⟩ := Option.ne_none_iff_exists'.mp haffected
      exact hupdate id hoperation hid
    exact hnew hp (hended h doAdd_ensures)

/-- One proposal, refused, stopped or confirmed, keeps the index that of the recorded pairs. -/
theorem indexed_proposeDecision {records : List (Text × Text)} {store : Store}
    (h : Indexed rt records store.hashes) (p : Proposal) :
    Indexed rt (records ++ (proposeDecision rt store p).recorded p)
      ((proposeDecision rt store p).storeAfter store).hashes := by
  unfold proposeDecision
  cases refusal? rt store p with
  | some refusal =>
      rw [ProposeResult.recorded, List.append_nil]
      exact h
  | none =>
      intro hash
      cases hrun : (executeOperation rt p).exec ⟨store, []⟩ with
      | mk outcome s' =>
          have hhashes := executeOperation_hashes s' store hrun hash
          rw [h hash] at hhashes
          cases outcome with
          | error stop =>
              simp only [ProposeResult.recorded, ProposeResult.storeAfter, List.mem_append,
                or_and_right, exists_or]
              exact hhashes
          | ok executed =>
              simp only [ProposeResult.recorded, ProposeResult.storeAfter, List.mem_append,
                or_and_right, exists_or]
              exact hhashes

end Writes

theorem indexed_run {rt : Runtime E} {earlier : List Proposal} :
    ∀ {store : Store} {records : List (Text × Text)}, Indexed rt records store.hashes →
      Indexed rt (runProposals rt (store, records) earlier).2
        (runProposals rt (store, records) earlier).1.hashes := by
  induction earlier with
  | nil => exact fun h => h
  | cons p rest ih => exact fun h => ih (indexed_proposeDecision h p)

/-! ## When a duplicate is one -/

/-- After any run of proposals, a proposal refused as an exact duplicate has its title and its
rationale recorded, unless it passes the other checks and a recorded pair has its text with the
bar elsewhere while its own pair is not recorded. -/
theorem duplicate_exact_iff {rt : Runtime E} (hdigest : Function.Injective rt.digest)
    {records : List (Text × Text)} {store : Store} (hindex : Indexed rt records store.hashes)
    (earlier : List Proposal) (p : Proposal) (activeDecisions : List (Decision E)) :
    let after := runProposals rt (store, records) earlier
    (screenStructural rt p after.1.hashes activeDecisions = some .duplicateContent →
        ∃ pair ∈ after.2, SameContent rt.tables pair p.pair) ↔
      ¬ p.Hashed ∨ (∀ pair ∈ after.2, ¬ BarElsewhere rt.tables pair p.pair) ∨
        ∃ pair ∈ after.2, SameContent rt.tables pair p.pair := by
  intro after
  have hfound : computeHash rt p.title p.rationale ∈ after.1.hashes ↔
      ∃ pair ∈ after.2,
        SameContent rt.tables pair p.pair ∨ BarElsewhere rt.tables pair p.pair := by
    rw [indexed_run hindex]
    constructor
    · rintro ⟨pair, hpair, hhash⟩
      exact ⟨pair, hpair, (computeHash_eq_iff hdigest).mp hhash⟩
    · rintro ⟨pair, hpair, hsame⟩
      exact ⟨pair, hpair, (computeHash_eq_iff hdigest).mpr hsame⟩
  rw [screenStructural_duplicate_iff, hfound]
  constructor
  · intro h
    by_cases hp : p.Hashed
    · right
      by_cases hbar : ∃ pair ∈ after.2, BarElsewhere rt.tables pair p.pair
      · obtain ⟨pair, hpair, hshifted⟩ := hbar
        exact Or.inr (h ⟨hp, pair, hpair, Or.inr hshifted⟩)
      · exact Or.inl fun pair hpair hshifted => hbar ⟨pair, hpair, hshifted⟩
    · exact Or.inl hp
  · rintro h ⟨hp, pair, hpair, hsame⟩
    rcases h with hfails | hnone | hrecorded
    · exact absurd hp hfails
    · exact ⟨pair, hpair, hsame.resolve_right (hnone pair hpair)⟩
    · exact hrecorded

theorem duplicateDay_valid : isCalendarDate 2025 1 1 = true := by
  decide

def duplicateDay : Date := ⟨2025, 1, 1, duplicateDay_valid⟩

def emptyStore : Store := ⟨⟨[], List.nodup_nil⟩, none, []⟩

def barProposal (title rationale : String) : Proposal :=
  ⟨title.toList, rationale.toList, .add, none, [], some "medium".toList, none, none, [], [], none,
    none⟩

theorem indexed_empty (rt : Runtime E) : Indexed rt [] emptyStore.hashes := by
  intro hash
  simp [emptyStore]

def barRun : Store × List (Text × Text) :=
  runProposals (Runtime.plain duplicateDay) (emptyStore, [])
    [barProposal "Use a|b" "because it is the smallest that works."]

/-- A second decision is refused as a copy of the first, whose title and rationale are others. -/
theorem duplicate_of_other :
    screenStructural (Runtime.plain duplicateDay)
        (barProposal "Use a" "b|because it is the smallest that works.") barRun.1.hashes [] =
          some .duplicateContent ∧
      ¬ ∃ pair ∈ barRun.2, SameContent UnicodeTables.ascii pair
        (barProposal "Use a" "b|because it is the smallest that works.").pair := by
  have hrun : screenStructural (Runtime.plain duplicateDay)
        (barProposal "Use a" "b|because it is the smallest that works.") barRun.1.hashes [] =
          some .duplicateContent ∧
      ∀ pair ∈ barRun.2, ¬ SameContent UnicodeTables.ascii pair
        (barProposal "Use a" "b|because it is the smallest that works.").pair := by
    decide +kernel
  exact ⟨hrun.1, fun ⟨pair, hpair, hsame⟩ => hrun.2 pair hpair hsame⟩

/-- A copy of a recorded decision is refused, with its pair recorded. -/
theorem duplicate_of_same :
    ∃ pair ∈ barRun.2, SameContent UnicodeTables.ascii pair
      (barProposal "Use a|b" "because it is the smallest that works.").pair := by
  have hdigest : Function.Injective (Runtime.plain duplicateDay).digest := Function.injective_id
  have hsame : (∀ pair ∈ barRun.2, ¬ BarElsewhere UnicodeTables.ascii pair
      (barProposal "Use a|b" "because it is the smallest that works.").pair) ∨
        ∃ pair ∈ barRun.2, SameContent UnicodeTables.ascii pair
          (barProposal "Use a|b" "because it is the smallest that works.").pair := by
    right
    exact ⟨("Use a|b".toList, "because it is the smallest that works.".toList), by decide +kernel,
      rfl⟩
  exact (duplicate_exact_iff hdigest (indexed_empty _)
    [barProposal "Use a|b" "because it is the smallest that works."]
    (barProposal "Use a|b" "because it is the smallest that works.") []).mpr (Or.inr hsame)
      (by decide +kernel)

end Core
end Nauro
