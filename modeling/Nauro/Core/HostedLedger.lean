import Nauro.Core.CommittedRuns

/-!
# The title ledger of hosted commits

The store keeps a generation, and beside it a ledger of titles and of contents. A commit asks the
ledger by its probes and changes it by its publication intents; no one ever computes the ledger from
the artifacts.

* `hosted_run_ledger` — so does every run.
-/

namespace Nauro
namespace Core

open Foundation
open Function (update)

variable {E : Type}

/-! ## The store -/

structure HostedStore where
  generation : CommittedGeneration
  /-- The number that owns a normalized title. -/
  titles : Table Text Nat
  contents : List Text

/-- What an observation says holds in the store. -/
def HostedStore.Shows {tables : UnicodeTables} (store : HostedStore) : ClaimObservation tables → Prop
  | .absentTitle title => store.titles.get? title = none
  | .committedTitle title owner => store.titles.get? title = some owner.1
  | .unavailableTitle _ _ => True
  | .absentContent contentHash => contentHash.1 ∉ store.contents
  | .committedContent contentHash => contentHash.1 ∈ store.contents
  | .unavailableContent _ _ => True

/-- What a probe asks holds in the store. -/
def HostedStore.Grants {tables : UnicodeTables} (store : HostedStore) : ClaimProbe tables → Prop
  | .absentTitle title => store.titles.get? title = none
  | .ownedTitle title owner => store.titles.get? title = some owner.1
  | .absentContent contentHash => contentHash.1 ∉ store.contents

/-- One publication intent, over the titles. -/
def publishTitle (titles : Table Text Nat) (intent : ClaimIntent) : Table Text Nat :=
  match intent.kind, intent.normalizedTitle with
  | .commitTitleOwner, some title =>
      intent.ownerDecisionNumber.elim titles fun owner => titles.put title owner
  | .releaseTitleOwner, some title => titles.erase title
  | .transferTitleOwner, some title =>
      intent.toOwnerDecisionNumber.elim titles fun owner => titles.put title owner
  | _, _ => titles

/-- One publication intent, over the contents. -/
def publishContent (contents : List Text) (intent : ClaimIntent) : List Text :=
  match intent.kind, intent.contentHash with
  | .commitContentHash, some contentHash => contents ++ [contentHash]
  | _, _ => contents

/-- A commit that the store answers truthfully, and that is published to it. -/
structure HostedCommit (rt : Runtime E) (sha256Hex : List UInt8 → Text)
    (claimObservations : List (RawObservation rt.tables)) (plan : PlannedCommit E)
    (prepared : PreparedJudgmentCommit rt) (store next : HostedStore) : Prop where
  commit : Commit rt sha256Hex claimObservations plan prepared store.generation next.generation
  truthful : ∀ raw ∈ claimObservations, ∀ observation, raw.parse = some observation →
    store.Shows observation
  titles : next.titles = prepared.claimIntents.publication.foldl publishTitle store.titles
  contents : next.contents = prepared.claimIntents.publication.foldl publishContent store.contents

/-- Some hosted commit leads from one store to the next. -/
def HostedStep (rt : Runtime E) (sha256Hex : List UInt8 → Text) (store next : HostedStore) : Prop :=
  ∃ claimObservations plan prepared,
    HostedCommit rt sha256Hex claimObservations plan prepared store next

/-- The ledger maps exactly the normalized title of each active decision to its number. -/
def LedgerExact (rt : Runtime E) (store : HostedStore) : Prop :=
  ∀ title number, store.titles.get? title = some number ↔
    ∃ path d, HoldsDecision rt store.generation.texts path d ∧ d.status = .active ∧
      normalizeTitle rt.tables d.title = title ∧ d.num = number

/-! ## The ledger over the cards -/

/-- The title that a card claims. -/
def DecisionCard.claim (card : DecisionCard) : Option Text :=
  if card.status = .active then some card.title else none

theorem claim_active (num : Nat) (title : Text) :
    DecisionCard.claim ⟨num, .active, title⟩ = some title := rfl

theorem claim_superseded (card : DecisionCard) :
    DecisionCard.claim { card with status := .superseded } = none := rfl

theorem ledgerExact_iff {rt : Runtime E} {store : HostedStore} :
    LedgerExact rt store ↔ OwnedNames.Exact DecisionCard.claim DecisionCard.num
      (cardAt? rt store.generation.texts) store.titles.get? := by
  refine forall_congr' fun title => forall_congr' fun number => iff_congr Iff.rfl ?_
  constructor
  · rintro ⟨path, d, hholds, hactive, htitle, hnum⟩
    refine ⟨path, _, hholds.cardAt?, ?_, hnum⟩
    rw [DecisionCard.claim, Decision.card, if_pos hactive, htitle]
  · rintro ⟨path, card, hcard, hclaim, hnum⟩
    obtain ⟨d, hholds, rfl⟩ := cardAt?_eq_some_iff.mp hcard
    unfold DecisionCard.claim at hclaim
    split_ifs at hclaim with hactive
    exact ⟨path, d, hholds, hactive, Option.some.inj hclaim, hnum⟩

theorem get?_put_update (titles : Table Text Nat) (title : Text) (owner : Nat) :
    (titles.put title owner).get? = update titles.get? title (some owner) := by
  funext other
  by_cases hother : other = title
  · rw [hother, Table.get?_put_self, Function.update_self]
  · rw [Table.get?_put_of_ne hother, Function.update_of_ne hother]

theorem get?_erase_update (titles : Table Text Nat) (title : Text) :
    (titles.erase title).get? = update titles.get? title none := by
  funext other
  by_cases hother : other = title
  · rw [hother, Table.get?_erase_self, Function.update_self]
  · rw [Table.get?_erase_of_ne hother, Function.update_of_ne hother]

theorem grants_of_answers {tables : UnicodeTables} {store : HostedStore}
    {probes : List (ClaimProbe tables)} {answers : List (ClaimObservation tables)}
    (hanswers : List.Forall₂ Compatible probes answers)
    (hshows : ∀ observation ∈ answers, store.Shows observation) :
    ∀ probe ∈ probes, store.Grants probe := by
  induction hanswers with
  | nil => exact List.forall_mem_nil _
  | cons hfirst hrest ih =>
      rw [List.forall_mem_cons] at hshows ⊢
      refine ⟨?_, ih hshows.2⟩
      cases hfirst with
      | absentTitle title => exact hshows.1
      | ownedTitle title owner => exact hshows.1
      | absentContent contentHash => exact hshows.1

/-- What a commit asks, the store grants. -/
theorem HostedCommit.grants {rt : Runtime E} {sha256Hex : List UInt8 → Text}
    {claimObservations : List (RawObservation rt.tables)} {plan : PlannedCommit E}
    {prepared : PreparedJudgmentCommit rt} {store next : HostedStore}
    (h : HostedCommit rt sha256Hex claimObservations plan prepared store next) :
    ∀ probe ∈ prepared.claimProbes, store.Grants probe := by
  obtain ⟨final, hfinal⟩ := h.commit.finalizes
  obtain ⟨parsed, answers, hparsed, hperm, hanswers, -⟩ := finalizeJudgmentCommit_ok_iff.mp hfinal
  refine grants_of_answers hanswers fun observation hin => ?_
  have hread := hperm.mem_iff.mp hin
  rw [← filterMap_of_mapM hparsed, List.mem_filterMap] at hread
  obtain ⟨raw, hraw, hparse⟩ := hread
  exact h.truthful raw hraw observation hparse

/-- A granted step of the cards, published, keeps the ledger exact. -/
theorem CardStep.ledger_exact {tables : UnicodeTables} {counter counter' : Nat}
    {before after : Text → Option DecisionCard} {probes : List (ClaimProbe tables)}
    {publication : List ClaimIntent} {store : HostedStore}
    (hstep : CardStep counter before after counter' probes publication)
    (hcards : CardsOk counter before) (hgrants : ∀ probe ∈ probes, store.Grants probe)
    (hexact : OwnedNames.Exact DecisionCard.claim DecisionCard.num before store.titles.get?) :
    OwnedNames.Exact DecisionCard.claim DecisionCard.num after
      (publication.foldl publishTitle store.titles).get? := by
  cases hstep with
  | update hheld htitle hnumber hafter => exact hafter ▸ hexact
  | @add path title number hash hfresh hnumber hafter =>
      have hfree : store.titles.get? title = none := hgrants _ List.mem_cons_self
      have hinsert := hexact.insert hfresh (claim_active (counter + 1) title) hfree
      have hpublished : ([ownerIntent .commitTitleOwner title number,
          contentIntent .commitContentHash hash].foldl publishTitle store.titles) =
            store.titles.put title number := rfl
      rw [hpublished, get?_put_update, hnumber, hafter]
      exact hinsert
  | @transfer path oldPath old title oldNumber number hash hfresh hheld htitle holdNumber hnumber
      hafter =>
      have howned : store.titles.get? title = some old.num :=
        holdNumber ▸ hgrants _ List.mem_cons_self
      have hclaim := hexact.name_of_owner hcards.distinct hheld howned
      have htransfer := hexact.transfer hcards.distinct hheld hclaim (claim_superseded old) hfresh
        (claim_active (counter + 1) title)
      have hpublished : ([transferIntent .transferTitleOwner title oldNumber number,
          contentIntent .commitContentHash hash].foldl publishTitle store.titles) =
            store.titles.put title number := rfl
      rw [hpublished, get?_put_update, hnumber, hafter]
      exact htransfer
  | @release path oldPath old oldTitle title oldNumber number hash hfresh hheld holdTitle holdNumber
      hnumber hne hafter =>
      have howned : store.titles.get? oldTitle = some old.num :=
        holdNumber ▸ hgrants _ List.mem_cons_self
      have hfree : store.titles.get? title = none :=
        hgrants _ (List.mem_cons_of_mem _ List.mem_cons_self)
      have hclaim := hexact.name_of_owner hcards.distinct hheld howned
      have hretire := hexact.retire hcards.distinct hheld hclaim (claim_superseded old)
      have hpath : path ≠ oldPath := by
        rintro rfl
        rw [hheld] at hfresh
        cases hfresh
      have htitle : title.1 ≠ oldTitle.1 := fun hsame => hne (Subtype.ext hsame)
      have hinsert := hretire.insert ((Function.update_of_ne hpath ..).trans hfresh)
        (claim_active (counter + 1) title) ((Function.update_of_ne htitle ..).trans hfree)
      have hpublished : ([ownerIntent .releaseTitleOwner oldTitle oldNumber,
          ownerIntent .commitTitleOwner title number,
          contentIntent .commitContentHash hash].foldl publishTitle store.titles) =
            (store.titles.erase oldTitle).put title number := rfl
      rw [hpublished, get?_put_update, get?_erase_update, hnumber, hafter]
      exact hinsert

/-! ## Runs -/

section

variable {rt : Runtime E} {sha256Hex : List UInt8 → Text}

/-- A contract over a target asks for the title under the target's number. -/
theorem Contract.owned {operation : Operation} {old primary : Decision E}
    {probes : List (ClaimProbe rt.tables)} {publication : List ClaimIntent}
    (h : Contract rt primary operation (some old) probes publication) (hne : operation ≠ .add) :
    ∃ title number, .ownedTitle title number ∈ probes ∧ number.1 = old.num := by
  cases h with
  | add htitle hnumber hhash => exact absurd rfl hne
  | update htitle hnumber hhash => exact ⟨_, _, List.mem_cons_self, hnumber⟩
  | transfer hold holdNumber htitle hnumber hhash => exact ⟨_, _, List.mem_cons_self, holdNumber⟩
  | release hold holdNumber htitle hnumber hhash hother =>
      exact ⟨_, _, List.mem_cons_self, holdNumber⟩

variable {claimObservations : List (RawObservation rt.tables)} {plan : PlannedCommit E}
  {prepared : PreparedJudgmentCommit rt} {store next : HostedStore}

theorem HostedCommit.ledgerExact (hyaml : rt.yaml.Lawful) (htables : rt.tables.Lawful)
    (h : HostedCommit rt sha256Hex claimObservations plan prepared store next)
    (hexact : LedgerExact rt store) : LedgerExact rt next := by
  rw [ledgerExact_iff] at hexact ⊢
  rw [h.titles]
  exact (h.commit.cardStep hyaml htables).ledger_exact
    (wellFormed_iff.mp h.commit.accepted.wellFormed).2 h.grants hexact

/-- The target of a commit is active. -/
theorem HostedCommit.target_active
    (h : HostedCommit rt sha256Hex claimObservations plan prepared store next)
    (hexact : LedgerExact rt store) {id : Text}
    (hid : prepared.payload.content.affectedDecisionId = some id) :
    ∃ d, HoldsDecision rt store.generation.texts (decisionPath id) d ∧ d.status = .active := by
  have hwell := h.commit.accepted.wellFormed
  obtain ⟨current, target, decisions, hparts⟩ := h.commit.parts
  have hoperation : prepared.payload.content.operation ≠ .add := by
    intro hadd
    rw [prepared.payload.content.valid.untargeted hadd] at hid
    cases hid
  cases htarget : target with
  | none => exact absurd (hparts.untargeted htarget) hoperation
  | some old =>
      obtain ⟨hstem, hholds⟩ := hparts.targeted old htarget
      obtain rfl : id = old.stem := Option.some.inj (hid.symm.trans hstem)
      have hcontract := hparts.contract
      rw [htarget] at hcontract
      obtain ⟨title, number, hprobe, hnumber⟩ := hcontract.owned hoperation
      obtain ⟨path, d, hholds', hactive, -, hnum⟩ := (hexact title number).mp (h.grants _ hprobe)
      obtain rfl := hwell.distinct path _ d old.decision hholds' hholds (hnum.trans hnumber)
      exact ⟨d, hholds', hactive⟩

end

/-- **The title ledger stays exact.** Whatever was committed since an accepted generation with an exact
ledger, the ledger is exact: no two active decisions share a normalized title, and the next commit
targets an active decision only and leaves the ledger exact again. -/
theorem hosted_run_ledger {rt : Runtime E} (hyaml : rt.yaml.Lawful) (htables : rt.tables.Lawful)
    {sha256Hex : List UInt8 → Text} {start store : HostedStore}
    (hstart : Accepted rt start.generation) (hexact : LedgerExact rt start)
    (hrun : Relation.ReflTransGen (HostedStep rt sha256Hex) start store) :
    LedgerExact rt store ∧
      (∀ path path' d d', HoldsDecision rt store.generation.texts path d →
        HoldsDecision rt store.generation.texts path' d' → d.status = .active → d'.status = .active →
          normalizeTitle rt.tables d.title = normalizeTitle rt.tables d'.title → path = path') ∧
      ∀ claimObservations plan prepared next,
        HostedCommit rt sha256Hex claimObservations plan prepared store next →
          LedgerExact rt next ∧ ∀ id, prepared.payload.content.affectedDecisionId = some id →
            ∃ d, HoldsDecision rt store.generation.texts (decisionPath id) d ∧
              d.status = .active := by
  have hinvariant : Accepted rt store.generation ∧ LedgerExact rt store := by
    induction hrun with
    | refl => exact ⟨hstart, hexact⟩
    | tail _ hstep ih =>
        obtain ⟨claimObservations, plan, prepared, hcommit⟩ := hstep
        exact ⟨hcommit.commit.accepts hyaml htables, hcommit.ledgerExact hyaml htables ih.2⟩
  obtain ⟨haccepted, hledger⟩ := hinvariant
  refine ⟨hledger, fun path path' d d' hholds hholds' hactive hactive' htitle => ?_,
    fun claimObservations plan prepared next hcommit =>
      ⟨hcommit.ledgerExact hyaml htables hledger, fun id hid => hcommit.target_active hledger hid⟩⟩
  have hown := (hledger _ _).mpr ⟨path, d, hholds, hactive, rfl, rfl⟩
  have hown' := (hledger _ _).mpr ⟨path', d', hholds', hactive', rfl, rfl⟩
  rw [htitle, hown'] at hown
  exact haccepted.wellFormed.distinct path path' d d' hholds hholds' (Option.some.inj hown).symm

/-- A run of one commit, from an empty store. -/
theorem first_commit_ledger :
    ∃ store : HostedStore, store.titles.get? "a".toList = some 1 ∧ LedgerExact sampleRuntime store := by
  obtain ⟨plan, prepared, next, hcommit, -, hintents⟩ := exists_first_commit
  let start : HostedStore := ⟨emptyGeneration, Table.empty, []⟩
  let store : HostedStore := ⟨next, prepared.claimIntents.publication.foldl publishTitle Table.empty,
    prepared.claimIntents.publication.foldl publishContent []⟩
  have hexact : LedgerExact sampleRuntime start := by
    intro title number
    constructor
    · exact fun h => by cases h
    · rintro ⟨path, d, ⟨text, htext, -⟩, -⟩
      cases htext
  have htruthful : ∀ raw ∈ firstObservations, ∀ observation, raw.parse = some observation →
      start.Shows observation := by
    simp only [firstObservations, List.forall_mem_cons, List.not_mem_nil, false_implies,
      implies_true, and_true]
    constructor
    · intro observation h
      cases h
      exact rfl
    · intro observation h
      cases h
      exact List.not_mem_nil
  have hrun : Relation.ReflTransGen (HostedStep sampleRuntime fun _ => []) start store :=
    .single ⟨_, _, _, hcommit, htruthful, rfl, rfl⟩
  refine ⟨store, ?_, (hosted_run_ledger plainYaml_lawful UnicodeTables.ascii_lawful accepted_empty
    hexact hrun).1⟩
  show (prepared.claimIntents.publication.foldl publishTitle Table.empty).get? _ = _
  rw [hintents]
  rfl

end Core
end Nauro
