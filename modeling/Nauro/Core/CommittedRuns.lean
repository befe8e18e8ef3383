import Mathlib.Logic.Relation
import Nauro.Core.HostedCommits
import Nauro.Foundation.OwnedNames

/-!
# Runs of hosted commits

Of each decision the title ledger knows a card: its number, its status and its normalized title.
-/

namespace Nauro
namespace Core

open Foundation

variable {E : Type}

/-! ## Cards -/

/-- What the ledger knows of a decision. -/
structure DecisionCard where
  num : Nat
  status : DecisionStatus
  title : Text
deriving DecidableEq

def Decision.card (tables : UnicodeTables) (d : Decision E) : DecisionCard :=
  ⟨d.num, d.status, normalizeTitle tables d.title⟩

/-- The card of the decision at a path, among the texts of the paths. -/
def cardAt? (rt : Runtime E) (texts : Text → Option Text) (path : Text) : Option DecisionCard :=
  (texts path).bind fun text => (readDecision? rt path text).map (Decision.card rt.tables)

section

variable {rt : Runtime E} {texts texts' : Text → Option Text} {path : Text}

theorem cardAt?_eq_some_iff {card : DecisionCard} :
    cardAt? rt texts path = some card ↔
      ∃ d, HoldsDecision rt texts path d ∧ d.card rt.tables = card := by
  simp only [cardAt?, Option.bind_eq_some_iff, Option.map_eq_some_iff, HoldsDecision]
  constructor
  · rintro ⟨text, htext, d, hread, hcard⟩
    exact ⟨d, ⟨text, htext, hread⟩, hcard⟩
  · rintro ⟨d, ⟨text, htext, hread⟩, hcard⟩
    exact ⟨text, htext, d, hread, hcard⟩

theorem HoldsDecision.cardAt? {d : Decision E} (h : HoldsDecision rt texts path d) :
    cardAt? rt texts path = some (d.card rt.tables) :=
  cardAt?_eq_some_iff.mpr ⟨d, h, rfl⟩

theorem cardAt?_congr (h : texts path = texts' path) :
    cardAt? rt texts path = cardAt? rt texts' path := by
  rw [cardAt?, cardAt?, h]

theorem cardAt?_openQuestionsPath : cardAt? rt texts openQuestionsPath = none := by
  rw [cardAt?]
  cases texts openQuestionsPath with
  | none => rfl
  | some text => rfl

end

/-- What a commit makes of the cards, with what it asks and publishes. -/
inductive CardStep {tables : UnicodeTables} (counter : Nat) (before after : Text → Option DecisionCard) :
    Nat → List (ClaimProbe tables) → List ClaimIntent → Prop where
  | update {path : Text} {card : DecisionCard} {title : NormalizedTitle tables}
      {number : DecisionNumber} {hash : Sha256} (hheld : before path = some card)
      (htitle : title.1 = card.title) (hnumber : number.1 = card.num) (hafter : after = before) :
      CardStep counter before after counter [.ownedTitle title number, .absentContent hash]
        [ownerIntent .retainTitleOwner title number, contentIntent .commitContentHash hash]
  | add {path : Text} {title : NormalizedTitle tables} {number : DecisionNumber} {hash : Sha256}
      (hfresh : before path = none) (hnumber : number.1 = counter + 1)
      (hafter : after = Function.update before path (some ⟨counter + 1, .active, title⟩)) :
      CardStep counter before after (counter + 1) [.absentTitle title, .absentContent hash]
        [ownerIntent .commitTitleOwner title number, contentIntent .commitContentHash hash]
  | transfer {path oldPath : Text} {old : DecisionCard} {title : NormalizedTitle tables}
      {oldNumber number : DecisionNumber} {hash : Sha256} (hfresh : before path = none)
      (hheld : before oldPath = some old) (htitle : title.1 = old.title)
      (holdNumber : oldNumber.1 = old.num) (hnumber : number.1 = counter + 1)
      (hafter : after = Function.update
        (Function.update before oldPath (some { old with status := .superseded })) path
          (some ⟨counter + 1, .active, title⟩)) :
      CardStep counter before after (counter + 1)
        [.ownedTitle title oldNumber, .absentContent hash]
        [transferIntent .transferTitleOwner title oldNumber number,
          contentIntent .commitContentHash hash]
  | release {path oldPath : Text} {old : DecisionCard} {oldTitle title : NormalizedTitle tables}
      {oldNumber number : DecisionNumber} {hash : Sha256} (hfresh : before path = none)
      (hheld : before oldPath = some old) (holdTitle : oldTitle.1 = old.title)
      (holdNumber : oldNumber.1 = old.num) (hnumber : number.1 = counter + 1)
      (hne : title ≠ oldTitle)
      (hafter : after = Function.update
        (Function.update before oldPath (some { old with status := .superseded })) path
          (some ⟨counter + 1, .active, title⟩)) :
      CardStep counter before after (counter + 1)
        [.ownedTitle oldTitle oldNumber, .absentTitle title, .absentContent hash]
        [ownerIntent .releaseTitleOwner oldTitle oldNumber, ownerIntent .commitTitleOwner title number,
          contentIntent .commitContentHash hash]

/-! ## What a commit does -/

section

variable {rt : Runtime E} {sha256Hex : List UInt8 → Text}
  {claimObservations : List (RawObservation rt.tables)} {plan : PlannedCommit E}
  {prepared : PreparedJudgmentCommit rt} {before after : CommittedGeneration}

/-- A generation within its counter holds nothing under the next number. -/
theorem texts_nextNumber (htables : rt.tables.Lawful) {counter : Nat} {texts : Text → Option Text}
    (hwell : WellFormed rt counter texts) (slug : Text) :
    texts (decisionPath (decisionNumberPrefix (counter + 1) ++ slug)) = none := by
  cases htext : texts (decisionPath (decisionNumberPrefix (counter + 1) ++ slug)) with
  | none => rfl
  | some text =>
      obtain ⟨d, hread⟩ := hwell.parses _ _ htext (isPrefixOf_decisionPath _)
      have hnum := readDecision?_num htables hread
      rw [ extractDecisionNumber_prefix htables, Option.getD_some] at hnum
      have hle := (hwell.numbered _ d ⟨text, htext, hread⟩).2
      omega

theorem cardAt?_put (current : Table Text Text) (key text : Text) :
    cardAt? rt (current.put key text).get? = Function.update (cardAt? rt current.get?) key
      ((readDecision? rt key text).map (Decision.card rt.tables)) := by
  funext path
  by_cases hpath : path = key
  · subst hpath
    rw [Function.update_self, cardAt?, Table.get?_put_self]
    rfl
  · rw [Function.update_of_ne hpath]
    exact cardAt?_congr (Table.get?_put_of_ne hpath text)

section

variable {current : Table Text Text} {target : Option (ScannedDecision E)}
  {decisions : PlannedDecisions E}

theorem CommitParts.cards_before
    (h : CommitParts rt plan prepared before after current target decisions) :
    cardAt? rt current.get? = cardAt? rt before.texts :=
  funext fun path => cardAt?_congr (h.reads path)

theorem CommitParts.cards_after
    (h : CommitParts rt plan prepared before after current target decisions) :
    cardAt? rt after.texts = cardAt? rt decisions.planned.get? := by
  funext path
  by_cases hpath : path = openQuestionsPath
  · rw [hpath, cardAt?_openQuestionsPath, cardAt?_openQuestionsPath]
  · exact cardAt?_congr (h.planned path (Or.inl hpath))

/-- The text that is put at a path is the one read back. -/
theorem readDecision?_put {current : Table Text Text} {key text : Text} {texts : Text → Option Text}
    {d : Decision E} (h : texts key = (current.put key text).get? key)
    (hholds : HoldsDecision rt texts key d) : readDecision? rt key text = some d := by
  obtain ⟨found, hfound, hread⟩ := hholds
  rw [h, Table.get?_put_self] at hfound
  cases hfound
  exact hread

/-- Two decisions under one claim have one card, their status aside. -/
theorem card_of_claim {tables : UnicodeTables} {old d : Decision E} {title : NormalizedTitle tables}
    {number : DecisionNumber} (htitle : title.1 = normalizeTitle tables old.title)
    (htitle' : title.1 = normalizeTitle tables d.title) (hnumber : number.1 = old.num)
    (hnumber' : number.1 = d.num) : d.card tables = { old.card tables with status := d.status } := by
  rw [Decision.card, Decision.card, ← htitle, ← htitle', ← hnumber, ← hnumber']

/-- The card of a new decision. -/
theorem newCard (hyaml : rt.yaml.Lawful) (htables : rt.tables.Lawful) {counter : Nat}
    {slug text : Text} {written d : Decision E} (hstatus : written.status = .active)
    (htext : formatDecision rt.yaml written = some text)
    (h : readDecision? rt (decisionPath (decisionNumberPrefix (counter + 1) ++ slug)) text = some d) :
    d.card rt.tables = ⟨counter + 1, .active, normalizeTitle rt.tables d.title⟩ := by
  have hnum := readDecision?_num htables h
  rw [ extractDecisionNumber_prefix htables, Option.getD_some] at hnum
  rw [Decision.card, hnum, readDecision?_status hyaml htext h, hstatus]

section

variable (hyaml : rt.yaml.Lawful) (htables : rt.tables.Lawful)
  (hwell : WellFormed rt before.decisionCounter before.texts)
  (h : CommitParts rt plan prepared before after current target decisions)
  {primary : Decision E}

include hyaml h

/-- An update keeps every card. -/
theorem CommitParts.update_step {old : ScannedDecision E} {written : Decision E} {text : Text}
    {probes : List (ClaimProbe rt.tables)} {publication : List ClaimIntent}
    (hdecisions : decisions.planned = current.put (decisionPath old.stem) text)
    (hstatus : written.status = old.decision.status)
    (htext : formatDecision rt.yaml written = some text)
    (hheld : HoldsDecision rt before.texts (decisionPath old.stem) old.decision)
    (hreread : HoldsDecision rt after.texts (decisionPath old.stem) primary)
    (hcontract : Contract rt written .update (some old.decision) probes publication)
    (hagain : Contract rt primary .update (some primary) probes publication) :
    CardStep before.decisionCounter (cardAt? rt before.texts) (cardAt? rt after.texts)
      before.decisionCounter probes publication := by
  have hcards := h.cards_after
  rw [hdecisions, cardAt?_put, h.cards_before] at hcards
  have hput := h.planned _ (Or.inl (decisionPath_ne_openQuestionsPath old.stem))
  rw [hdecisions] at hput
  have hread := readDecision?_put hput hreread
  have hkept := readDecision?_status hyaml htext hread
  cases hcontract with
  | update htitle hnumber hhash =>
      cases hagain with
      | update htitle' hnumber' hhash' =>
          refine .update hheld.cardAt? htitle hnumber ?_
          have hcard : primary.card rt.tables = old.decision.card rt.tables := by
            rw [card_of_claim htitle htitle' hnumber hnumber', hkept, hstatus]
            rfl
          rw [hcards, hread, Option.map_some, hcard, ← hheld.cardAt?, Function.update_eq_self]

include htables hwell

/-- An add puts one new card under the next number. -/
theorem CommitParts.add_step {written : Decision E} {stem text slug : Text}
    {probes : List (ClaimProbe rt.tables)} {publication : List ClaimIntent}
    (hstem : stem = decisionNumberPrefix (before.decisionCounter + 1) ++ slug)
    (hdecisions : decisions.planned = current.put (decisionPath stem) text)
    (hstatus : written.status = .active) (hnum : written.num = before.decisionCounter + 1)
    (htext : formatDecision rt.yaml written = some text)
    (hreread : HoldsDecision rt after.texts (decisionPath stem) primary)
    (hcontract : Contract rt written .add none probes publication)
    (hagain : Contract rt primary .add none probes publication) :
    CardStep before.decisionCounter (cardAt? rt before.texts) (cardAt? rt after.texts)
      (before.decisionCounter + 1) probes publication := by
  have hcards := h.cards_after
  rw [hdecisions, cardAt?_put, h.cards_before] at hcards
  have hput := h.planned _ (Or.inl (decisionPath_ne_openQuestionsPath stem))
  rw [hdecisions] at hput
  have hread := readDecision?_put hput hreread
  subst hstem
  have hcard := newCard hyaml htables hstatus htext hread
  have hfresh : cardAt? rt before.texts (decisionPath
      (decisionNumberPrefix (before.decisionCounter + 1) ++ slug)) = none := by
    rw [cardAt?, texts_nextNumber htables hwell slug]
    rfl
  cases hcontract with
  | add htitle hnumber hhash =>
      cases hagain with
      | add htitle' hnumber' hhash' =>
          refine .add hfresh (hnumber.trans hnum) ?_
          rw [hcards, hread, Option.map_some, hcard, htitle']

/-- A supersede puts one new card and retires the old one. -/
theorem CommitParts.supersede_step {old : ScannedDecision E} {written : Decision E}
    {stem text oldText slug : Text} {probes : List (ClaimProbe rt.tables)}
    {publication : List ClaimIntent} {reread : Decision E}
    (hstem : stem = decisionNumberPrefix (before.decisionCounter + 1) ++ slug)
    (hdecisions : decisions.planned =
      (current.put (decisionPath stem) text).put (decisionPath old.stem) oldText)
    (hstatus : written.status = .active) (hnum : written.num = before.decisionCounter + 1)
    (htext : formatDecision rt.yaml written = some text)
    (hold : formatDecision rt.yaml (markSuperseded old.decision (before.decisionCounter + 1)) =
      some oldText)
    (hheld : HoldsDecision rt before.texts (decisionPath old.stem) old.decision)
    (hnew : HoldsDecision rt after.texts (decisionPath stem) primary)
    (hreread : HoldsDecision rt after.texts (decisionPath old.stem) reread)
    (hcontract : Contract rt written .supersede (some old.decision) probes publication)
    (hagain : Contract rt primary .supersede (some reread) probes publication) :
    CardStep before.decisionCounter (cardAt? rt before.texts) (cardAt? rt after.texts)
      (before.decisionCounter + 1) probes publication := by
  subst hstem
  have hnone := texts_nextNumber htables hwell slug
  have hfresh : cardAt? rt before.texts (decisionPath
      (decisionNumberPrefix (before.decisionCounter + 1) ++ slug)) = none := by
    rw [cardAt?, hnone]
    rfl
  -- the old decision stands, so its path is another one
  have hne : decisionPath (decisionNumberPrefix (before.decisionCounter + 1) ++ slug) ≠
      decisionPath old.stem := by
    intro hsame
    have hcard := hheld.cardAt?
    rw [← hsame, hfresh] at hcard
    cases hcard
  have hcards := h.cards_after
  rw [hdecisions, cardAt?_put, cardAt?_put, h.cards_before] at hcards
  have hputOld := h.planned _ (Or.inl (decisionPath_ne_openQuestionsPath old.stem))
  have hputNew := h.planned _ (Or.inl (decisionPath_ne_openQuestionsPath
    (decisionNumberPrefix (before.decisionCounter + 1) ++ slug)))
  rw [hdecisions] at hputOld hputNew
  rw [Table.get?_put_of_ne hne] at hputNew
  have hreadOld := readDecision?_put hputOld hreread
  have hreadNew := readDecision?_put hputNew hnew
  have hcard := newCard hyaml htables hstatus htext hreadNew
  have hretired : reread.status = .superseded := readDecision?_status hyaml hold hreadOld
  rw [hreadOld, hreadNew, Option.map_some, Option.map_some, hcard] at hcards
  cases hcontract with
  | transfer holdTitle holdNumber htitle hnumber hhash =>
      cases hagain with
      | transfer holdTitle' holdNumber' htitle' hnumber' hhash' =>
          refine .transfer hfresh hheld.cardAt? holdTitle holdNumber (hnumber.trans hnum) ?_
          rw [hcards, card_of_claim holdTitle holdTitle' holdNumber holdNumber', hretired, htitle',
            Function.update_comm hne]
  | release holdTitle holdNumber htitle hnumber hhash hother =>
      cases hagain with
      | release holdTitle' holdNumber' htitle' hnumber' hhash' hother' =>
          refine .release hfresh hheld.cardAt? holdTitle holdNumber (hnumber.trans hnum) hother ?_
          rw [hcards, card_of_claim holdTitle holdTitle' holdNumber holdNumber', hretired, htitle',
            Function.update_comm hne]

end

/-- What a commit makes of the cards. -/
theorem CommitParts.cardStep (hyaml : rt.yaml.Lawful) (htables : rt.tables.Lawful)
    (hwell : WellFormed rt before.decisionCounter before.texts)
    (hreread : rereadContract rt prepared.payload.content plan =
      some (prepared.claimProbes, prepared.claimIntents))
    (h : CommitParts rt plan prepared before after current target decisions) :
    CardStep before.decisionCounter (cardAt? rt before.texts) (cardAt? rt after.texts)
      after.decisionCounter prepared.claimProbes prepared.claimIntents.publication := by
  obtain ⟨primary, hprimary, huntargeted, htargeted⟩ := rereadContract_ok hreread
  have hafter : plan.artifacts.get? = after.texts := funext fun path => (h.artifacts path).symm
  rw [hafter, h.stem] at hprimary
  simp only [hafter] at htargeted
  have hcounter := h.counter
  have hcontract := h.contract
  rw [hcounter]
  cases h.writes with
  | @update old written text hoperation hstatus htext =>
      obtain ⟨hid, hheld⟩ := h.targeted old rfl
      obtain ⟨reread, hreread, hagain⟩ := htargeted _ hid
      obtain rfl : reread = primary := hreread.unique hprimary
      rw [hoperation] at hcontract hagain
      rw [if_pos hoperation]
      exact h.update_step hyaml rfl hstatus htext hheld hprimary hcontract hagain
  | @add written stem text slug hoperation hstem hstatus hnum htext =>
      have hagain := huntargeted (prepared.payload.content.valid.untargeted hoperation)
      rw [hoperation] at hcontract hagain
      rw [if_neg (by rw [hoperation]; decide)]
      exact h.add_step hyaml htables hwell hstem rfl hstatus hnum htext hprimary hcontract hagain
  | @supersede old written stem text oldText slug hoperation hstem hstatus hnum htext hold =>
      obtain ⟨hid, hheld⟩ := h.targeted old rfl
      obtain ⟨reread, hreread, hagain⟩ := htargeted _ hid
      rw [hoperation] at hcontract hagain
      rw [if_neg (by rw [hoperation]; decide)]
      exact h.supersede_step hyaml htables hwell hstem rfl hstatus hnum htext hold hheld hprimary
        hreread hcontract hagain
end

/-! ## Cards stay numbered -/

/-- Every card has a number within the counter, and no number comes twice. -/
structure CardsOk (counter : Nat) (cards : Text → Option DecisionCard) : Prop where
  numbered : ∀ path card, cards path = some card → 0 < card.num ∧ card.num ≤ counter
  distinct : OwnedNames.Distinct DecisionCard.num cards

/-- A card with a number keeps the others in order. -/
theorem CardsOk.put {counter counter' : Nat} {cards : Text → Option DecisionCard} {path : Text}
    {card : DecisionCard} (h : CardsOk counter cards) (hle : counter ≤ counter')
    (hnum : 0 < card.num ∧ card.num ≤ counter')
    (hother : ∀ path' card', cards path' = some card' → card'.num = card.num → path' = path) :
    CardsOk counter' (Function.update cards path (some card)) := by
  have hcases : ∀ {path' card'}, Function.update cards path (some card) path' = some card' →
      path' = path ∧ card' = card ∨ path' ≠ path ∧ cards path' = some card' := by
    intro path' card' hcard'
    by_cases hpath : path' = path
    · subst hpath
      rw [Function.update_self] at hcard'
      cases hcard'
      exact Or.inl ⟨rfl, rfl⟩
    · rw [Function.update_of_ne hpath] at hcard'
      exact Or.inr ⟨hpath, hcard'⟩
  constructor
  · intro path' card' hcard'
    rcases hcases hcard' with ⟨-, rfl⟩ | ⟨-, hheld⟩
    · exact hnum
    · obtain ⟨hpos, hbound⟩ := h.numbered path' card' hheld
      exact ⟨hpos, hbound.trans hle⟩
  · intro p p' c c' hp hp' hsame
    rcases hcases hp with ⟨rfl, rfl⟩ | ⟨hne, hheld⟩ <;>
      rcases hcases hp' with ⟨rfl, rfl⟩ | ⟨hne', hheld'⟩
    · rfl
    · exact (hother p' c' hheld' hsame.symm).symm
    · exact hother p c hheld hsame
    · exact h.distinct p p' c c' hheld hheld' hsame

/-- A card under the next number. -/
theorem CardsOk.next {counter : Nat} {cards : Text → Option DecisionCard} (h : CardsOk counter cards)
    (path : Text) (status : DecisionStatus) (title : Text) :
    CardsOk (counter + 1) (Function.update cards path (some ⟨counter + 1, status, title⟩)) := by
  refine h.put (Nat.le_succ counter) ⟨Nat.succ_pos counter, Nat.le_refl _⟩ ?_
  intro path' card' hheld hsame
  have hbound := (h.numbered path' card' hheld).2
  simp only at hsame
  omega

/-- A card that changes its status. -/
theorem CardsOk.restatus {counter : Nat} {cards : Text → Option DecisionCard}
    (h : CardsOk counter cards) {path : Text} {card : DecisionCard} (hheld : cards path = some card)
    (status : DecisionStatus) :
    CardsOk counter (Function.update cards path (some { card with status })) :=
  h.put (Nat.le_refl counter) (h.numbered path card hheld) fun path' card' hheld' hsame =>
    h.distinct path' path card' card hheld' hheld hsame

theorem CardStep.cardsOk {tables : UnicodeTables} {counter counter' : Nat}
    {before after : Text → Option DecisionCard} {probes : List (ClaimProbe tables)}
    {publication : List ClaimIntent}
    (hstep : CardStep counter before after counter' probes publication) (h : CardsOk counter before) :
    CardsOk counter' after := by
  cases hstep with
  | update hheld htitle hnumber hafter => exact hafter ▸ h
  | add hfresh hnumber hafter => exact hafter ▸ h.next _ _ _
  | transfer hfresh hheld htitle holdNumber hnumber hafter =>
      exact hafter ▸ (h.restatus hheld .superseded).next _ _ _
  | release hfresh hheld holdTitle holdNumber hnumber hne hafter =>
      exact hafter ▸ (h.restatus hheld .superseded).next _ _ _

/-- A generation is well formed when its decisions parse and its cards are in order. -/
theorem wellFormed_iff {counter : Nat} {texts : Text → Option Text} :
    WellFormed rt counter texts ↔
      (∀ path text, texts path = some text → decisionsPrefix.isPrefixOf path = true →
        ∃ d, readDecision? rt path text = some d) ∧ CardsOk counter (cardAt? rt texts) := by
  constructor
  · intro h
    refine ⟨h.parses, fun path card hcard => ?_, fun path path' card card' hcard hcard' hnum => ?_⟩
    · obtain ⟨d, hholds, rfl⟩ := cardAt?_eq_some_iff.mp hcard
      exact h.numbered path d hholds
    · obtain ⟨d, hholds, rfl⟩ := cardAt?_eq_some_iff.mp hcard
      obtain ⟨d', hholds', rfl⟩ := cardAt?_eq_some_iff.mp hcard'
      exact h.distinct path path' d d' hholds hholds' hnum
  · rintro ⟨hparses, hcards⟩
    exact {
      parses := hparses
      numbered := fun path d hholds => hcards.numbered path _ hholds.cardAt?
      distinct := fun path path' d d' hholds hholds' hnum =>
        hcards.distinct path path' _ _ hholds.cardAt? hholds'.cardAt? hnum }

/-! ## Runs -/

/-- The bytes of every path are UTF-8 when all artifacts are planned. -/
theorem isUtf8_of_perm (h : after.artifacts.Perm plan.committed) : after.IsUtf8 := by
  intro artifact hin
  obtain ⟨entry, -, rfl⟩ := List.mem_map.mp (h.mem_iff.mp hin)
  exact ⟨entry.2, rfl⟩

theorem members_of_perm (hmembers : ∀ path ∈ plan.artifacts.keys, isProtectedMember path = true)
    (h : after.artifacts.Perm plan.committed) : after.Members := by
  intro artifact hin
  obtain ⟨entry, hentry, rfl⟩ := List.mem_map.mp (h.mem_iff.mp hin)
  exact hmembers entry.1 (List.mem_map.mpr ⟨entry, hentry, rfl⟩)

theorem Accepted.wellFormed {generation : CommittedGeneration} (h : Accepted rt generation) :
    WellFormed rt generation.decisionCounter generation.texts :=
  (parse_ok_iff.mp h.2).2

theorem Commit.accepted (h : Commit rt sha256Hex claimObservations plan prepared before after) :
    Accepted rt before := by
  obtain ⟨parsed, -, -, -, hparsed, -⟩ := prepareJudgmentCommit_ok h.prepares
  exact ⟨h.members, parsed, hparsed⟩

/-- What a commit makes of the cards. -/
theorem Commit.cardStep (hyaml : rt.yaml.Lawful) (htables : rt.tables.Lawful)
    (h : Commit rt sha256Hex claimObservations plan prepared before after) :
    CardStep before.decisionCounter (cardAt? rt before.texts) (cardAt? rt after.texts)
      after.decisionCounter prepared.claimProbes prepared.claimIntents.publication := by
  obtain ⟨current, target, decisions, hparts⟩ := h.parts
  exact hparts.cardStep hyaml htables h.accepted.wellFormed h.derives.reread

/-- The generation after a commit is accepted again. -/
theorem Commit.accepts (hyaml : rt.yaml.Lawful) (htables : rt.tables.Lawful)
    (h : Commit rt sha256Hex claimObservations plan prepared before after) : Accepted rt after := by
  have hwell := h.accepted.wellFormed
  obtain ⟨current, target, decisions, hparts⟩ := h.parts
  obtain ⟨primary, ⟨primaryText, hprimaryText, hprimary⟩, -, htargeted⟩ :=
    rereadContract_ok h.derives.reread
  refine ⟨members_of_perm h.derives.members h.artifacts,
    parse_ok_iff.mpr ⟨isUtf8_of_perm h.artifacts, wellFormed_iff.mpr ⟨fun path text htext hpath => ?_,
      (h.cardStep hyaml htables).cardsOk (wellFormed_iff.mp hwell).2⟩⟩⟩
  by_cases hnamed : path ∈ namedPaths prepared.payload.content plan
  · -- a named decision has been reread
    rw [hparts.artifacts] at htext
    simp only [namedPaths, List.cons_append, List.mem_cons, List.mem_append, Option.mem_toList,
      Option.map_eq_some_iff] at hnamed
    rcases hnamed with rfl | ⟨id, hid, rfl⟩ | hquestions
    · obtain rfl : primaryText = text := Option.some.inj (hprimaryText.symm.trans htext)
      exact ⟨primary, hprimary⟩
    · obtain ⟨reread, ⟨found, hfound, hread⟩, -⟩ := htargeted id hid
      obtain rfl : found = text := Option.some.inj (hfound.symm.trans htext)
      exact ⟨reread, hread⟩
    · split_ifs at hquestions
      · cases hquestions
      · rw [List.mem_singleton.mp hquestions] at hpath
        cases hpath
  · exact hwell.parses path text ((hparts.frame hnamed).symm.trans htext) hpath

end

/-- Some commit leads from one generation to the next. -/
def CommitStep (rt : Runtime E) (sha256Hex : List UInt8 → Text)
    (before after : CommittedGeneration) : Prop :=
  ∃ claimObservations plan prepared,
    Commit rt sha256Hex claimObservations plan prepared before after

/-- **Commits keep generations well formed.** Whatever was committed since an accepted generation, the
generation is accepted; and so is the next one, with the unnamed artifacts as they were and a counter
that grew by one, or not at all on an update. -/
theorem commit_run_wellFormed {rt : Runtime E} (hyaml : rt.yaml.Lawful) (htables : rt.tables.Lawful)
    {sha256Hex : List UInt8 → Text} {start generation : CommittedGeneration}
    (hstart : Accepted rt start)
    (hrun : Relation.ReflTransGen (CommitStep rt sha256Hex) start generation) :
    Accepted rt generation ∧ WellFormed rt generation.decisionCounter generation.texts ∧
      ∀ claimObservations plan prepared next,
        Commit rt sha256Hex claimObservations plan prepared generation next →
          Accepted rt next ∧ WellFormed rt next.decisionCounter next.texts ∧
            (∀ path, path ∉ namedPaths prepared.payload.content plan →
              next.texts path = generation.texts path) ∧
            next.decisionCounter = generation.decisionCounter +
              if prepared.payload.content.operation = .update then 0 else 1 := by
  have haccepted : Accepted rt generation := by
    induction hrun with
    | refl => exact hstart
    | tail _ hstep _ =>
        obtain ⟨claimObservations, plan, prepared, hcommit⟩ := hstep
        exact hcommit.accepts hyaml htables
  refine ⟨haccepted, haccepted.wellFormed, fun claimObservations plan prepared next hcommit => ?_⟩
  have hnext := hcommit.accepts hyaml htables
  obtain ⟨current, target, decisions, hparts⟩ := hcommit.parts
  refine ⟨hnext, hnext.wellFormed, fun path hpath => hparts.frame hpath, ?_⟩
  rw [hparts.counter]
  split_ifs <;> rfl

/-! ## A first commit -/

def emptyGeneration : CommittedGeneration where
  generationId := "01ARZ3NDEKTSV4RRFFQ69G5FAV".toList
  decisionCounter := 0
  artifacts := []
  ulid := rfl
  uniquePaths := List.nodup_nil

def firstPayload : ApprovedPayload :=
  .preTeam samplePayload.base
    { samplePayload.content with
      rationale := "One file for each decision.".toList
      valid := { samplePayload.content.valid with rationale := by decide } }

def firstObservations : List (RawObservation sampleRuntime.tables) :=
  [.model (.absentTitle sampleTitle), .model (.absentContent sampleHash)]

/-- Whether a plan is reread as the contract of the first commit. -/
def readsFirst (plan : PlannedCommit Empty) : Bool :=
  plan.artifacts.keys.all isProtectedMember &&
    rereadContract sampleRuntime firstPayload.content plan ==
      some (samplePrepared.claimProbes, samplePrepared.claimIntents) &&
    buildClaimContract sampleRuntime .add none plan.primary ==
      some (samplePrepared.claimProbes, samplePrepared.claimIntents)

theorem accepted_empty : Accepted sampleRuntime emptyGeneration :=
  ⟨List.forall_mem_nil _, ⟨Table.empty, []⟩, rfl⟩

/-- A first decision is committed to a generation without artifacts. -/
theorem exists_first_commit :
    ∃ plan prepared next, Commit sampleRuntime (fun _ => []) firstObservations plan prepared
      emptyGeneration next ∧ prepared.claimProbes = samplePrepared.claimProbes ∧
        prepared.claimIntents = samplePrepared.claimIntents := by
  have hprepares : (prepareJudgmentCommit sampleRuntime firstPayload
      samplePrepared.approvalAttestation emptyGeneration).toOption.any readsFirst = true := by
    decide +kernel
  obtain ⟨plan, hplan, hreads⟩ := (Option.any_eq_true _ _).mp hprepares
  have hplan : prepareJudgmentCommit sampleRuntime firstPayload samplePrepared.approvalAttestation
      emptyGeneration = .ok plan := by
    revert hplan
    cases prepareJudgmentCommit sampleRuntime firstPayload samplePrepared.approvalAttestation
      emptyGeneration with
    | error error => exact fun h => by cases h
    | ok found => exact fun h => by cases h; rfl
  simp only [readsFirst, Bool.and_eq_true, List.all_eq_true, beq_iff_eq] at hreads
  obtain ⟨⟨hmembers, hreread⟩, hcontract⟩ := hreads
  let prepared : PreparedJudgmentCommit sampleRuntime :=
    { samplePrepared with
      payload := firstPayload
      newDecisionCounter := plan.newDecisionCounter
      plannedArtifacts := plan.artifacts.entries.map fun entry =>
        ⟨entry.1, EscapedUtf8.utf8 entry.2⟩
      target := none
      primary := plan.primary
      contract := hcontract }
  have hanswers : List.Forall₂ Compatible prepared.claimProbes
      [.absentTitle sampleTitle, .absentContent sampleHash] :=
    .cons (.absentTitle _) (.cons (.absentContent _) .nil)
  obtain ⟨final, hfinal, -⟩ := finalPlan_ok (fun _ => []) hanswers
  refine ⟨plan, prepared, ⟨emptyGeneration.generationId, plan.newDecisionCounter, plan.committed,
    emptyGeneration.ulid, ?_⟩, ?_, rfl, rfl⟩
  · rw [PlannedCommit.committed, List.map_map]
    exact plan.artifacts.distinct
  · exact {
      members := List.forall_mem_nil _
      prepares := hplan
      derives := {
        target := ⟨⟨Table.empty, []⟩, none, rfl, rfl, rfl⟩
        primary := rfl
        counter := rfl
        artifacts := List.Perm.refl _
        members := hmembers
        reread := hreread }
      finalizes := ⟨final, finalizeJudgmentCommit_ok_iff.mpr
        ⟨_, _, rfl, List.Perm.refl _, hanswers, hfinal⟩⟩
      artifacts := List.Perm.refl _
      counter := rfl }

/-- A run of one commit. -/
theorem first_commit_wellFormed :
    ∃ next, Relation.ReflTransGen (CommitStep sampleRuntime fun _ => []) emptyGeneration next ∧
      WellFormed sampleRuntime next.decisionCounter next.texts := by
  obtain ⟨plan, prepared, next, hcommit, -⟩ := exists_first_commit
  have hrun : Relation.ReflTransGen (CommitStep sampleRuntime fun _ => []) emptyGeneration next :=
    .single ⟨_, _, _, hcommit⟩
  exact ⟨next, hrun, (commit_run_wellFormed plainYaml_lawful UnicodeTables.ascii_lawful
    accepted_empty hrun).2.1⟩

end Core
end Nauro
