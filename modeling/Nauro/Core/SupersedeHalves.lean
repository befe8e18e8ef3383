import Nauro.Core.ProposeReadBack
import Nauro.Core.StoreGrowth

/-!
# A supersede that stops half way

A supersede writes the new decision, the hash index, the new decision with its backlink and the
flipped old decision. Only the backlink ties the new decision to the old one, so a run that stops
before it leaves a store that looks like any other.

* `half_supersede_silent` — a stop that no finding shows, and one that no plan closes.
-/

namespace Nauro
namespace Core

open Foundation

variable {E : Type}

/-! ## The writes -/

/-- One write of a supersede to the store. -/
inductive StoreWrite where
  | decision (stem text : Text)
  | hashIndex (contentHash : Text)

def StoreWrite.run (store : Store) : StoreWrite → Store
  | .decision stem text => store.writeDecision stem text
  | .hashIndex contentHash => store.addHash contentHash

/-- The store writes behind the decision writes of a run that makes a new decision. -/
def storeWrites (rt : Runtime E) (p : Proposal) : List (DecisionWrite E) → List StoreWrite
  | [] => []
  | first :: rest =>
      .decision first.stem first.text ::
        .hashIndex (computeHash rt p.title p.rationaleOrTitle) ::
          rest.map fun write => .decision write.stem write.text

/-- The store when a run stops after some of its writes. -/
def storeAfter (rt : Runtime E) (store : Store) (p : Proposal) (progress : Progress E)
    (done : Nat) : Store :=
  ((storeWrites rt p progress.writes).take done).foldl StoreWrite.run store

/-- A confirmed supersede of an active decision. -/
structure ConfirmedSupersede (rt : Runtime E) (store : Store) (p : Proposal) (oldNum : Nat)
    (executed : Executed) (progress : Progress E) : Prop where
  operation : p.operation = .supersede
  names : p.affected?.bind (extractDecisionNumber rt.tables) = some oldNum
  active : ∃ old, byNum (parseAllDecisions rt store) oldNum = some old ∧ old.status = .active
  confirmed : proposeDecision rt store p = .confirmed executed progress

theorem ConfirmedSupersede.trace {rt : Runtime E} {store : Store} {p : Proposal} {oldNum : Nat}
    {executed : Executed} {progress : Progress E}
    (h : ConfirmedSupersede rt store p oldNum executed progress) :
    ∃ t : SupersedeTrace E, t.Follows rt p oldNum ⟨store, []⟩ ∧
      progress.writes = t.writes (p.newStem rt (nextDecisionNum rt store)) oldNum ∧
      progress.store.decisions =
        (t.afterBacklink rt p ⟨store, []⟩).decisions.put t.oldStem t.oldText := by
  obtain ⟨id, hid, hnum⟩ := Option.bind_eq_some_iff.mp h.names
  have hrun := (proposeDecision_confirmed_iff.mp h.confirmed).2
  have hdo : executeOperation rt p = doSupersede rt p id := by
    rw [executeOperation, h.operation, hid]
  rw [hdo] at hrun
  obtain ⟨oldNum', t, hnum', hfollows, hwrites, hdecisions⟩ := doSupersede_ok hrun
  obtain rfl : oldNum = oldNum' := Option.some.inj (hnum.symm.trans hnum')
  exact ⟨t, hfollows, hwrites, hdecisions⟩

/-! ## Reading a written decision back -/

/-- What a read gives back of a written decision: its frontmatter, with the number of its file. -/
theorem read_written {rt : Runtime E} (hyaml : rt.yaml.Lawful) (hread : ReadsText rt.readText)
    {d d' : Decision E} {text filename : Text} (hformat : formatDecision rt.yaml d = some text)
    (hparse : parseDecision rt.tables rt.yaml (rt.readText text) filename = .ok d') :
    d'.status = d.status ∧ d'.supersedes = d.supersedes ∧ d'.supersededBy = d.supersededBy := by
  obtain rfl := formatDecision_eq_some hformat
  have hfront : '\r' ∉ openFence ++ rt.yaml.dump d.frontmatter ++ openFence := by
    have hfence : '\r' ∉ openFence := by decide
    simp only [List.mem_append, not_or]
    exact ⟨⟨hfence, hyaml.dump_cr _⟩, hfence⟩
  have htext : ∃ body, rt.readText (writtenText rt.yaml d) =
      openFence ++ rt.yaml.dump d.frontmatter ++ openFence ++ body := by
    rcases hread with hid | huniversal
    · exact ⟨writtenBody d, by rw [hid]; rfl⟩
    · exact ⟨universalNewlines (writtenBody d), by
        rw [huniversal, writtenText, universalNewlines_append hfront]⟩
  obtain ⟨body, hbody⟩ := htext
  rw [hbody, parseDecision_fenced hyaml] at hparse
  split_ifs at hparse
  cases hparts : parseBody body with
  | error error =>
      rw [hparts] at hparse
      cases hparse
  | ok parts =>
      rw [hparts] at hparse
      simp only [Except.bind] at hparse
      cases hvalid : Decision.validate
          { d with
            rejected := parts.2.2, num := (extractDecisionNumber rt.tables filename).getD 0,
            title := parts.1, rationale := parts.2.1, body,
            content := openFence ++ rt.yaml.dump d.frontmatter ++ openFence ++ body } with
      | error error =>
          rw [hvalid] at hparse
          cases hparse
      | ok found =>
          rw [hvalid] at hparse
          cases hparse
          obtain ⟨rfl, -⟩ := Decision.validate_eq_ok_iff.mp hvalid
          exact ⟨rfl, rfl, rfl⟩

/-- A new decision is active and has no reference. -/
theorem newDecision_fields {rt : Runtime E} {p : Proposal} {number : Nat} {d : Decision E}
    (h : p.newDecision rt number = some d) :
    d.status = .active ∧ d.supersedes = none ∧ d.supersededBy = none := by
  obtain ⟨fields, -, hbuilt⟩ := Option.bind_eq_some_iff.mp h
  cases hvalid : (fields.decision none p.extraFields : Decision E).validate with
  | error error =>
      rw [buildNewDecision, hvalid] at hbuilt
      cases hbuilt
  | ok found =>
      rw [buildNewDecision, hvalid] at hbuilt
      cases hbuilt
      obtain ⟨rfl, -⟩ := Decision.validate_eq_ok_iff.mp hvalid
      exact ⟨rfl, rfl, rfl⟩

/-! ## What is reported -/

/-- A store with a new decision file that no other file is tied to. -/
structure UnlinkedHalf (rt : Runtime E) (store half : Store) (stem : Text) : Prop where
  grown : store.Grown half stem
  /-- Only a title that an active decision has is reported. -/
  title : ∃ new, half.parseAt rt stem = some (.ok new) ∧
    ((diagnoseStore rt half).isClean = true ↔ ∀ d ∈ parseAllDecisions rt store,
      d.status = .active → normalizeTitle rt.tables d.title ≠ normalizeTitle rt.tables new.title)
  orphans : (diagnoseStore rt half).supersedeOrphans = (diagnoseStore rt store).supersedeOrphans

/-- What the doctor and the planner make of a supersede that stops between its four writes. -/
structure HalfSupersede (rt : Runtime E) (store : Store) (p : Proposal) (oldNum : Nat)
    (progress : Progress E) : Prop where
  writes : (storeWrites rt p progress.writes).length = 4
  complete : (storeAfter rt store p progress 4).decisions = progress.store.decisions
  unwritten : storeAfter rt store p progress 0 = store
  unlinked : ∀ done, done = 1 ∨ done = 2 →
    UnlinkedHalf rt store (storeAfter rt store p progress done)
      (p.newStem rt (nextDecisionNum rt store))
  linked : ⟨nextDecisionNum rt store, oldNum⟩ ∈
      (diagnoseStore rt (storeAfter rt store p progress 3)).supersedeOrphans ∨
    (diagnoseStore rt (storeAfter rt store p progress 3)).isClean = false
  repaired : ⟨nextDecisionNum rt store, oldNum⟩ ∈
      (diagnoseStore rt (storeAfter rt store p progress 3)).supersedeOrphans →
    ∀ assessment plan,
      planSupersedeRepair rt (storeAfter rt store p progress 3) = some assessment →
      assessment.plan = some plan →
      (applyRepair (storeAfter rt store p progress 3) plan).decisions = progress.store.decisions

section

variable {rt : Runtime E} {store : Store}

/-- A decision file without references joins a clean store. -/
theorem unlinkedHalf_of_clean (htables : rt.tables.Lawful)
    (hclean : (diagnoseStore rt store).isClean = true) {half : Store} {stem : Text}
    (hgrown : store.Grown half stem)
    (hnumber : extractDecisionNumber rt.tables stem = some (nextDecisionNum rt store))
    {new : Decision E} (hparse : half.parseAt rt stem = some (.ok new))
    (hactive : new.status = .active) (hforward : new.supersedes = none)
    (hback : new.supersededBy = none) : UnlinkedHalf rt store half stem := by
  obtain ⟨hread, hdangling, hcycles, hcontradictions, hnumbers, htitles⟩ :=
    StoreDiagnosis.isClean_iff.mp hclean
  obtain ⟨⟨front, back, hrecords, hrecords'⟩, hfailures⟩ := hgrown.records hparse
  have hjoins := hgrown.joins htables hnumber hparse hdangling hrecords
  have hquiet := hjoins.quiet hforward hback
  have hparsed : (scanStore rt store).parsed =
      front.map ScannedDecision.decision ++ back.map ScannedDecision.decision := by
    rw [StoreScan.parsed, hrecords, List.map_append]
  have hparsed' : (scanStore rt half).parsed =
      front.map ScannedDecision.decision ++ new :: back.map ScannedDecision.decision := by
    rw [StoreScan.parsed, hrecords', List.map_append, List.map_cons]
  refine ⟨hgrown, ⟨new, hparse, ?_⟩, ?_⟩
  · have hunique : duplicateActiveTitles rt.tables (front ++ back) = [] := hrecords ▸ htitles
    have hjoined := duplicateActiveTitles_joined (r := ⟨stem, new⟩) hactive hunique
    rw [← hrecords', ← hrecords] at hjoined
    have hothers : (diagnoseStore rt half).isClean = true ↔
        (diagnoseStore rt half).duplicateActiveTitles = [] := by
      refine StoreDiagnosis.isClean_iff.trans ⟨fun h => h.2.2.2.2.2, fun h => ⟨?_, ?_, ?_, ?_, ?_,
        h⟩⟩
      · simp only [diagnoseStore, diagnoseScan, hfailures]
        exact hread
      · simp only [diagnoseStore, diagnoseScan, hparsed']
        exact hquiet.danglingRefs
      · simp only [diagnoseStore, diagnoseScan, hparsed', hquiet.cycles]
        rw [← hparsed]
        exact hcycles
      · simp only [diagnoseStore, diagnoseScan, hparsed']
        refine List.eq_nil_iff_forall_not_mem.mpr fun row hrow => ?_
        have hold := hquiet.contradictions hrow
        rw [← hparsed] at hold
        exact List.eq_nil_iff_forall_not_mem.mp hcontradictions row hold
      · refine duplicateNumbers_eq_nil_iff.mpr fun n => ?_
        have hold := duplicateNumbers_eq_nil_iff.mp hnumbers n
        rw [hgrown.count_numbers hnumber]
        split_ifs with hn
        · rw [hn, List.count_eq_zero_of_not_mem (next_notMem_numbers rt store)]
        · exact hold
    rw [hothers, ← not_iff_not]
    refine Iff.trans hjoined ?_
    simp only [parseAllDecisions, List.forall_mem_map, not_forall, not_not, exists_prop]
    rfl
  · simp only [diagnoseStore, diagnoseScan, hparsed', hquiet.orphans, hquiet.cycles]
    rw [← hparsed]

/-- An active decision of a clean store carries no backref. -/
theorem unclaimed_of_clean (hclean : (diagnoseStore rt store).contradictions = []) {d : Decision E}
    (hd : d ∈ parseAllDecisions rt store) (hactive : d.status = .active) :
    d.supersededBy = none := by
  obtain ⟨r, hr, rfl⟩ := List.mem_map.mp hd
  obtain ⟨stem, -, hrecord⟩ := List.mem_filterMap.mp hr
  obtain ⟨text, -, hparse⟩ := Option.map_eq_some_iff.mp (Store.recordAt?_some hrecord).2
  obtain ⟨_, _, _, _, _, _, -, -, -, hmake⟩ := parseDecision_ok hparse
  have hrefs := (Decision.invalidField?_eq_none_iff.mp (fromMapping_ok hmake).1.1).2.2.1
  cases hback : r.decision.supersededBy with
  | none => rfl
  | some raw =>
      rw [hback, Option.all_some, isSupersessionRef, Bool.and_eq_true] at hrefs
      obtain ⟨n, hn, -⟩ := (Option.any_eq_true _ _).mp hrefs.2
      have href : refNumber r.decision.supersededBy = some n := by
        rw [hback]
        exact hn
      have hrow : StatusContradiction.activeWithSupersededBy r.decision.num n ∈
          (diagnoseStore rt store).contradictions := by
        refine mem_sortByKey.mpr (List.mem_flatMap.mpr ⟨r.decision, hd,
          List.mem_append_left _ ?_⟩)
        rw [activeWithSupersededBy, if_pos hactive, href]
        exact List.mem_singleton_self _
      rw [hclean] at hrow
      cases hrow

/-- The backlink makes an orphan of the new decision, or the store is not clean. -/
theorem linkedHalf_of_clean (htables : rt.tables.Lawful)
    (hclean : (diagnoseStore rt store).isClean = true) {half : Store} {stem : Text}
    (hgrown : store.Grown half stem)
    (hnumber : extractDecisionNumber rt.tables stem = some (nextDecisionNum rt store))
    {oldNum : Nat} (hfields : ∀ new, half.parseAt rt stem = some (.ok new) →
      new.status = .active ∧ refNumber new.supersedes = some oldNum)
    {old : Decision E} (hold : byNum (parseAllDecisions rt store) oldNum = some old)
    (hactive : old.status = .active) (hcarried : oldNum ∈ (scanStore rt store).numbers rt.tables) :
    ⟨nextDecisionNum rt store, oldNum⟩ ∈ (diagnoseStore rt half).supersedeOrphans ∨
      (diagnoseStore rt half).isClean = false := by
  obtain ⟨-, hdangling, -, hcontradictions, hnumbers, -⟩ := StoreDiagnosis.isClean_iff.mp hclean
  refine or_iff_not_imp_right.mpr fun hhalf => ?_
  obtain ⟨hread, -, hcycles, -, -, -⟩ :=
    StoreDiagnosis.isClean_iff.mp (Bool.not_eq_false _ ▸ hhalf)
  obtain ⟨new, hparse⟩ : ∃ new, half.parseAt rt stem = some (.ok new) := by
    by_contra hnone
    have hperm : (diagnoseStore rt half).unparseable.Perm (scanStore rt half).failures :=
      List.perm_insertionSort _ _
    rw [hread] at hperm
    exact hgrown.failures (not_exists.mp hnone) hperm.symm.eq_nil
  obtain ⟨⟨front, back, hrecords, hrecords'⟩, -⟩ := hgrown.records hparse
  have hjoins := hgrown.joins htables hnumber hparse hdangling hrecords
  obtain ⟨hnew, href⟩ := hfields new hparse
  have hnum : new.num = nextDecisionNum rt store := by
    obtain ⟨text, -, htext⟩ := Option.map_eq_some_iff.mp hparse
    rw [parseDecision_num htext, extractDecisionNumber_decisionFilename htables, hnumber]
    rfl
  have hparsed : parseAllDecisions rt store =
      front.map ScannedDecision.decision ++ back.map ScannedDecision.decision := by
    rw [← List.map_append, ← hrecords]
    rfl
  have hparsed' : (scanStore rt half).parsed =
      front.map ScannedDecision.decision ++ new :: back.map ScannedDecision.decision := by
    rw [StoreScan.parsed, hrecords', List.map_append, List.map_cons]
  have holdIn : old ∈ parseAllDecisions rt store := List.mem_of_find?_eq_some hold
  have hne : oldNum ≠ new.num := by
    rw [← byNum_num hold]
    exact hjoins.others old (hparsed ▸ holdIn)
  have hone : ((scanStore rt store).numbers rt.tables).count oldNum = 1 := by
    have hmost := duplicateNumbers_eq_nil_iff.mp hnumbers oldNum
    have hpos := List.count_pos_iff.mpr hcarried
    omega
  have hrow : orphanOf? (scanStore rt half).parsed ((scanStore rt half).numbers rt.tables)
      (supersessionCycles (scanStore rt half).parsed) new =
        some ⟨nextDecisionNum rt store, oldNum⟩ := by
    have hnone : supersessionCycles (scanStore rt half).parsed = [] := hcycles
    refine orphanOf?_eq_some_iff.mpr ⟨hnum.symm, hnew, href, hne, ?_, ?_, ?_, ?_, old, ?_, hactive,
      unclaimed_of_clean hcontradictions holdIn hactive⟩
    · rw [hjoins.counts, if_pos rfl, List.count_eq_zero_of_not_mem hjoins.fresh]
    · rw [hjoins.counts, if_neg hne]
      exact hone
    · rw [hnone]
      exact List.not_mem_nil
    · rw [hnone]
      exact List.not_mem_nil
    · rw [hparsed', byNum_joined hne, ← hparsed]
      exact hold
  refine mem_sortByKey.mpr (List.mem_filterMap.mpr ⟨new, ?_, hrow⟩)
  rw [hparsed']
  exact mem_joined.mpr (Or.inl rfl)

/-- A plan for the orphan of a number flips the file that the number's prefix finds. -/
theorem plan_flips (htables : rt.tables.Lawful) {newNum oldNum : Nat} {oldStem : Text}
    {old : Decision E} (hfound : findDecisionStemByNum store oldNum = some oldStem)
    (hparse : store.parseAt rt oldStem = some (.ok old))
    (horphan : ⟨newNum, oldNum⟩ ∈ (diagnoseStore rt store).supersedeOrphans)
    {assessment : RepairAssessment} {plan : RepairPlan}
    (hassess : planSupersedeRepair rt store = some assessment)
    (hplan : assessment.plan = some plan) :
    plan.targetStem = oldStem ∧
      formatDecision rt.yaml (markSuperseded old newNum) = some plan.newContent := by
  obtain ⟨front, r, back, child, hrecords, hstem, -, -, hstems, horphans, hcontent, -⟩ :=
    repairable_of_plan (scanStore_sound htables store) hassess hplan
  have hpair : (⟨newNum, oldNum⟩ : SupersedeOrphan) = ⟨plan.childNum, plan.targetNum⟩ := by
    have hin : (⟨newNum, oldNum⟩ : SupersedeOrphan) ∈
        (diagnoseScan rt.tables (scanStore rt store)).supersedeOrphans := horphan
    rw [horphans, List.mem_singleton] at hin
    exact hin
  obtain ⟨rfl, rfl⟩ := SupersedeOrphan.mk.inj hpair
  obtain ⟨hkey, slug, rfl⟩ := findDecisionStemByNum_some hfound
  have hcarrier : decisionNumberPrefix plan.targetNum ++ slug ∈
      (scanStore rt store).stemsOf rt.tables plan.targetNum := by
    refine List.mem_filter.mpr ⟨mem_sortStemsByNumber.mpr (Store.mem_listDecisions.mpr hkey), ?_⟩
    rw [ extractDecisionNumber_prefix htables]
    exact beq_self_eq_true _
  rw [hstems, List.mem_singleton] at hcarrier
  have hr : r ∈ (scanStore rt store).records := by
    rw [hrecords]
    exact List.mem_append_right _ (List.mem_cons_self ..)
  obtain ⟨stem, -, hrecord⟩ := List.mem_filterMap.mp hr
  obtain ⟨rfl, hparsed⟩ := Store.recordAt?_some hrecord
  rw [hstem, ← hcarrier, hparse] at hparsed
  obtain rfl : old = r.decision := Except.ok.inj (Option.some.inj hparsed)
  exact ⟨hcarrier.symm, hcontent⟩

end

/-! ## Every stop of a supersede -/

/-- What a confirmed supersede of an active decision leaves in a clean store when it stops between
its writes: before the backlink a file that only its title can give away, after it an orphan or a
blocking finding; a plan for the orphan completes the supersede. -/
theorem half_supersede_reported {rt : Runtime E} (htables : rt.tables.Lawful)
    (hyaml : rt.yaml.Lawful) (hread : ReadsText rt.readText) {store : Store}
    (hclean : (diagnoseStore rt store).isClean = true) {p : Proposal} {oldNum : Nat}
    {executed : Executed} {progress : Progress E}
    (h : ConfirmedSupersede rt store p oldNum executed progress) :
    HalfSupersede rt store p oldNum progress := by
  obtain ⟨t, hfollows, hwrites, hcomplete⟩ := h.trace
  obtain ⟨old, hold, hactive⟩ := h.active
  set stem := p.newStem rt (nextDecisionNum rt store) with hstem
  have hfresh : stem ∉ store.decisions.keys := next_prefix_fresh htables _
  have hnumber : extractDecisionNumber rt.tables stem = some (nextDecisionNum rt store) :=
    extractDecisionNumber_prefix htables _ _
  have hall : storeWrites rt p progress.writes =
      [.decision stem t.firstText, .hashIndex (computeHash rt p.title p.rationaleOrTitle),
        .decision stem t.rereadText, .decision t.oldStem t.oldText] := by
    rw [hwrites]
    rfl
  have hone : storeAfter rt store p progress 1 = store.writeDecision stem t.firstText := by
    rw [storeAfter, hall]
    rfl
  have htwo : storeAfter rt store p progress 2 =
      (store.writeDecision stem t.firstText).addHash
        (computeHash rt p.title p.rationaleOrTitle) := by
    rw [storeAfter, hall]
    rfl
  have hthree : storeAfter rt store p progress 3 = t.afterBacklink rt p ⟨store, []⟩ := by
    rw [storeAfter, hall]
    rfl
  have hfour : storeAfter rt store p progress 4 =
      (t.afterBacklink rt p ⟨store, []⟩).writeDecision t.oldStem t.oldText := by
    rw [storeAfter, hall]
    rfl
  have hgrown : store.Grown (store.writeDecision stem t.firstText) stem := .write hfresh _
  have hgrown' : store.Grown (t.afterBacklink rt p ⟨store, []⟩) stem :=
    (hgrown.congr (Store.addHash_decisions _ _)).rewrite t.rereadText
  obtain ⟨hfirst, hforward, hback⟩ := newDecision_fields hfollows.built
  obtain ⟨hstatus, hsupersedes, hsupersededBy⟩ :=
    read_written hyaml hread hfollows.firstText hfollows.reread
  refine ⟨by rw [hall]; rfl, by rw [hfour, hcomplete]; rfl, rfl, fun done hdone => ?_, ?_, ?_⟩
  · have hparse : ∀ half : Store,
        half.decisions = (store.writeDecision stem t.firstText).decisions →
        half.parseAt rt stem = some (.ok t.reread) := by
      intro half hsame
      refine parseAt_eq_some_iff.mpr ⟨rt.readText t.firstText, ?_, hfollows.reread⟩
      rw [Store.readDecision, hsame]
      exact Store.readDecision_writeDecision_self rt store stem t.firstText
    have hsame : (storeAfter rt store p progress done).decisions =
        (store.writeDecision stem t.firstText).decisions := by
      rcases hdone with rfl | rfl
      · rw [hone]
      · rw [htwo, Store.addHash_decisions]
    exact unlinkedHalf_of_clean htables hclean (hgrown.congr hsame) hnumber (hparse _ hsame)
      (hstatus.trans hfirst) (hsupersedes.trans hforward) (hsupersededBy.trans hback)
  · rw [hthree]
    refine linkedHalf_of_clean htables hclean hgrown' hnumber (fun new hnew => ?_) hold hactive ?_
    · obtain ⟨body, hbody, hparse⟩ := parseAt_eq_some_iff.mp hnew
      rw [SupersedeTrace.afterBacklink, Store.readDecision_writeDecision_self] at hbody
      obtain rfl := Option.some.inj hbody
      obtain ⟨hstatus', hsupersedes', -⟩ := read_written hyaml hread hfollows.rereadText hparse
      exact ⟨hstatus'.trans (hstatus.trans hfirst), hsupersedes' ▸ number?_toDigits oldNum⟩
    · obtain ⟨hkey, slug, hslug⟩ := findDecisionStemByNum_some hfollows.found
      have hold' : extractDecisionNumber rt.tables t.oldStem = some oldNum := by
        rw [hslug, extractDecisionNumber_prefix htables]
      rw [hgrown'.keys, List.mem_append, List.mem_singleton] at hkey
      refine List.mem_filterMap.mpr ⟨t.oldStem, mem_sortStemsByNumber.mpr
        (Store.mem_listDecisions.mpr (hkey.resolve_right fun heq => ?_)), hold'⟩
      -- the new file has another number
      rw [heq, hnumber] at hold'
      have hless := num_lt_next htables (List.mem_of_find?_eq_some hold)
      rw [byNum_num hold, Option.some.inj hold'] at hless
      exact lt_irrefl _ hless
  · rw [hthree]
    intro horphan assessment plan hassess hplan
    obtain ⟨hsame, hcontent⟩ :=
      plan_flips htables hfollows.found hfollows.old horphan hassess hplan
    have hnum : t.reread.num = nextDecisionNum rt store := by
      rw [parseDecision_num hfollows.reread, extractDecisionNumber_decisionFilename htables, hnumber]
      rfl
    have htext := hfollows.oldText
    rw [hnum, hcontent] at htext
    rw [hcomplete, applyRepair, hsame, Option.some.inj htext]
    rfl

/-- Decision 1 was superseded by decision 2, which is active. -/
def chainStore : Store where
  decisions := (Table.empty.put "001-queue".toList
      (decisionText "Queue" "status: superseded\nsuperseded_by: \"2\"\n")).put
    "002-list".toList (decisionText "List" "supersedes: \"1\"\n")
  questions := none
  hashes := []

/-- Decision 2 is superseded under a new title. -/
def chainProposal : Proposal where
  title := "Log".toList
  rationale := "The log holds one day.".toList
  operation := .supersede
  affectedDecisionId := some "2".toList
  rejected := []
  confidence := some "high".toList
  decisionType := none
  reversibility := none
  filesAffected := []
  resolvesQuestions := []
  source := none
  baseCommit := none

def chainRun : Option (Executed × Progress Empty) :=
  match proposeDecision (Runtime.plain repairDay) chainStore chainProposal with
  | .confirmed executed progress => some (executed, progress)
  | _ => none

/-- The store when the run over the chain stops after some of its writes. -/
def chainAfter (run : Executed × Progress Empty) (done : Nat) : Store :=
  storeAfter (Runtime.plain repairDay) chainStore chainProposal run.2 done

/-- The run over the chain, evaluated. -/
theorem chainRun_evaluated :
    ∃ run, ConfirmedSupersede (Runtime.plain repairDay) chainStore chainProposal 2 run.1 run.2 ∧
      (diagnoseStore (Runtime.plain repairDay) chainStore).isClean = true ∧
      ((chainAfter run 1).decisions ≠ chainStore.decisions ∧
        (diagnoseStore (Runtime.plain repairDay) (chainAfter run 1)).supersedeOrphans = [] ∧
        (diagnoseStore (Runtime.plain repairDay) (chainAfter run 1)).isClean = true) ∧
      ⟨3, 2⟩ ∈ (diagnoseStore (Runtime.plain repairDay) (chainAfter run 3)).supersedeOrphans ∧
        (planSupersedeRepair (Runtime.plain repairDay) (chainAfter run 3)).any
          (fun assessment => assessment.plan.isNone) = true := by
  have hany : chainRun.any (fun run => decide
      (((byNum (parseAllDecisions (Runtime.plain repairDay) chainStore) 2).any
          (fun d => d.status == .active) = true ∧
        chainProposal.affected?.bind (extractDecisionNumber .ascii) = some 2) ∧
      (diagnoseStore (Runtime.plain repairDay) chainStore).isClean = true ∧
      ((chainAfter run 1).decisions ≠ chainStore.decisions ∧
        (diagnoseStore (Runtime.plain repairDay) (chainAfter run 1)).supersedeOrphans = [] ∧
        (diagnoseStore (Runtime.plain repairDay) (chainAfter run 1)).isClean = true) ∧
      ⟨3, 2⟩ ∈ (diagnoseStore (Runtime.plain repairDay) (chainAfter run 3)).supersedeOrphans ∧
        (planSupersedeRepair (Runtime.plain repairDay) (chainAfter run 3)).any
          (fun assessment => assessment.plan.isNone) = true)) = true := by decide +kernel
  obtain ⟨run, hrun, hfacts⟩ := (Option.any_eq_true _ _).mp hany
  obtain ⟨⟨hactive, hnames⟩, hreported⟩ := of_decide_eq_true hfacts
  obtain ⟨old, hold, hstatus⟩ := (Option.any_eq_true _ _).mp hactive
  have hconfirmed : proposeDecision (Runtime.plain repairDay) chainStore chainProposal =
      .confirmed run.1 run.2 := by
    unfold chainRun at hrun
    split at hrun
    · next hconfirmed => exact Option.some.inj hrun ▸ hconfirmed
    · cases hrun
  exact ⟨run, ⟨rfl, hnames, ⟨old, hold, beq_iff_eq.mp hstatus⟩, hconfirmed⟩, hreported⟩

/-- Every stop of the run over the chain is as stated. -/
theorem chain_supersede_reported :
    ∃ executed progress,
      ConfirmedSupersede (Runtime.plain repairDay) chainStore chainProposal 2 executed progress ∧
      HalfSupersede (Runtime.plain repairDay) chainStore chainProposal 2 progress := by
  obtain ⟨run, hconfirmed, hclean, -⟩ := chainRun_evaluated
  exact ⟨run.1, run.2, hconfirmed, half_supersede_reported UnicodeTables.ascii_lawful
    plainYaml_lawful (Or.inr rfl) hclean hconfirmed⟩

/-- Stopped after its first write, the run over the chain has added a file that no finding shows;
stopped after its third, it leaves an orphan that the planner refuses. -/
theorem half_supersede_silent :
    ∃ run : Executed × Progress Empty,
      ConfirmedSupersede (Runtime.plain repairDay) chainStore chainProposal 2 run.1 run.2 ∧
      (diagnoseStore (Runtime.plain repairDay) chainStore).isClean = true ∧
      ¬ (∀ done < 4, (chainAfter run done).decisions = chainStore.decisions ∨
        ⟨3, 2⟩ ∈ (diagnoseStore (Runtime.plain repairDay) (chainAfter run done)).supersedeOrphans ∨
        (diagnoseStore (Runtime.plain repairDay) (chainAfter run done)).isClean = false) ∧
      ⟨3, 2⟩ ∈ (diagnoseStore (Runtime.plain repairDay) (chainAfter run 3)).supersedeOrphans ∧
      ∃ assessment, planSupersedeRepair (Runtime.plain repairDay) (chainAfter run 3) =
        some assessment ∧ assessment.plan = none := by
  obtain ⟨run, hconfirmed, hclean, ⟨hwritten, hnone, hsilent⟩, horphan, hrefused⟩ :=
    chainRun_evaluated
  obtain ⟨assessment, hassess, hplan⟩ := (Option.any_eq_true _ _).mp hrefused
  refine ⟨run, hconfirmed, hclean, fun hall => ?_, horphan, assessment, hassess,
    Option.isNone_iff_eq_none.mp hplan⟩
  rcases hall 1 (by decide) with hsame | hreported | hblocked
  · exact hwritten hsame
  · rw [hnone] at hreported
    cases hreported
  · rw [hsilent] at hblocked
    cases hblocked

end Core
end Nauro
