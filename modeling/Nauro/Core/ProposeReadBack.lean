import Nauro.Core.DecisionReformat
import Nauro.Core.ProposeDecision

/-!
# Whether proposed decisions read back

* `proposed_writes_read_back` — of the files that a confirmed proposal writes, exactly the readable
  ones read back.
-/

namespace Nauro
namespace Core

open Foundation

variable {E : Type}

/-! ## New decisions -/

theorem formatDecision_eq_some {yaml : Yaml E} {d : Decision E} {text : Text}
    (h : formatDecision yaml d = some text) : text = writtenText yaml d := by
  rw [formatDecision_eq] at h
  split_ifs at h
  exact (Option.some.inj h).symm

theorem rejectedItemLabel_trimmed {item : RejectedItem} {label : Text}
    (h : rejectedItemLabel item = some label) : strip label = label := by
  obtain ⟨value, -, hvalue⟩ := List.exists_of_findSome?_eq_some h
  obtain ⟨v, -, hlabel⟩ := Option.bind_eq_some_iff.mp hvalue
  split_ifs at hlabel
  rw [← Option.some.inj hlabel, strip_strip]

theorem coerceItem_trimmed {item : RejectedItem} {r : RejectedAlternative}
    (h : coerceItem item = some r) : strip r.name = r.name := by
  unfold coerceItem at h
  obtain ⟨name, hlabel, h⟩ := Option.bind_eq_some_iff.mp h
  obtain ⟨reason, -, h⟩ := Option.bind_eq_some_iff.mp h
  unfold RejectedAlternative.make? at h
  split_ifs at h
  cases h
  exact rejectedItemLabel_trimmed hlabel

theorem coerceRejected_trimmed {items : List RejectedItem} {rejected : List RejectedAlternative}
    (h : coerceRejected items = some rejected) : ∀ r ∈ rejected, strip r.name = r.name := by
  unfold coerceRejected at h
  induction items generalizing rejected with
  | nil =>
      cases h
      simp
  | cons item items ih =>
      rw [List.mapM_cons] at h
      obtain ⟨r, hitem, h⟩ := Option.bind_eq_some_iff.mp h
      obtain ⟨rest, hrest, h⟩ := Option.bind_eq_some_iff.mp h
      cases h
      exact List.forall_mem_cons.mpr ⟨coerceItem_trimmed hitem, ih hrest⟩

/-- A new decision, for the file that it gets. -/
theorem Proposal.newDecision_stored {rt : Runtime E} (htables : rt.tables.Lawful) {p : Proposal}
    {number : Nat} {d : Decision E} (h : p.newDecision rt number = some d) :
    d.Stored rt.tables (decisionFilename (p.newStem rt number)) := by
  obtain ⟨fields, hfields, hbuilt⟩ := Option.bind_eq_some_iff.mp h
  simp only [Proposal.newFields, Option.bind_eq_bind, Option.bind_eq_some_iff] at hfields
  obtain ⟨confidence, -, decisionType, -, reversibility, -, source, -, rejected, hrejected,
    hreturn⟩ := hfields
  cases hreturn
  unfold buildNewDecision at hbuilt
  cases hvalid : (NewDecision.decision _ none p.extraFields : Decision E).validate with
  | error error =>
      rw [hvalid] at hbuilt
      cases hbuilt
  | ok found =>
      rw [hvalid] at hbuilt
      cases hbuilt
      obtain ⟨rfl, hdecision⟩ := Decision.validate_eq_ok_iff.mp hvalid
      refine ⟨hdecision, coerceRejected_trimmed hrejected, ?_⟩
      rw [extractDecisionNumber_decisionFilename htables, Proposal.newStem,
        extractDecisionNumber_prefix htables]
      rfl

/-! ## Decisions that are written again -/

section

variable {tables : UnicodeTables} {d : Decision E} {filename : Text}

theorem Decision.Stored.attachSupersedes (h : d.Stored tables filename) (targetNumber : Nat) :
    (attachSupersedes d targetNumber).Stored tables filename :=
  ⟨attachSupersedes_valid h.valid targetNumber, h.names, h.number⟩

theorem Decision.Stored.markSuperseded (h : d.Stored tables filename) (replacementNumber : Nat) :
    (markSuperseded d replacementNumber).Stored tables filename :=
  ⟨markSuperseded_valid h.valid replacementNumber, h.names, h.number⟩

theorem Decision.Stored.appendDecisionUpdate (h : d.Stored tables filename) (rationale : Text)
    (updateDate : Date) : (appendDecisionUpdate d rationale updateDate none).Stored tables filename :=
  ⟨appendDecisionUpdate_valid h.valid rationale updateDate, h.names, h.number⟩

end

/-- A decision that the store gave back. -/
theorem stored_of_parseAt {rt : Runtime E} {store : Store} {stem : Text} {d : Decision E}
    (h : store.parseAt rt stem = some (.ok d)) : d.Stored rt.tables (decisionFilename stem) := by
  obtain ⟨body, -, hparse⟩ := parseAt_eq_some_iff.mp h
  exact (parsed_stored hparse).1

/-! ## The writes of a proposal -/

/-- A write of a decision that fits its file. -/
structure DecisionWrite.Fits (rt : Runtime E) (write : DecisionWrite E) : Prop where
  formatted : formatDecision rt.yaml write.model = some write.text
  stored : write.model.Stored rt.tables (decisionFilename write.stem)

/-- Every write of a confirmed proposal fits its file. -/
theorem fits_of_confirmed {rt : Runtime E} (htables : rt.tables.Lawful) {store : Store}
    {p : Proposal} {executed : Executed} {progress : Progress E}
    (h : proposeDecision rt store p = .confirmed executed progress) :
    ∀ write ∈ progress.writes, write.Fits rt := by
  have hrun := (proposeDecision_confirmed_iff.mp h).2
  have hadd : (doAdd rt p).exec ⟨store, []⟩ = (.ok executed, progress) →
      ∀ write ∈ progress.writes, write.Fits rt := by
    intro hrun
    obtain ⟨d, text, hnew, hformat, hwrites, -⟩ := doAdd_ok hrun
    rw [hwrites, afterNew, List.nil_append, List.forall_mem_singleton]
    exact ⟨hformat, Proposal.newDecision_stored htables hnew⟩
  unfold executeOperation at hrun
  split at hrun
  · next id =>
      obtain ⟨oldNum, t, -, hfollows, hwrites, -⟩ := doSupersede_ok hrun
      rw [hwrites, SupersedeTrace.writes, List.nil_append]
      simp only [List.forall_mem_cons, List.not_mem_nil, false_implies, implies_true, and_true]
      exact ⟨⟨hfollows.firstText, Proposal.newDecision_stored htables hfollows.built⟩,
        ⟨hfollows.rereadText, (parsed_stored hfollows.reread).1.attachSupersedes oldNum⟩,
        ⟨hfollows.oldText, (stored_of_parseAt hfollows.old).markSuperseded t.reread.num⟩⟩
  · next id =>
      obtain ⟨stem, target, text, -, hparse, hformat, hwrites, -⟩ := doUpdate_ok hrun
      rw [hwrites, List.nil_append, List.forall_mem_singleton]
      exact ⟨hformat, (stored_of_parseAt hparse).appendDecisionUpdate p.rationale rt.today⟩
  · exact hadd hrun

/-- **Of what a confirmed proposal writes, exactly the readable decisions read back.** Each file gets
a valid decision under its own number, and the parser gives this decision back, the white space
around its rationale aside, just when its title, its body, its alternatives and its frontmatter are
readable. -/
theorem proposed_writes_read_back {rt : Runtime E} (hyaml : rt.yaml.Lawful)
    (htables : rt.tables.Lawful) {store : Store} {p : Proposal} {executed : Executed}
    {progress : Progress E} (h : proposeDecision rt store p = .confirmed executed progress) :
    ∀ write ∈ progress.writes, write.model.Valid ∧
      (extractDecisionNumber rt.tables (decisionFilename write.stem)).getD 0 = write.model.num ∧
      (ReadsBack rt.tables rt.yaml write.model write.text (decisionFilename write.stem) ↔
        write.model.Readable rt.yaml) := by
  intro write hin
  have hfits := fits_of_confirmed htables h write hin
  refine ⟨hfits.stored.valid, hfits.stored.number, ?_⟩
  rw [formatDecision_eq_some hfits.formatted]
  exact readsBack_iff hyaml hfits.stored

def firstProposal : Proposal where
  title := "Use the queue".toList
  rationale := "The queue holds the jobs of one day.".toList
  operation := .add
  affectedDecisionId := none
  rejected := []
  confidence := some "high".toList
  decisionType := none
  reversibility := none
  filesAffected := []
  resolvesQuestions := []
  source := none
  baseCommit := none

/-- A first decision reads back. -/
theorem first_proposal_reads_back :
    ∃ executed progress, proposeDecision (Runtime.plain ⟨2026, 5, 14, rfl⟩)
        ⟨Table.empty, none, []⟩ firstProposal = .confirmed executed progress ∧
      ∀ write ∈ progress.writes, ReadsBack .ascii plainYaml write.model write.text
        (decisionFilename write.stem) := by
  have hreads : (proposeDecision (Runtime.plain ⟨2026, 5, 14, rfl⟩)
      ⟨Table.empty, none, []⟩ firstProposal).confirmed?.any (fun run => run.2.writes.all fun write =>
        write.model.title == "Use the queue".toList && write.model.rejected == [] &&
          decide (BodyReadable (strip write.model.rationale) []) &&
          decide ((plainYaml.dump write.model.frontmatter).length ≤ maxFrontmatterChars + 1)) = true := by decide +kernel
  obtain ⟨⟨executed, progress⟩, hsome, hwrites⟩ := (Option.any_eq_true _ _).mp hreads
  have hrun := ProposeResult.confirmed?_eq_some hsome
  refine ⟨executed, progress, hrun, fun write hin => ?_⟩
  have hwrite := List.all_eq_true.mp hwrites write hin
  simp only [Bool.and_eq_true, beq_iff_eq, decide_eq_true_eq] at hwrite
  obtain ⟨⟨⟨htitle, hnone⟩, hbody⟩, hfits⟩ := hwrite
  refine ((proposed_writes_read_back plainYaml_lawful UnicodeTables.ascii_lawful hrun write
    hin).2.2).mpr ⟨?_, ?_, ?_, hnone ▸ hbody, by simp [hnone, AlternativesReadable], hfits⟩
  all_goals
    rw [htitle]
    decide

end Core
end Nauro
