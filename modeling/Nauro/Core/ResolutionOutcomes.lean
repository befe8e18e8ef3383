import Nauro.Core.FlagQuestion
import Nauro.Core.ResolvedQuestions

/-!
# The outcomes of resolving a question document

A resolution answers with an outcome or lets an exception escape. Only a `ValueError` of the
decision parser is turned into a rejection.

* `resolve_answers_iff` — exactly these get an outcome.
-/

namespace Nauro
namespace Core
namespace Questions

open Foundation

variable {E : Type}

/-! ## Outcomes -/

/-- `FlagQuestionResult` of a resolution. -/
inductive ResolutionResult where
  | ok (relocatedIds skippedProseIds : List Text)
  | rejected (rejection : FlagRejection)

/-- The result envelope and the exact effects of a resolution. -/
structure QuestionResolutionOutcome where
  result : ResolutionResult
  updatedOpenQuestions : Option Text
  resolvedQuestionIds : List Text

/-- The outcome that is returned; `_rejected` for a rejection. -/
def ResolutionOutcome.envelope : ResolutionOutcome → QuestionResolutionOutcome
  | .rejected rejection => ⟨.rejected rejection, none, []⟩
  | .resolved content relocatedIds skippedProseIds resolvedQuestionIds =>
      ⟨.ok relocatedIds skippedProseIds, some content, resolvedQuestionIds⟩

/-- A rejected outcome carries no bytes and no resolved ids. -/
def QuestionResolutionOutcome.Atomic (outcome : QuestionResolutionOutcome) : Prop :=
  ∀ rejection, outcome.result = .rejected rejection →
    outcome.updatedOpenQuestions = none ∧ outcome.resolvedQuestionIds = []

theorem ResolutionOutcome.envelope_atomic (outcome : ResolutionOutcome) :
    outcome.envelope.Atomic := by
  intro rejection h
  cases outcome with
  | rejected => exact ⟨rfl, rfl⟩
  | resolved => cases h

/-! ## Parses that raise a `ValueError` -/

/-- The frontmatter loads, or fails with a `ValueError`; when the body is read, its keys can be
passed to the constructor next to the fields the parser passes itself. -/
structure FrontmatterUsable (yaml : Yaml E) (block body : Text) : Prop where
  loads : loadFrontmatterMapping yaml block ≠ .raised false
  textKeys : (parseBody body).toBool = true → loadFrontmatterMapping yaml block ≠ .oddKeys
  freeKeys : (parseBody body).toBool = true → ∀ m, loadFrontmatterMapping yaml block = .mapping m →
    ∀ key ∈ derivedFields, m.get? key = none

theorem parseBody_valueError {body : Text} {e : ParseError} (h : parseBody body = .error e) :
    e.isValueError = true := by
  unfold parseBody at h
  split at h
  · cases h
    rfl
  · split at h
    · cases h
      rfl
    · unfold readSections at h
      split at h
      · cases h
        rfl
      · cases h

section Parsing

variable {tables : UnicodeTables} {yaml : Yaml E} {text filename block body : Text}

/-- A frontmatter that is refused ends the parse. -/
theorem parseDecision_loadError {e : ParseError}
    (hsplit : splitFrontmatter text = .ok (block, body)) (hload : loadMetadata yaml block = .error e) :
    parseDecision tables yaml text filename = .error e := by
  rw [parseDecision, hsplit]
  simp only [Except.mapError, bind, Except.bind, hload]

/-- A body that is refused ends the parse before the constructor. -/
theorem parseDecision_bodyError {metadata : Option (Frontmatter E)} {e : ParseError}
    (hsplit : splitFrontmatter text = .ok (block, body))
    (hload : loadMetadata yaml block = .ok metadata) (hbody : parseBody body = .error e) :
    parseDecision tables yaml text filename = .error e := by
  rw [parseDecision, hsplit]
  simp only [Except.mapError, bind, Except.bind, hload, hbody]

theorem parseDecision_oddKeys {read : Text × Text × List RejectedAlternative}
    (hsplit : splitFrontmatter text = .ok (block, body))
    (hload : loadMetadata yaml block = .ok none) (hbody : parseBody body = .ok read) :
    parseDecision tables yaml text filename = .error .oddKeys := by
  rw [parseDecision, hsplit]
  simp only [Except.mapError, bind, Except.bind, hload, hbody]

/-- A key that the parser passes itself is no keyword argument. -/
theorem parseDecision_clash {m : Frontmatter E} {read : Text × Text × List RejectedAlternative}
    {key : Text} (hsplit : splitFrontmatter text = .ok (block, body))
    (hload : loadMetadata yaml block = .ok (some m)) (hbody : parseBody body = .ok read)
    (hkey : (derivedFields.find? fun key => (m.get? key).isSome) = some key) :
    parseDecision tables yaml text filename = .error (.keywordClash key) := by
  rw [parseDecision, hsplit]
  simp only [Except.mapError, bind, Except.bind, hload, hbody, hkey]

/-- Keyword arguments that can be passed are validated. -/
theorem parseDecision_validates {m : Frontmatter E}
    {read : Text × Text × List RejectedAlternative} {e : ParseError}
    (hsplit : splitFrontmatter text = .ok (block, body))
    (hload : loadMetadata yaml block = .ok (some m)) (hbody : parseBody body = .ok read)
    (hkey : (derivedFields.find? fun key => (m.get? key).isSome) = none)
    (h : parseDecision tables yaml text filename = .error e) : e.isValueError = true := by
  rw [parseDecision, hsplit] at h
  simp only [Except.mapError, bind, Except.bind, hload, hbody, hkey] at h
  split at h
  · cases h
    rfl
  · cases h

theorem forall_error_iff {e : ParseError} (h : parseDecision tables yaml text filename = .error e) :
    (∀ e, parseDecision tables yaml text filename = .error e → e.isValueError = true) ↔
      e.isValueError = true := by
  rw [h]
  constructor
  · intro hall
    exact hall e rfl
  · intro hvalue e' he'
    cases he'
    exact hvalue

/-- The errors of a parse whose frontmatter and body are split. -/
theorem parseDecision_split (hsplit : splitFrontmatter text = .ok (block, body)) :
    (∀ e, parseDecision tables yaml text filename = .error e → e.isValueError = true) ↔
      FrontmatterUsable yaml block body := by
  cases hload : loadFrontmatterMapping yaml block with
  | raised isValueError =>
      have hmetadata : loadMetadata yaml block = .error (.yamlRaised isValueError) := by
        rw [loadMetadata, hload]
      rw [forall_error_iff (parseDecision_loadError hsplit hmetadata)]
      constructor
      · intro hvalue
        change isValueError = true at hvalue
        subst hvalue
        exact ⟨by simp [hload], by simp [hload], by simp [hload]⟩
      · intro husable
        cases isValueError with
        | true => rfl
        | false => exact absurd hload husable.loads
  | invalid =>
      have hmetadata : loadMetadata yaml block = .error .invalidYaml := by
        rw [loadMetadata, hload]
      rw [forall_error_iff (parseDecision_loadError hsplit hmetadata)]
      exact ⟨fun _ => ⟨by simp [hload], by simp [hload], by simp [hload]⟩, fun _ => rfl⟩
  | notMapping =>
      have hmetadata : loadMetadata yaml block = .error .notMapping := by
        rw [loadMetadata, hload]
      rw [forall_error_iff (parseDecision_loadError hsplit hmetadata)]
      exact ⟨fun _ => ⟨by simp [hload], by simp [hload], by simp [hload]⟩, fun _ => rfl⟩
  | oddKeys =>
      have hmetadata : loadMetadata yaml block = .ok none := by
        rw [loadMetadata, hload]
      cases hbody : parseBody body with
      | error e =>
          rw [forall_error_iff (parseDecision_bodyError hsplit hmetadata hbody)]
          refine ⟨fun _ => ⟨by simp [hload], ?_, by simp [hload]⟩,
            fun _ => parseBody_valueError hbody⟩
          intro hok
          rw [hbody] at hok
          cases hok
      | ok read =>
          rw [forall_error_iff (parseDecision_oddKeys hsplit hmetadata hbody)]
          constructor
          · intro hvalue
            cases hvalue
          · intro husable
            exact absurd hload (husable.textKeys (by rw [hbody]; rfl))
  | empty =>
      have hmetadata : loadMetadata yaml block = .ok (some ⟨[], List.nodup_nil⟩) := by
        rw [loadMetadata, hload]
      refine ⟨fun _ => ⟨by simp [hload], by simp [hload], by simp [hload]⟩, fun _ e he => ?_⟩
      cases hbody : parseBody body with
      | error e' =>
          rw [parseDecision_bodyError hsplit hmetadata hbody] at he
          cases he
          exact parseBody_valueError hbody
      | ok read => exact parseDecision_validates hsplit hmetadata hbody rfl he
  | mapping m =>
      have hmetadata : loadMetadata yaml block = .ok (some m) := by
        rw [loadMetadata, hload]
      cases hbody : parseBody body with
      | error e =>
          rw [forall_error_iff (parseDecision_bodyError hsplit hmetadata hbody)]
          refine ⟨fun _ => ⟨by simp [hload], by simp [hload], ?_⟩,
            fun _ => parseBody_valueError hbody⟩
          intro hok
          rw [hbody] at hok
          cases hok
      | ok read =>
          cases hkey : derivedFields.find? fun key => (m.get? key).isSome with
          | some key =>
              rw [forall_error_iff (parseDecision_clash hsplit hmetadata hbody hkey)]
              constructor
              · intro hvalue
                cases hvalue
              · intro husable
                have hfree := husable.freeKeys (by rw [hbody]; rfl) m hload key
                  (List.mem_of_find?_eq_some hkey)
                have hsome := List.find?_some hkey
                simp only [hfree] at hsome
                cases hsome
          | none =>
              have hfree : ∀ key ∈ derivedFields, m.get? key = none := by
                intro key hmem
                simpa using List.find?_eq_none.mp hkey key hmem
              refine ⟨fun _ => ⟨by simp [hload], by simp [hload], ?_⟩,
                fun _ e he => parseDecision_validates hsplit hmetadata hbody hkey he⟩
              intro _ m' hm'
              rw [hload] at hm'
              cases hm'
              exact hfree

end Parsing

/-- No exception but a `ValueError` leaves the parser on a file whose frontmatter is usable. -/
theorem parseDecision_valueError_iff (tables : UnicodeTables) (yaml : Yaml E)
    (text filename : Text) :
    (∀ e, parseDecision tables yaml text filename = .error e → e.isValueError = true) ↔
      ∀ block body, splitFrontmatter text = .ok (block, body) →
        FrontmatterUsable yaml block body := by
  cases hsplit : splitFrontmatter text with
  | error e =>
      constructor
      · intro _ block body h
        cases h
      · intro _ e' he'
        rw [parseDecision, hsplit] at he'
        cases he'
        rfl
  | ok parts =>
      obtain ⟨block, body⟩ := parts
      rw [parseDecision_split hsplit]
      refine ⟨fun h block' body' heq => ?_, fun h => h block body rfl⟩
      cases heq
      exact h

/-! ## Requests -/

theorem canonicalize_canonical (value : Text) :
    canonicalizeQuestionReference (canonicalizeQuestionReference value) =
      canonicalizeQuestionReference value := by
  cases hparse : parseQuestionId value with
  | none =>
      have hsame : canonicalizeQuestionReference value = value := by
        rw [canonicalizeQuestionReference, hparse]
      rw [hsame, hsame]
  | some n =>
      have hform : canonicalizeQuestionReference value = formatQuestionId n := by
        rw [canonicalizeQuestionReference, hparse]
      obtain ⟨hpos, hmax⟩ := parseQuestionId_bounds hparse
      rw [hform, canonicalizeQuestionReference, parseQuestionId_format hpos hmax]

theorem mem_requestedIds_requestedIds {ids : List Text} {id : Text}
    (h : id ∈ requestedIds (requestedIds ids)) : id ∈ requestedIds ids := by
  obtain ⟨raw, hraw, rfl⟩ := mem_requestedIds.mp h
  obtain ⟨first, hfirst, rfl⟩ := mem_requestedIds.mp hraw
  rw [canonicalize_canonical]
  exact mem_requestedIds.mpr ⟨first, hfirst, rfl⟩

/-- Targets that a resolution goes on with: some, each naming exactly one entry. -/
structure Requests (file : OpenQuestionsFile) (targets : List Text) : Prop where
  some_target : targets ≠ []
  unambiguous : ∀ id ∈ requestedIds targets, file.isAmbiguous id = false
  known : ∀ id ∈ requestedIds targets, id ∈ file.entries.map QuestionEntry.id

theorem requestedIds_eq_nil_iff {targets : List Text} :
    requestedIds targets = [] ↔ targets = [] := by
  constructor
  · intro h
    cases targets with
    | nil => rfl
    | cons target targets =>
        have hmem : canonicalizeQuestionReference target ∈ requestedIds (target :: targets) :=
          mem_requestedIds.mpr ⟨target, List.mem_cons_self .., rfl⟩
        rw [h] at hmem
        cases hmem
  · rintro rfl
    rfl

/-- Targets that are not resolved are rejected; the others are, when the decision has a number
that a reference can carry. -/
theorem resolveQuestionDocument_isSome {rt : Runtime E} {content resolvedBy : Text}
    {documents : List ResolutionDecisionDocument} {targets : List Text} {date : Date} {num : Nat}
    (hdecision : resolvingDecision rt documents resolvedBy = some (.ok num)) :
    (resolveQuestionDocument rt content documents targets resolvedBy date).isSome = true ↔
      (num = 0 → ¬ Requests (OpenQuestionsFile.parse rt.tables content) targets) := by
  set parsed := OpenQuestionsFile.parse rt.tables content with hparsed
  unfold resolveQuestionDocument
  rw [hdecision]
  simp only [← hparsed]
  change ((if requestedIds targets = [] then _ else _ : Option ResolutionOutcome).isSome = true) ↔ _
  split_ifs with hnone hambiguous hmissing
  · refine ⟨fun _ _ hrequests => ?_, fun _ => rfl⟩
    exact hrequests.some_target (requestedIds_eq_nil_iff.mp hnone)
  · refine ⟨fun _ _ hrequests => hambiguous ?_, fun _ => rfl⟩
    exact List.filter_eq_nil_iff.mpr fun id hid => by simp [hrequests.unambiguous id hid]
  · refine ⟨fun _ _ hrequests => hmissing ?_, fun _ => rfl⟩
    refine List.filter_eq_nil_iff.mpr fun id hid => ?_
    simpa using hrequests.known id hid
  · have hunambiguous : ∀ id ∈ requestedIds targets, parsed.isAmbiguous id = false := by
      intro id hid
      have := List.filter_eq_nil_iff.mp (not_not.mp hambiguous) id hid
      simpa using this
    have hknown : ∀ id ∈ requestedIds targets, id ∈ parsed.entries.map QuestionEntry.id := by
      intro id hid
      have := List.filter_eq_nil_iff.mp (not_not.mp hmissing) id hid
      simpa using this
    have hrequests : Requests parsed targets :=
      ⟨fun hnil => hnone (requestedIds_eq_nil_iff.mpr hnil), hunambiguous, hknown⟩
    have hresolve := resolve_of_unambiguous hnone
      (fun id hid => hunambiguous id (mem_requestedIds_requestedIds hid)) num date
    have hshape : uniqueInOrder (targets.map canonicalizeQuestionReference) =
        requestedIds targets := rfl
    rw [Option.isSome_map, hshape, hresolve]
    by_cases hnum : 1 ≤ num
    · rw [dif_pos hnum]
      exact ⟨fun _ hzero => by omega, fun _ => rfl⟩
    · have hzero : num = 0 := by omega
      rw [dif_neg hnum]
      constructor
      · intro h
        cases h
      · intro h
        exact absurd hrequests (h hzero)

/-! ## Inputs from which no exception escapes -/

/-- `document` is the one captured document with the number that `resolved_by` names. -/
def NamesDocument (rt : Runtime E) (documents : List ResolutionDecisionDocument)
    (resolvedBy : Text) (num : Nat) (document : ResolutionDecisionDocument) : Prop :=
  extractDecisionNumber rt.tables resolvedBy = some num ∧
    (documents.filter fun d => extractDecisionNumber rt.tables d.stem == some num) = [document]

/-- `int` reads every number, the frontmatter of the named decision is usable, and no targets
are resolved by an active decision with number zero. -/
structure Answers (rt : Runtime E) (content : Text) (documents : List ResolutionDecisionDocument)
    (targets : List Text) (resolvedBy : Text) : Prop where
  reference : refusesDigits rt.tables resolvedBy = false
  stems : (extractDecisionNumber rt.tables resolvedBy).isSome = true →
    ∀ d ∈ documents, refusesDigits rt.tables d.stem = false
  frontmatter : ∀ num document text, NamesDocument rt documents resolvedBy num document →
    document.content = some text → ∀ block body, splitFrontmatter text = .ok (block, body) →
      FrontmatterUsable rt.yaml block body
  positive : ∀ document text d, NamesDocument rt documents resolvedBy 0 document →
    document.content = some text →
      parseDecision rt.tables rt.yaml text (decisionFilename document.stem) = .ok d →
        d.num = 0 → d.status = .active →
          ¬ Requests (OpenQuestionsFile.parse rt.tables content) targets

section Answering

variable {rt : Runtime E} {content resolvedBy : Text} {documents : List ResolutionDecisionDocument}
  {targets : List Text} {date : Date}

theorem resolveQuestionDocument_rejected {rejection : FlagRejection}
    (h : resolvingDecision rt documents resolvedBy = some (.error rejection)) :
    (resolveQuestionDocument rt content documents targets resolvedBy date).isSome = true := by
  rw [resolveQuestionDocument, h]
  rfl

theorem resolveQuestionDocument_raised (h : resolvingDecision rt documents resolvedBy = none) :
    ¬ (resolveQuestionDocument rt content documents targets resolvedBy date).isSome = true := by
  rw [resolveQuestionDocument, h]
  simp

/-- What is found of the one document that is named. -/
theorem resolvingDecision_named {num : Nat} {document : ResolutionDecisionDocument}
    (hreference : refusesDigits rt.tables resolvedBy = false)
    (hstems : ∀ d ∈ documents, refusesDigits rt.tables d.stem = false)
    (hnames : NamesDocument rt documents resolvedBy num document) :
    resolvingDecision rt documents resolvedBy = activeDecision rt document num := by
  have hany : (documents.any fun d => refusesDigits rt.tables d.stem) = false := by
    simpa using hstems
  rw [resolvingDecision, hreference, hnames.1]
  simp only [Bool.false_eq_true, if_false, matchingDocuments, hany, hnames.2, Option.bind_some]

/-- A resolution is rejected when `resolved_by` names no one document. -/
theorem resolvingDecision_unnamed (hreference : refusesDigits rt.tables resolvedBy = false)
    (hstems : (extractDecisionNumber rt.tables resolvedBy).isSome = true →
      ∀ d ∈ documents, refusesDigits rt.tables d.stem = false)
    (hnames : ∀ num document, ¬ NamesDocument rt documents resolvedBy num document) :
    ∃ rejection, resolvingDecision rt documents resolvedBy = some (.error rejection) := by
  rw [resolvingDecision, hreference]
  simp only [Bool.false_eq_true, if_false]
  cases hnum : extractDecisionNumber rt.tables resolvedBy with
  | none => exact ⟨_, rfl⟩
  | some num =>
      have hany : (documents.any fun d => refusesDigits rt.tables d.stem) = false := by
        simpa using hstems (by rw [hnum]; rfl)
      simp only [matchingDocuments, hany, Bool.false_eq_true, if_false, Option.bind_some]
      cases hfilter : documents.filter fun d =>
          extractDecisionNumber rt.tables d.stem == some num with
      | nil => exact ⟨_, rfl⟩
      | cons document rest =>
          cases rest with
          | nil => exact absurd ⟨hnum, hfilter⟩ (hnames num document)
          | cons second others => exact ⟨_, rfl⟩

/-- Whether a resolution by the one document that is named gets an outcome. -/
theorem resolve_named_iff {num : Nat} {document : ResolutionDecisionDocument}
    (hdecision : resolvingDecision rt documents resolvedBy = activeDecision rt document num) :
    (resolveQuestionDocument rt content documents targets resolvedBy date).isSome = true ↔
      (∀ text, document.content = some text → ∀ block body,
        splitFrontmatter text = .ok (block, body) → FrontmatterUsable rt.yaml block body) ∧
      (num = 0 → ∀ text d, document.content = some text →
        parseDecision rt.tables rt.yaml text (decisionFilename document.stem) = .ok d →
          d.num = 0 → d.status = .active →
            ¬ Requests (OpenQuestionsFile.parse rt.tables content) targets) := by
  cases hcontent : document.content with
  | none =>
      have hrejected : resolvingDecision rt documents resolvedBy =
          some (.error (.notUtf8Decision num)) := by
        rw [hdecision, activeDecision, hcontent]
      refine ⟨fun _ => ⟨?_, ?_⟩, fun _ => resolveQuestionDocument_rejected hrejected⟩
      · intro text htext
        cases htext
      · intro _ text d htext
        cases htext
  | some text =>
      have husable := parseDecision_valueError_iff rt.tables rt.yaml text
        (decisionFilename document.stem)
      cases hparse : parseDecision rt.tables rt.yaml text (decisionFilename document.stem) with
      | error e =>
          rw [forall_error_iff hparse] at husable
          cases hvalue : e.isValueError with
          | true =>
              have hrejected : resolvingDecision rt documents resolvedBy =
                  some (.error (.malformedDecision num)) := by
                rw [hdecision, activeDecision, hcontent]
                simp only [hparse, hvalue, if_true]
              refine ⟨fun _ => ⟨?_, ?_⟩, fun _ => resolveQuestionDocument_rejected hrejected⟩
              · intro text' htext
                cases htext
                exact husable.mp hvalue
              · intro _ text' d htext hok
                cases htext
                rw [hparse] at hok
                cases hok
          | false =>
              have hraised : resolvingDecision rt documents resolvedBy = none := by
                rw [hdecision, activeDecision, hcontent]
                simp only [hparse, hvalue, Bool.false_eq_true, if_false]
              refine ⟨fun h => absurd h (resolveQuestionDocument_raised hraised), fun h => ?_⟩
              have hcaught := husable.mpr (h.1 text rfl)
              rw [hvalue] at hcaught
              cases hcaught
      | ok d =>
          have hfrontmatter : ∀ text', some text = some text' → ∀ block body,
              splitFrontmatter text' = .ok (block, body) → FrontmatterUsable rt.yaml block body := by
            intro text' htext
            cases htext
            refine husable.mp fun e he => ?_
            rw [hparse] at he
            cases he
          by_cases hnum : d.num = num
          · by_cases hstatus : d.status = .active
            · have hactive : resolvingDecision rt documents resolvedBy = some (.ok num) := by
                rw [hdecision, activeDecision, hcontent]
                simp only [hparse, hnum, hstatus, ne_eq, not_true_eq_false, if_false]
              rw [resolveQuestionDocument_isSome hactive]
              constructor
              · intro h
                exact ⟨hfrontmatter, fun hzero _ _ _ _ _ _ => h hzero⟩
              · rintro ⟨-, h⟩ hzero
                exact h hzero text d rfl hparse (hnum.trans hzero) hstatus
            · have hrejected : resolvingDecision rt documents resolvedBy =
                  some (.error (.inactiveDecision num)) := by
                rw [hdecision, activeDecision, hcontent]
                simp only [hparse, hnum, hstatus, ne_eq, not_true_eq_false, not_false_eq_true,
                  if_false, if_true]
              refine ⟨fun _ => ⟨hfrontmatter, ?_⟩,
                fun _ => resolveQuestionDocument_rejected hrejected⟩
              intro _ text' d' htext hok _ hactive
              cases htext
              rw [hparse] at hok
              cases hok
              exact absurd hactive hstatus
          · have hrejected : resolvingDecision rt documents resolvedBy =
                some (.error (.misnumberedDecision document.stem num)) := by
              rw [hdecision, activeDecision, hcontent]
              simp only [hparse, hnum, ne_eq, not_false_eq_true, if_true]
            refine ⟨fun _ => ⟨hfrontmatter, ?_⟩,
              fun _ => resolveQuestionDocument_rejected hrejected⟩
            intro hzero text' d' htext hok hd
            cases htext
            rw [hparse] at hok
            cases hok
            exact absurd (hd.trans hzero.symm) hnum

/-- Exactly the inputs from which no exception escapes get an outcome, and one that carries
nothing when it is a rejection. -/
theorem resolve_answers_iff :
    (∃ outcome, resolveQuestionDocument rt content documents targets resolvedBy date =
        some outcome ∧ outcome.envelope.Atomic) ↔
      Answers rt content documents targets resolvedBy := by
  have hatomic : (∃ outcome, resolveQuestionDocument rt content documents targets resolvedBy date =
      some outcome ∧ outcome.envelope.Atomic) ↔
      (resolveQuestionDocument rt content documents targets resolvedBy date).isSome = true := by
    rw [Option.isSome_iff_exists]
    exact exists_congr fun outcome => and_iff_left outcome.envelope_atomic
  rw [hatomic]
  cases hreference : refusesDigits rt.tables resolvedBy with
  | true =>
      refine ⟨fun h => absurd h (resolveQuestionDocument_raised ?_), fun h => ?_⟩
      · rw [resolvingDecision, hreference]
        rfl
      · rw [h.reference] at hreference
        cases hreference
  | false =>
  by_cases hstems : (extractDecisionNumber rt.tables resolvedBy).isSome = true →
      ∀ d ∈ documents, refusesDigits rt.tables d.stem = false
  swap
  · -- a stem is refused although `resolved_by` names a number
    refine ⟨fun h => absurd h (resolveQuestionDocument_raised ?_), fun h => absurd h.stems hstems⟩
    push Not at hstems
    obtain ⟨hsome, d, hd, hrefused⟩ := hstems
    obtain ⟨num, hnum⟩ := Option.isSome_iff_exists.mp hsome
    have hany : (documents.any fun d => refusesDigits rt.tables d.stem) = true :=
      List.any_eq_true.mpr ⟨d, hd, by simpa using hrefused⟩
    rw [resolvingDecision, hreference, hnum]
    simp only [Bool.false_eq_true, if_false, matchingDocuments, hany, if_true, Option.bind_none]
  by_cases hnames : ∀ num document, ¬ NamesDocument rt documents resolvedBy num document
  · obtain ⟨rejection, hrejected⟩ := resolvingDecision_unnamed hreference hstems hnames
    refine ⟨fun _ => ⟨hreference, hstems, ?_, ?_⟩,
      fun _ => resolveQuestionDocument_rejected hrejected⟩
    · intro num document text hname
      exact absurd hname (hnames num document)
    · intro document text d hname
      exact absurd hname (hnames 0 document)
  push Not at hnames
  obtain ⟨num, document, hname⟩ := hnames
  have hunique : ∀ num' document', NamesDocument rt documents resolvedBy num' document' →
      num' = num ∧ document' = document := by
    intro num' document' hname'
    have hnum : num' = num := Option.some.inj (hname'.1.symm.trans hname.1)
    subst hnum
    exact ⟨rfl, List.head_eq_of_cons_eq (hname'.2.symm.trans hname.2)⟩
  have hdecision := resolvingDecision_named hreference
    (hstems (by rw [hname.1]; rfl)) hname
  rw [resolve_named_iff hdecision]
  constructor
  · rintro ⟨hfrontmatter, hpositive⟩
    refine ⟨hreference, hstems, ?_, ?_⟩
    · intro num' document' text hname'
      obtain ⟨-, rfl⟩ := hunique num' document' hname'
      exact hfrontmatter text
    · intro document' text d hname'
      obtain ⟨hzero, rfl⟩ := hunique 0 document' hname'
      exact hpositive hzero.symm text d
  · intro h
    refine ⟨fun text => h.frontmatter num document text hname, ?_⟩
    rintro rfl text d
    exact h.positive document text d hname

end Answering

/-- A decision file that gives its number in the frontmatter as well. -/
def numberedFile : Text :=
  ("---\ndate: 2026-04-16\nconfidence: high\nnum: 7\n---\n\n# 007 — Use a queue\n\n" ++
    "## Decision\n\nJobs go through the queue.\n").toList

/-- Its number is one keyword argument too many, and the resolution raises. -/
theorem numbered_decision_raises :
    ¬ ∃ outcome, resolveQuestionDocument (Runtime.plain ⟨2026, 5, 14, by decide⟩)
      "# Open Questions\n\n- [Q1] Which queue?\n".toList
      [⟨"007-use-a-queue".toList, some numberedFile⟩] ["Q1".toList] "D7".toList
      ⟨2026, 5, 14, by decide⟩ = some outcome ∧ outcome.envelope.Atomic := by
  rintro ⟨outcome, houtcome, -⟩
  have hnone : (resolveQuestionDocument (Runtime.plain ⟨2026, 5, 14, by decide⟩)
      "# Open Questions\n\n- [Q1] Which queue?\n".toList
      [⟨"007-use-a-queue".toList, some numberedFile⟩] ["Q1".toList] "D7".toList
      ⟨2026, 5, 14, by decide⟩).isNone = true := by decide +kernel
  rw [houtcome] at hnone
  cases hnone

end Questions
end Core
end Nauro
