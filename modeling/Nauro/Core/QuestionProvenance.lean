import Nauro.Core.Provenance
import Nauro.Core.Questions
import Nauro.Foundation.Table

/-!
# The question-provenance sidecar

`questions-provenance.json` keeps who asked each question and when. Records are inserted by
question id; the record of a legacy question is bound once to the question id it migrated to.

* `question_provenance_append_only` — runs of operations, each succeeding or failing.
-/

namespace Nauro
namespace Core
namespace QuestionProvenance

open Foundation

/-! ## Errors -/

/-- The classes of `QuestionProvenanceError`. -/
inductive Classification where
  | invalidUtf8
  | jsonMalformed
  | duplicateKey
  | versionUnsupported
  | schemaInvalid
  | noncanonical
  | conflict
  | legacyMissing
deriving DecidableEq

/-- `QuestionProvenanceError`. -/
structure CodecError where
  classification : Classification
  message : String
deriving DecidableEq

/-- The exceptions of the module's functions and of what they call. -/
inductive Raised where
  | codec (error : CodecError)
  | validationError
  | unicodeDecodeError
  | unicodeEncodeError
  | jsonDecodeError
  /-- An integer literal past the digit limit: a `ValueError`. -/
  | intDigitLimit
  | recursionError
deriving DecidableEq

/-! ## Records and documents -/

/-- `validate_question_id`: a canonical unpadded Q-form. -/
def isQuestionId (value : Text) : Bool :=
  (Questions.parseQuestionId value).any fun number => Questions.formatQuestionId number == value

/-- `QuestionProvenanceRecord`. -/
structure Record where
  actorId : Text
  createdAt : Text
  eventId : Text
  actorId_isUlid : isUlid actorId = true
  createdAt_isUtc : isUtcTimestamp createdAt = true
  eventId_isUlid : isUlid eventId = true
deriving DecidableEq

/-- `LegacyQuestionProvenanceRecord`. -/
structure LegacyRecord extends Record where
  currentQuestionId : Option Text
  currentId_isCanonical : currentQuestionId.all isQuestionId = true
deriving DecidableEq

/-- The alias of a legacy record refers to an equal record. -/
def LegacyRecord.aliasHolds (byQuestionId : Table Text Record) (legacy : LegacyRecord) : Bool :=
  legacy.currentQuestionId.all fun id => byQuestionId.get? id == some legacy.toRecord

/-- `validate_and_freeze_maps`. -/
def validMaps (byQuestionId : Table Text Record) (byLegacyId : Table Text LegacyRecord) : Bool :=
  byQuestionId.keys.all isQuestionId && byLegacyId.keys.all Questions.isLegacyQuestionId &&
    byLegacyId.entries.all fun row => row.2.aliasHolds byQuestionId

/-- `QuestionProvenanceDocument`; its schema version is 1. -/
structure Document where
  byQuestionId : Table Text Record
  byLegacyId : Table Text LegacyRecord
  valid : validMaps byQuestionId byLegacyId = true
deriving DecidableEq

/-- The constructor of a document, with its validator. -/
def Document.make (byQuestionId : Table Text Record) (byLegacyId : Table Text LegacyRecord) :
    Except Raised Document :=
  if h : validMaps byQuestionId byLegacyId = true then .ok ⟨byQuestionId, byLegacyId, h⟩
  else .error .validationError

/-! ## Operations -/

inductive Status where
  | inserted
  | migrated
  | replayed
deriving DecidableEq

/-- `QuestionProvenanceMutation`. -/
structure Mutation where
  status : Status
  document : Document
deriving DecidableEq

def conflict (message : String) : Raised :=
  .codec ⟨.conflict, message⟩

/-- `insert_question_provenance`. -/
def insertQuestionProvenance (document : Document) (questionId : Text) (provenance : Record) :
    Except Raised Mutation :=
  if isQuestionId questionId then
    match document.byQuestionId.get? questionId with
    | some existing =>
        if existing = provenance then .ok ⟨.replayed, document⟩
        else .error (conflict "question provenance record already differs")
    | none => do
        let updated ← Document.make (document.byQuestionId.put questionId provenance)
          document.byLegacyId
        return ⟨.inserted, updated⟩
  else .error (.codec ⟨.schemaInvalid, "question_id must be a canonical unpadded Q-form"⟩)

/-- `legacy.model_copy(update={"current_question_id": ...})`. -/
def LegacyRecord.bind (legacy : LegacyRecord) (id : Text) (h : isQuestionId id = true) :
    LegacyRecord :=
  { legacy with currentQuestionId := some id, currentId_isCanonical := h }

/-- `migrate_legacy_question_provenance`. -/
def migrateLegacyQuestionProvenance (document : Document) (legacyId currentQuestionId : Text) :
    Except Raised Mutation :=
  if h : Questions.isLegacyQuestionId legacyId = true ∧ isQuestionId currentQuestionId = true then
    match document.byLegacyId.get? legacyId with
    | none => .error (.codec ⟨.legacyMissing, "legacy question provenance is absent"⟩)
    | some legacy =>
        if legacy.currentQuestionId ≠ none ∧
            legacy.currentQuestionId ≠ some currentQuestionId then
          .error (conflict "legacy provenance already names another question")
        else
          let existing := document.byQuestionId.get? currentQuestionId
          if existing ≠ none ∧ existing ≠ some legacy.toRecord then
            .error (conflict "canonical question provenance already differs")
          else if existing = some legacy.toRecord ∧
              legacy.currentQuestionId = some currentQuestionId then
            .ok ⟨.replayed, document⟩
          else do
            let updated ← Document.make
              (document.byQuestionId.put currentQuestionId legacy.toRecord)
              (document.byLegacyId.put legacyId (legacy.bind currentQuestionId h.2))
            return ⟨.migrated, updated⟩
  else
    .error (.codec
      ⟨.schemaInvalid, "legacy migration identifiers violate the provenance schema"⟩)

/-! ## Runs -/

inductive Operation where
  | insert (questionId : Text) (provenance : Record)
  | migrate (legacyId currentQuestionId : Text)
deriving DecidableEq

def Operation.apply : Operation → Document → Except Raised Mutation
  | .insert questionId provenance, d => insertQuestionProvenance d questionId provenance
  | .migrate legacyId currentQuestionId, d =>
      migrateLegacyQuestionProvenance d legacyId currentQuestionId

/-- The document after an operation; a failing operation returns none, and the old one stays. -/
def step (d : Document) (op : Operation) : Document :=
  match op.apply d with
  | .ok mutation => mutation.document
  | .error _ => d

def run (d : Document) (ops : List Operation) : Document :=
  ops.foldl step d

/-- What no operation undoes: records stay, legacy provenance stays, and an alias that was
written stays. -/
structure Document.Extends (d d' : Document) : Prop where
  records : ∀ id record, d.byQuestionId.get? id = some record →
    d'.byQuestionId.get? id = some record
  legacyKeys : d'.byLegacyId.keys = d.byLegacyId.keys
  legacy : ∀ id record, d.byLegacyId.get? id = some record →
    ∃ record', d'.byLegacyId.get? id = some record' ∧
      record'.toRecord = record.toRecord ∧
      ∀ current ∈ record.currentQuestionId, record'.currentQuestionId = some current

/-! ## What the validators check -/

theorem validMaps_iff {byQuestionId : Table Text Record} {byLegacyId : Table Text LegacyRecord} :
    validMaps byQuestionId byLegacyId = true ↔
      (∀ id ∈ byQuestionId.keys, isQuestionId id = true) ∧
        (∀ id ∈ byLegacyId.keys, Questions.isLegacyQuestionId id = true) ∧
        ∀ id legacy, byLegacyId.get? id = some legacy →
          ∀ current ∈ legacy.currentQuestionId,
            byQuestionId.get? current = some legacy.toRecord := by
  simp only [validMaps, Bool.and_eq_true, List.all_eq_true, and_assoc]
  refine and_congr_right fun _ => and_congr_right fun _ => ?_
  constructor
  · intro h id legacy hlegacy current hcurrent
    have hrow := h _ (Table.mem_entries_iff.mpr hlegacy)
    rw [LegacyRecord.aliasHolds, Option.mem_def.mp hcurrent] at hrow
    simpa using hrow
  · rintro h ⟨id, legacy⟩ hrow
    have halias := h id legacy (Table.mem_entries_iff.mp hrow)
    unfold LegacyRecord.aliasHolds
    cases hcurrent : legacy.currentQuestionId with
    | none => rfl
    | some current => simpa using halias current hcurrent

theorem Document.alias_eq (d : Document) {id current : Text} {legacy : LegacyRecord}
    (hlegacy : d.byLegacyId.get? id = some legacy)
    (hcurrent : legacy.currentQuestionId = some current) :
    d.byQuestionId.get? current = some legacy.toRecord :=
  (validMaps_iff.mp d.valid).2.2 id legacy hlegacy current hcurrent

/-- A new record keeps the maps valid. -/
theorem validMaps_put (d : Document) {id : Text} (hid : isQuestionId id = true)
    {record : Record} (hold : ∀ old, d.byQuestionId.get? id = some old → old = record) :
    validMaps (d.byQuestionId.put id record) d.byLegacyId = true := by
  obtain ⟨hquestions, hlegacies, -⟩ := validMaps_iff.mp d.valid
  refine validMaps_iff.mpr ⟨?_, hlegacies, ?_⟩
  · intro other hother
    rcases (Table.mem_keys_put record).mp hother with rfl | hin
    · exact hid
    · exact hquestions other hin
  · intro legacyId legacy hlegacy current hcurrent
    have halias := d.alias_eq hlegacy hcurrent
    by_cases hsame : current = id
    · subst hsame
      rw [Table.get?_put_self, ← hold _ halias]
    · rw [Table.get?_put_of_ne hsame, halias]

/-- Binding a legacy record to an equal record keeps the maps valid. -/
theorem validMaps_bind (d : Document) {legacyId id : Text} {legacy : LegacyRecord}
    (hlegacyId : Questions.isLegacyQuestionId legacyId = true) (hid : isQuestionId id = true)
    (hold : ∀ old, d.byQuestionId.get? id = some old → old = legacy.toRecord) :
    validMaps (d.byQuestionId.put id legacy.toRecord)
      (d.byLegacyId.put legacyId (legacy.bind id hid)) = true := by
  obtain ⟨hquestions, hlegacies, haliases⟩ := validMaps_iff.mp (validMaps_put d hid hold)
  refine validMaps_iff.mpr ⟨hquestions, ?_, ?_⟩
  · intro other hother
    rcases (Table.mem_keys_put (legacy.bind id hid)).mp hother with rfl | hin
    · exact hlegacyId
    · exact hlegacies other hin
  · intro other found hfound current hcurrent
    by_cases hsame : other = legacyId
    · subst hsame
      rw [Table.get?_put_self] at hfound
      cases hfound
      cases hcurrent
      exact Table.get?_put_self _ _ _
    · rw [Table.get?_put_of_ne hsame] at hfound
      exact haliases other found hfound current hcurrent

/-! ## What an operation that succeeds has done -/

theorem insert_ok {d : Document} {id : Text} {record : Record} {m : Mutation}
    (h : insertQuestionProvenance d id record = .ok m) :
    isQuestionId id = true ∧
      (d.byQuestionId.get? id = some record ∧ m = ⟨.replayed, d⟩ ∨
        d.byQuestionId.get? id = none ∧
          m.document.byQuestionId = d.byQuestionId.put id record ∧
          m.document.byLegacyId = d.byLegacyId) := by
  unfold insertQuestionProvenance Document.make at h
  split at h
  · next hid =>
      refine ⟨hid, ?_⟩
      split at h
      · next existing hexisting =>
          split at h
          · next hsame =>
              cases h
              exact Or.inl ⟨hsame ▸ hexisting, rfl⟩
          · cases h
      · next hnone =>
          split at h
          · cases h
            exact Or.inr ⟨hnone, rfl, rfl⟩
          · cases h
  · cases h

theorem migrate_ok {d : Document} {legacyId id : Text} {m : Mutation}
    (h : migrateLegacyQuestionProvenance d legacyId id = .ok m) :
    ∃ hid : isQuestionId id = true, ∃ legacy : LegacyRecord,
      Questions.isLegacyQuestionId legacyId = true ∧
      d.byLegacyId.get? legacyId = some legacy ∧
      (∀ old, d.byQuestionId.get? id = some old → old = legacy.toRecord) ∧
      (legacy.currentQuestionId = some id ∧ m = ⟨.replayed, d⟩ ∨
        legacy.currentQuestionId.all (· == id) = true ∧
          m.document.byQuestionId = d.byQuestionId.put id legacy.toRecord ∧
          m.document.byLegacyId = d.byLegacyId.put legacyId (legacy.bind id hid)) := by
  unfold migrateLegacyQuestionProvenance Document.make at h
  split at h
  · next hids =>
      split at h
      · cases h
      · next legacy hlegacy =>
          split at h
          · cases h
          · next hfree =>
              have hcurrent : legacy.currentQuestionId.all (· == id) = true := by
                cases hold : legacy.currentQuestionId with
                | none => rfl
                | some old =>
                    rw [hold] at hfree
                    simpa using hfree
              simp only at h
              split at h
              · cases h
              · next hequal =>
                  have hold : ∀ old, d.byQuestionId.get? id = some old →
                      old = legacy.toRecord := by
                    intro old hold
                    rw [hold] at hequal
                    simpa using hequal
                  refine ⟨hids.2, legacy, hids.1, hlegacy, hold, ?_⟩
                  split at h
                  · next hdone =>
                      cases h
                      exact Or.inl ⟨hdone.2, rfl⟩
                  · split at h
                    · cases h
                      exact Or.inr ⟨hcurrent, rfl, rfl⟩
                    · cases h
  · cases h

/-- The operation has been carried out in a document. -/
def Operation.DoneIn (d : Document) : Operation → Prop
  | .insert id record => isQuestionId id = true ∧ d.byQuestionId.get? id = some record
  | .migrate legacyId id =>
      Questions.isLegacyQuestionId legacyId = true ∧ isQuestionId id = true ∧
        ∃ legacy, d.byLegacyId.get? legacyId = some legacy ∧ legacy.currentQuestionId = some id

/-- An operation that was carried out is replayed and changes nothing. -/
theorem apply_of_doneIn {op : Operation} {d : Document} (h : op.DoneIn d) :
    op.apply d = .ok ⟨.replayed, d⟩ := by
  cases op with
  | insert id record =>
      obtain ⟨hid, hrecord⟩ := h
      simp [Operation.apply, insertQuestionProvenance, hid, hrecord]
  | migrate legacyId id =>
      obtain ⟨hlegacyId, hid, legacy, hlegacy, hcurrent⟩ := h
      have halias := d.alias_eq hlegacy hcurrent
      rw [Operation.apply, migrateLegacyQuestionProvenance, dif_pos ⟨hlegacyId, hid⟩]
      simp [hlegacy, hcurrent, halias]

/-- An operation that succeeds has been carried out in the document it returns. -/
theorem doneIn_of_ok {op : Operation} {d : Document} {m : Mutation} (h : op.apply d = .ok m) :
    op.DoneIn m.document := by
  cases op with
  | insert id record =>
      obtain ⟨hid, ⟨hrecord, rfl⟩ | ⟨-, hquestions, -⟩⟩ := insert_ok h
      · exact ⟨hid, hrecord⟩
      · refine ⟨hid, ?_⟩
        rw [hquestions]
        exact Table.get?_put_self _ _ _
  | migrate legacyId id =>
      obtain ⟨hid, legacy, hlegacyId, hlegacy, -, ⟨hcurrent, rfl⟩ | ⟨-, -, hlegacies⟩⟩ :=
        migrate_ok h
      · exact ⟨hlegacyId, hid, legacy, hlegacy, hcurrent⟩
      · refine ⟨hlegacyId, hid, legacy.bind id hid, ?_, rfl⟩
        rw [hlegacies]
        exact Table.get?_put_self _ _ _

theorem make_of_valid {byQuestionId : Table Text Record}
    {byLegacyId : Table Text LegacyRecord} (h : validMaps byQuestionId byLegacyId = true) :
    Document.make byQuestionId byLegacyId = .ok ⟨byQuestionId, byLegacyId, h⟩ :=
  dif_pos h

/-- An operation fails with an error of the module; its own document passes the validators. -/
theorem apply_error {op : Operation} {d : Document} {e : Raised} (h : op.apply d = .error e) :
    ∃ error, e = .codec error := by
  cases op with
  | insert id record =>
      rw [Operation.apply, insertQuestionProvenance] at h
      split at h
      · next hid =>
          split at h
          · split at h
            · cases h
            · cases h
              exact ⟨_, rfl⟩
          · next hnone =>
              have hfree : ∀ old, d.byQuestionId.get? id = some old → old = record := by
                simp [hnone]
              have hvalid := validMaps_put d hid hfree
              rw [make_of_valid hvalid] at h
              cases h
      · cases h
        exact ⟨_, rfl⟩
  | migrate legacyId id =>
      rw [Operation.apply, migrateLegacyQuestionProvenance] at h
      split at h
      · next hids =>
          split at h
          · cases h
            exact ⟨_, rfl⟩
          · next legacy hlegacy =>
              split at h
              · cases h
                exact ⟨_, rfl⟩
              · simp only at h
                split at h
                · cases h
                  exact ⟨_, rfl⟩
                · next hequal =>
                    have hold : ∀ old, d.byQuestionId.get? id = some old →
                        old = legacy.toRecord := by
                      intro old hold
                      rw [hold] at hequal
                      simpa using hequal
                    rw [make_of_valid (validMaps_bind d hids.1 hids.2 hold)] at h
                    split at h <;> cases h
      · cases h
        exact ⟨_, rfl⟩

/-! ## What runs keep -/

theorem Document.Extends.refl (d : Document) : d.Extends d :=
  ⟨fun _ _ h => h, rfl, fun _ record h => ⟨record, h, rfl, fun _ hcurrent => hcurrent⟩⟩

theorem Document.Extends.trans {d d' d'' : Document} (h : d.Extends d') (h' : d'.Extends d'') :
    d.Extends d'' := by
  refine ⟨fun id record hrecord => h'.records id record (h.records id record hrecord),
    h'.legacyKeys.trans h.legacyKeys, ?_⟩
  intro id record hrecord
  obtain ⟨between, hbetween, hsame, hcurrent⟩ := h.legacy id record hrecord
  obtain ⟨final, hfinal, hsame', hcurrent'⟩ := h'.legacy id between hbetween
  exact ⟨final, hfinal, hsame'.trans hsame,
    fun current hmem => hcurrent' current (hcurrent current hmem)⟩

/-- An operation that succeeds undoes nothing. -/
theorem extends_of_ok {op : Operation} {d : Document} {m : Mutation} (h : op.apply d = .ok m) :
    d.Extends m.document := by
  cases op with
  | insert id record =>
      obtain ⟨-, ⟨-, rfl⟩ | ⟨hnone, hquestions, hlegacies⟩⟩ := insert_ok h
      · exact Document.Extends.refl d
      · refine ⟨?_, by rw [hlegacies], ?_⟩
        · intro other old hold
          have hne : other ≠ id := by
            rintro rfl
            rw [hnone] at hold
            cases hold
          rw [hquestions, Table.get?_put_of_ne hne, hold]
        · intro other old hold
          rw [hlegacies]
          exact ⟨old, hold, rfl, fun _ hcurrent => hcurrent⟩
  | migrate legacyId id =>
      obtain ⟨hid, legacy, -, hlegacy, hold, ⟨-, rfl⟩ | ⟨hcurrent, hquestions, hlegacies⟩⟩ :=
        migrate_ok h
      · exact Document.Extends.refl d
      · have hkey : legacyId ∈ d.byLegacyId.keys := by
          rw [Table.mem_keys_iff, hlegacy]
          rfl
        refine ⟨?_, by rw [hlegacies, Table.keys_put_of_mem hkey], ?_⟩
        · intro other record hrecord
          by_cases hsame : other = id
          · subst hsame
            rw [hquestions, Table.get?_put_self, hold record hrecord]
          · rw [hquestions, Table.get?_put_of_ne hsame, hrecord]
        · intro other record hrecord
          by_cases hsame : other = legacyId
          · subst hsame
            rw [hlegacy] at hrecord
            cases hrecord
            refine ⟨legacy.bind id hid, by rw [hlegacies, Table.get?_put_self], rfl, ?_⟩
            intro current hmem
            rw [Option.mem_def.mp hmem, Option.all_some, beq_iff_eq] at hcurrent
            rw [hcurrent]
            rfl
          · refine ⟨record, ?_, rfl, fun _ hmem => hmem⟩
            rw [hlegacies, Table.get?_put_of_ne hsame, hrecord]

theorem extends_step (d : Document) (op : Operation) : d.Extends (step d op) := by
  unfold step
  split
  · next m h => exact extends_of_ok h
  · exact Document.Extends.refl d

theorem extends_run (d : Document) (ops : List Operation) : d.Extends (run d ops) := by
  induction ops generalizing d with
  | nil => exact Document.Extends.refl d
  | cons op ops ih => exact (extends_step d op).trans (ih (step d op))

theorem doneIn_of_extends {op : Operation} {d d' : Document} (h : op.DoneIn d)
    (hextends : d.Extends d') : op.DoneIn d' := by
  cases op with
  | insert id record => exact ⟨h.1, hextends.records id record h.2⟩
  | migrate legacyId id =>
      obtain ⟨hlegacyId, hid, legacy, hlegacy, hcurrent⟩ := h
      obtain ⟨legacy', hlegacy', -, hkeep⟩ := hextends.legacy legacyId legacy hlegacy
      exact ⟨hlegacyId, hid, legacy', hlegacy', hkeep id hcurrent⟩

theorem run_append (d : Document) (front back : List Operation) :
    run d (front ++ back) = run (run d front) back :=
  List.foldl_append

/-- In every run from a valid document, between any two moments: records and legacy provenance
stay, and an alias is written at most once; every alias refers to an equal record; an operation
that succeeded before is replayed and changes nothing; and an operation that fails does so with
an error of the module and leaves the document unchanged. -/
theorem question_provenance_append_only (d : Document) (front back : List Operation) :
    (run d front).Extends (run d (front ++ back)) ∧
      (∀ legacyId legacy current, (run d front).byLegacyId.get? legacyId = some legacy →
        legacy.currentQuestionId = some current →
          (run d front).byQuestionId.get? current = some legacy.toRecord) ∧
      (∀ op ∈ back.head?, ∀ m, op.apply (run d front) = .ok m →
        op.apply (run d (front ++ back)) = .ok ⟨.replayed, run d (front ++ back)⟩) ∧
      (∀ op e, op.apply (run d front) = .error e →
        (∃ error, e = .codec error) ∧ run d (front ++ [op]) = run d front) := by
  rw [run_append]
  refine ⟨extends_run _ back, ?_, ?_, ?_⟩
  · intro legacyId legacy current hlegacy hcurrent
    exact (run d front).alias_eq hlegacy hcurrent
  · intro op hop m hm
    cases back with
    | nil => cases hop
    | cons first rest =>
        cases hop
        have hstep : step (run d front) op = m.document := by
          rw [step, hm]
        apply apply_of_doneIn
        refine doneIn_of_extends (doneIn_of_ok hm) ?_
        change m.document.Extends (run (step (run d front) op) rest)
        rw [hstep]
        exact extends_run _ rest
  · intro op e he
    refine ⟨apply_error he, ?_⟩
    rw [run_append]
    change step (run d front) op = run d front
    rw [step, he]

end QuestionProvenance
end Core
end Nauro
