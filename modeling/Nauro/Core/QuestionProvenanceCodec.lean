import Nauro.Core.QuestionProvenance
import Nauro.Foundation.EscapedUtf8
import Nauro.Foundation.JsonRoundTrip

/-!
# The codec of the question-provenance sidecar

The sidecar is one canonical JSON text: members sorted, no white space, a final newline.

* `question_provenance_codec_exact` — the parser accepts exactly what the serializer writes.
-/

namespace Nauro
namespace Core
namespace QuestionProvenance

open Foundation
open Foundation.EscapedUtf8
open Foundation.Json

/-! ## Writing -/

def key (name : String) : Str :=
  ofText name.toList

/-- `_record_value`. -/
def recordMembers (record : Record) : List (Str × Value) :=
  [(key "actor_id", .string (ofText record.actorId)),
    (key "created_at", .string (ofText record.createdAt)),
    (key "event_id", .string (ofText record.eventId))]

def currentIdValue : Option Text → Value
  | none => .null
  | some id => .string (ofText id)

def questionRow (row : Text × Record) : Str × Value :=
  (ofText row.1, .object (recordMembers row.2))

def legacyRow (row : Text × LegacyRecord) : Str × Value :=
  (ofText row.1, .object (recordMembers row.2.toRecord ++
    [(key "current_question_id", currentIdValue row.2.currentQuestionId)]))

/-- `_document_value`. -/
def documentValue (d : Document) : Value :=
  .object
    [(key "schema_version", .int 1),
      (key "by_question_id", .object (d.byQuestionId.entries.map questionRow)),
      (key "by_legacy_id", .object (d.byLegacyId.entries.map legacyRow))]

/-- `str.encode("utf-8")`. -/
def encodeUtf8 (s : Str) : Except Raised (List UInt8) :=
  match toText? s with
  | some text => .ok (utf8 text)
  | none => .error .unicodeEncodeError

/-- `serialize_question_provenance`. -/
def serializeQuestionProvenance (d : Document) : Except Raised (List UInt8) := do
  let bytes ← encodeUtf8 (print (sortKeys (documentValue d)))
  return bytes ++ [newlineByte]

/-! ## Reading -/

def Point.char? : Point → Option Char
  | .scalar c => some c
  | .escaped _ => none

/-- `bytes.decode("utf-8")`. -/
def decodeUtf8 (data : List UInt8) : Except Raised Text :=
  match (decode data).mapM Point.char? with
  | some text => .ok text
  | none => .error .unicodeDecodeError

/-- What the interpreter allows a JSON reader. -/
structure JsonLimits where
  nesting : Nat
  intDigits : Nat

/-- `_reject_duplicate_keys`. -/
def rejectDuplicateKeys (members : List (Str × Value)) : Except Raised Unit :=
  if (members.map Prod.fst).Nodup then .ok ()
  else .error (.codec
    ⟨.duplicateKey, "question provenance input contains a duplicate object key"⟩)

/-- `json.loads` with the hooks of the parser. -/
def jsonReader (limits : JsonLimits) : Reader Raised where
  malformed := .jsonDecodeError
  tooDeep := .recursionError
  tooLong := .intDigitLimit
  constant := .codec
    ⟨.jsonMalformed, "question provenance input contains an invalid JSON number"⟩
  checkMembers := rejectDuplicateKeys
  nesting := limits.nesting
  intDigits := limits.intDigits

/-- A model forbids members it does not declare. -/
def onlyKeys (names : List String) (members : List (Str × Value)) : Bool :=
  members.all fun member => (names.map key).contains member.1

/-- A member that is a string. -/
def textMember (name : String) (members : List (Str × Value)) : Option Text :=
  match members.lookup (key name) with
  | some (.string s) => toText? s
  | _ => none

/-- The fields of `QuestionProvenanceRecord`, validated. -/
def recordOf? (members : List (Str × Value)) : Option Record := do
  let actorId ← textMember "actor_id" members
  let createdAt ← textMember "created_at" members
  let eventId ← textMember "event_id" members
  if h : isUlid actorId = true ∧ isUtcTimestamp createdAt = true ∧ isUlid eventId = true then
    some ⟨actorId, createdAt, eventId, h.1, h.2.1, h.2.2⟩
  else none

/-- `current_question_id`: a required member that may be null. -/
def currentIdOf? (members : List (Str × Value)) : Option (Option Text) :=
  match members.lookup (key "current_question_id") with
  | some .null => some none
  | some (.string s) => (toText? s).map some
  | _ => none

def questionRowOf? (member : Str × Value) : Option (Text × Record) :=
  match member.2 with
  | .object members => do
      let id ← toText? member.1
      if onlyKeys ["actor_id", "created_at", "event_id"] members then
        (recordOf? members).map fun record => (id, record)
      else none
  | _ => none

def legacyRowOf? (member : Str × Value) : Option (Text × LegacyRecord) :=
  match member.2 with
  | .object members => do
      let id ← toText? member.1
      if onlyKeys ["actor_id", "created_at", "event_id", "current_question_id"] members then
        let record ← recordOf? members
        let current ← currentIdOf? members
        if h : current.all isQuestionId = true then some (id, ⟨record, current, h⟩) else none
      else none
  | _ => none

/-- A mapping whose members all validate. -/
def mappingOf? {R : Type} (row? : Str × Value → Option (Text × R)) (value : Option Value) :
    Option (Table Text R) :=
  match value with
  | some (.object members) => (members.mapM row?).map Table.ofPairs
  | _ => none

/-- `QuestionProvenanceDocument.model_validate`. -/
def modelValidate (raw : List (Str × Value)) : Except Raised Document :=
  match onlyKeys ["schema_version", "by_question_id", "by_legacy_id"] raw,
      raw.lookup (key "schema_version"), mappingOf? questionRowOf? (raw.lookup (key "by_question_id")),
      mappingOf? legacyRowOf? (raw.lookup (key "by_legacy_id")) with
  | true, some (.int 1), some byQuestionId, some byLegacyId =>
      Document.make byQuestionId byLegacyId
  | _, _, _, _ => .error .validationError

/-- `except QuestionProvenanceError: raise` and then every `ValueError` and `RecursionError`. -/
def malformedJson : Raised → Raised
  | .codec error => .codec error
  | _ => .codec ⟨.jsonMalformed, "question provenance input must be valid JSON"⟩

def invalidUtf8 : Raised → Raised
  | .unicodeDecodeError =>
      .codec ⟨.invalidUtf8, "question provenance input must be valid UTF-8"⟩
  | e => e

def invalidSchema : Raised → Raised
  | .validationError =>
      .codec ⟨.schemaInvalid, "question provenance document violates schema 1"⟩
  | e => e

/-- An integer `schema_version` other than 1. -/
def hasOtherVersion (raw : List (Str × Value)) : Bool :=
  match raw.lookup (key "schema_version") with
  | some (.int version) => version != 1
  | _ => false

/-- The final comparison with the canonical bytes. -/
def requireCanonical (data : List UInt8) (d : Document) : Except Raised Document := do
  let canonical ← serializeQuestionProvenance d
  if canonical = data then return d
  else .error (.codec
    ⟨.noncanonical, "question provenance input is not canonical schema-1 JSON"⟩)

/-- The object at the root, once read. -/
def parseRoot (data : List UInt8) : Value → Except Raised Document
  | .object raw =>
      if hasOtherVersion raw then
        .error (.codec
          ⟨.versionUnsupported, "question provenance schema version is unsupported"⟩)
      else do
        let d ← (modelValidate raw).mapError invalidSchema
        requireCanonical data d
  | _ => .error (.codec ⟨.jsonMalformed, "question provenance root must be an object"⟩)

/-- `parse_question_provenance`. -/
def parseQuestionProvenance (limits : JsonLimits) (data : List UInt8) :
    Except Raised Document := do
  let text ← (decodeUtf8 data).mapError invalidUtf8
  let raw ← ((jsonReader limits).read (ofText text)).mapError malformedJson
  parseRoot data raw

/-! ## What is written -/

/-- The rows of a map as they are written. -/
def sortedRows {R : Type} (rows : List (Text × R)) : List (Text × R) :=
  rows.insertionSort fun a b => keyLe (ofText a.1) (ofText b.1) = true

theorem sortedRows_perm {R : Type} (rows : List (Text × R)) : (sortedRows rows).Perm rows :=
  List.perm_insertionSort _ rows

theorem sortedRows_sortedRows {R : Type} (rows : List (Text × R)) :
    sortedRows (sortedRows rows) = sortedRows rows :=
  (List.pairwise_insertionSort (fun a b : Text × R => keyLe (ofText a.1) (ofText b.1) = true)
    rows).insertionSort_eq

theorem sortMembers_map {R : Type} {row : Text × R → Str × Value}
    (hrow : ∀ r, (row r).1 = ofText r.1) (rows : List (Text × R)) :
    sortMembers (rows.map row) = (sortedRows rows).map row := by
  symm
  apply List.map_insertionSort
  intro a _ b _
  rw [hrow, hrow]

/-- The members of a legacy record in order. -/
def legacyMembers (legacy : LegacyRecord) : List (Str × Value) :=
  [(key "actor_id", .string (ofText legacy.actorId)),
    (key "created_at", .string (ofText legacy.createdAt)),
    (key "current_question_id", currentIdValue legacy.currentQuestionId),
    (key "event_id", .string (ofText legacy.eventId))]

def sortedLegacyRow (row : Text × LegacyRecord) : Str × Value :=
  (ofText row.1, .object (legacyMembers row.2))

theorem sortKeys_currentIdValue (id : Option Text) :
    sortKeys (currentIdValue id) = currentIdValue id := by
  cases id <;> simp [currentIdValue, sortKeys]

theorem sortKeys_questionRow (row : Text × Record) :
    sortKeys (questionRow row).2 = .object (recordMembers row.2) := by
  simp only [questionRow, recordMembers, sortKeys, sortValues]
  rfl

theorem sortKeys_legacyRow (row : Text × LegacyRecord) :
    sortKeys (legacyRow row).2 = .object (legacyMembers row.2) := by
  simp only [legacyRow, recordMembers, List.cons_append, List.nil_append, sortKeys, sortValues,
    sortKeys_currentIdValue]
  rfl

theorem sortValues_map {R : Type} (row sorted : Text × R → Str × Value)
    (hrow : ∀ r, (sorted r).1 = (row r).1) (hvalue : ∀ r, sortKeys (row r).2 = (sorted r).2)
    (rows : List (Text × R)) : sortValues (rows.map row) = rows.map sorted := by
  induction rows with
  | nil => rfl
  | cons r rows ih =>
      have hpair : row r = ((row r).1, (row r).2) := rfl
      rw [List.map_cons, hpair, sortValues, ih, hvalue, ← hrow]
      rfl

/-- The document as it is printed. -/
theorem sortKeys_documentValue (d : Document) :
    sortKeys (documentValue d) =
      .object
        [(key "by_legacy_id", .object ((sortedRows d.byLegacyId.entries).map sortedLegacyRow)),
          (key "by_question_id", .object ((sortedRows d.byQuestionId.entries).map questionRow)),
          (key "schema_version", .int 1)] := by
  have hquestions : sortKeys (.object (d.byQuestionId.entries.map questionRow)) =
      .object ((sortedRows d.byQuestionId.entries).map questionRow) := by
    rw [sortKeys, sortValues_map questionRow questionRow (fun _ => rfl) sortKeys_questionRow,
      sortMembers_map fun _ => rfl]
  have hlegacies : sortKeys (.object (d.byLegacyId.entries.map legacyRow)) =
      .object ((sortedRows d.byLegacyId.entries).map sortedLegacyRow) := by
    rw [sortKeys, sortValues_map legacyRow sortedLegacyRow (fun _ => rfl) sortKeys_legacyRow,
      sortMembers_map fun _ => rfl]
  rw [documentValue, sortKeys]
  simp only [sortValues, hquestions, hlegacies]
  rfl

/-! ## A written document is accepted JSON -/

theorem isPlain_currentIdValue (id : Option Text) : (currentIdValue id).IsPlain := by
  cases id with
  | none => trivial
  | some id => exact ⟨id, rfl⟩

theorem recordMembers_plain (record : Record) : membersPlain (recordMembers record) :=
  ⟨⟨_, rfl⟩, ⟨_, rfl⟩, ⟨_, rfl⟩, ⟨_, rfl⟩, ⟨_, rfl⟩, ⟨_, rfl⟩, trivial⟩

theorem legacyMembers_plain (legacy : LegacyRecord) : membersPlain (legacyMembers legacy) :=
  ⟨⟨_, rfl⟩, ⟨_, rfl⟩, ⟨_, rfl⟩, ⟨_, rfl⟩, ⟨_, rfl⟩, isPlain_currentIdValue _, ⟨_, rfl⟩, ⟨_, rfl⟩,
    trivial⟩

theorem membersPlain_map {R : Type} (row : Text × R → Str × Value)
    (hrow : ∀ r, (∃ text, (row r).1 = ofText text) ∧ (row r).2.IsPlain)
    (rows : List (Text × R)) : membersPlain (rows.map row) := by
  induction rows with
  | nil => trivial
  | cons r rows ih => exact ⟨(hrow r).1, (hrow r).2, ih⟩

/-- The text of a document has no surrogates. -/
theorem print_documentValue (d : Document) :
    ∃ text, print (sortKeys (documentValue d)) = ofText text := by
  apply print_isText
  rw [sortKeys_documentValue]
  refine ⟨⟨_, rfl⟩, ?_, ⟨_, rfl⟩, ?_, ⟨_, rfl⟩, trivial, trivial⟩
  · exact membersPlain_map sortedLegacyRow (fun r => ⟨⟨_, rfl⟩, legacyMembers_plain r.2⟩) _
  · exact membersPlain_map questionRow (fun r => ⟨⟨_, rfl⟩, recordMembers_plain r.2⟩) _

/-- Serializing a document does not fail. -/
theorem serialize_ok (d : Document) : ∃ text, print (sortKeys (documentValue d)) = ofText text ∧
    serializeQuestionProvenance d = .ok (utf8 (text ++ ['\n'])) := by
  obtain ⟨text, hprint⟩ := print_documentValue d
  refine ⟨text, hprint, ?_⟩
  rw [serializeQuestionProvenance, hprint, encodeUtf8, toText?_ofText, utf8_append]
  rfl

theorem acceptsMembers_map {limits : JsonLimits} {depth : Nat} {R : Type}
    {row : Text × R → Str × Value}
    (hrow : ∀ r, (jsonReader limits).Accepts depth (row r).2) (rows : List (Text × R)) :
    (jsonReader limits).AcceptsMembers depth (rows.map row) := by
  induction rows with
  | nil => exact Reader.AcceptsMembers.eq_def _ _ _ ▸ trivial
  | cons r rows ih =>
      rw [List.map_cons]
      exact ⟨hrow r, ih⟩

theorem rejectDuplicateKeys_map {R : Type} {row : Text × R → Str × Value}
    (hrow : ∀ r, (row r).1 = ofText r.1) {rows : List (Text × R)}
    (hdistinct : (rows.map Prod.fst).Nodup) : rejectDuplicateKeys (rows.map row) = .ok () := by
  have hkeys : (rows.map row).map Prod.fst = (rows.map Prod.fst).map ofText := by
    rw [List.map_map, List.map_map]
    exact List.map_congr_left fun r _ => hrow r
  rw [rejectDuplicateKeys, if_pos]
  rw [hkeys]
  exact hdistinct.map ofText_injective

theorem nodup_sortedRows {R : Type} {rows : List (Text × R)}
    (hdistinct : (rows.map Prod.fst).Nodup) : ((sortedRows rows).map Prod.fst).Nodup :=
  ((sortedRows_perm rows).map Prod.fst).nodup_iff.mpr hdistinct

theorem accepts_currentIdValue {limits : JsonLimits} {depth : Nat} (id : Option Text) :
    (jsonReader limits).Accepts depth (currentIdValue id) := by
  cases id <;> cases depth <;> trivial

theorem accepts_string {limits : JsonLimits} {depth : Nat} (s : Str) :
    (jsonReader limits).Accepts depth (.string s) := by
  cases depth <;> trivial

/-- The reader accepts a written document. -/
theorem accepts_documentValue {limits : JsonLimits} (hnesting : 3 ≤ limits.nesting)
    (hdigits : 1 ≤ limits.intDigits) (d : Document) :
    (jsonReader limits).Accepts limits.nesting (sortKeys (documentValue d)) := by
  obtain ⟨depth, hdepth⟩ := Nat.exists_eq_add_of_le' hnesting
  have hrecord : ∀ record, (jsonReader limits).Accepts (depth + 1) (.object (recordMembers record)) :=
    fun record => ⟨rfl, accepts_string _, accepts_string _, accepts_string _, trivial⟩
  have hlegacy : ∀ legacy, (jsonReader limits).Accepts (depth + 1) (.object (legacyMembers legacy)) :=
    fun legacy => ⟨rfl, accepts_string _, accepts_string _, accepts_currentIdValue _,
      accepts_string _, trivial⟩
  have hone : (jsonReader limits).Accepts (depth + 2) (.int 1) := by
    change (Nat.toDigits 10 1).length ≤ limits.intDigits
    exact hdigits
  rw [hdepth, sortKeys_documentValue]
  refine ⟨rfl, ⟨?_, ?_⟩, ⟨?_, ?_⟩, hone, trivial⟩
  · exact rejectDuplicateKeys_map (fun _ => rfl) (nodup_sortedRows d.byLegacyId.distinct)
  · exact acceptsMembers_map (fun r => hlegacy r.2) _
  · exact rejectDuplicateKeys_map (fun _ => rfl) (nodup_sortedRows d.byQuestionId.distinct)
  · exact acceptsMembers_map (fun r => hrecord r.2) _

/-! ## A written document validates -/

theorem recordOf?_of_members {members : List (Str × Value)} {record : Record}
    (hactor : textMember "actor_id" members = some record.actorId)
    (hcreated : textMember "created_at" members = some record.createdAt)
    (hevent : textMember "event_id" members = some record.eventId) :
    recordOf? members = some record := by
  rw [recordOf?, hactor, hcreated, hevent]
  simp [record.actorId_isUlid, record.createdAt_isUtc, record.eventId_isUlid]

theorem questionRowOf?_questionRow (row : Text × Record) :
    questionRowOf? (questionRow row) = some row := by
  have hrecord : recordOf? (recordMembers row.2) = some row.2 :=
    recordOf?_of_members (toText?_ofText row.2.actorId) (toText?_ofText row.2.createdAt)
      (toText?_ofText row.2.eventId)
  have honly : onlyKeys ["actor_id", "created_at", "event_id"] (recordMembers row.2) = true := rfl
  simp [questionRowOf?, questionRow, toText?_ofText, honly, hrecord]

theorem legacyRowOf?_sortedLegacyRow (row : Text × LegacyRecord) :
    legacyRowOf? (sortedLegacyRow row) = some row := by
  obtain ⟨id, legacy⟩ := row
  have hrecord : recordOf? (legacyMembers legacy) = some legacy.toRecord :=
    recordOf?_of_members (toText?_ofText legacy.actorId) (toText?_ofText legacy.createdAt)
      (toText?_ofText legacy.eventId)
  have hcurrent : currentIdOf? (legacyMembers legacy) = some legacy.currentQuestionId := by
    have hmember : (legacyMembers legacy).lookup (key "current_question_id") =
        some (currentIdValue legacy.currentQuestionId) := rfl
    rw [currentIdOf?, hmember]
    cases legacy.currentQuestionId with
    | none => rfl
    | some current => simp [currentIdValue, toText?_ofText]
  have honly : onlyKeys ["actor_id", "created_at", "event_id", "current_question_id"]
      (legacyMembers legacy) = true := rfl
  simp [legacyRowOf?, sortedLegacyRow, toText?_ofText, honly, hrecord, hcurrent,
    legacy.currentId_isCanonical]

theorem mapM_map_of_inverse {A B : Type} (f : A → B) (g : B → Option A)
    (hinverse : ∀ a, g (f a) = some a) (xs : List A) : (xs.map f).mapM g = some xs := by
  induction xs with
  | nil => rfl
  | cons a xs ih =>
      rw [List.map_cons, List.mapM_cons, hinverse, ih]
      rfl

/-- Documents with the same records under the same keys. -/
structure Document.Same (d d' : Document) : Prop where
  byQuestionId : ∀ id, d.byQuestionId.get? id = d'.byQuestionId.get? id
  byLegacyId : ∀ id, d.byLegacyId.get? id = d'.byLegacyId.get? id

/-- The table of the rows that are written. -/
def sortedTable {R : Type} (t : Table Text R) : Table Text R :=
  Table.ofPairs (sortedRows t.entries)

theorem entries_sortedTable {R : Type} (t : Table Text R) :
    (sortedTable t).entries = sortedRows t.entries :=
  Table.entries_ofPairs (nodup_sortedRows t.distinct)

theorem get?_sortedTable {R : Type} (t : Table Text R) (id : Text) :
    (sortedTable t).get? id = t.get? id := by
  apply Table.get?_eq_of_perm
  rw [entries_sortedTable]
  exact sortedRows_perm t.entries

theorem mem_keys_sortedTable {R : Type} (t : Table Text R) (id : Text) :
    id ∈ (sortedTable t).keys ↔ id ∈ t.keys := by
  rw [Table.mem_keys_iff, Table.mem_keys_iff, get?_sortedTable]

theorem validMaps_sortedTable (d : Document) :
    validMaps (sortedTable d.byQuestionId) (sortedTable d.byLegacyId) = true := by
  have hvalid := validMaps_iff.mp d.valid
  rw [validMaps_iff]
  simp only [mem_keys_sortedTable, get?_sortedTable]
  exact hvalid

/-- The document as it is read back: its rows in the order of their keys. -/
def Document.sorted (d : Document) : Document :=
  ⟨sortedTable d.byQuestionId, sortedTable d.byLegacyId, validMaps_sortedTable d⟩

theorem same_sorted (d : Document) : d.sorted.Same d :=
  ⟨get?_sortedTable d.byQuestionId, get?_sortedTable d.byLegacyId⟩

/-- Reading back changes nothing that is written. -/
theorem sortKeys_documentValue_sorted (d : Document) :
    sortKeys (documentValue d.sorted) = sortKeys (documentValue d) := by
  rw [sortKeys_documentValue, sortKeys_documentValue]
  simp only [Document.sorted, entries_sortedTable, sortedRows_sortedRows]

theorem parseRoot_documentValue (d : Document) (data : List UInt8) :
    parseRoot data (sortKeys (documentValue d)) = requireCanonical data d.sorted := by
  have hquestions : mappingOf? questionRowOf?
      (some (.object ((sortedRows d.byQuestionId.entries).map questionRow))) =
        some (sortedTable d.byQuestionId) := by
    rw [mappingOf?, mapM_map_of_inverse _ _ questionRowOf?_questionRow]
    rfl
  have hlegacies : mappingOf? legacyRowOf?
      (some (.object ((sortedRows d.byLegacyId.entries).map sortedLegacyRow))) =
        some (sortedTable d.byLegacyId) := by
    rw [mappingOf?, mapM_map_of_inverse _ _ legacyRowOf?_sortedLegacyRow]
    rfl
  have hvalidate : modelValidate
      [(key "by_legacy_id", .object ((sortedRows d.byLegacyId.entries).map sortedLegacyRow)),
        (key "by_question_id", .object ((sortedRows d.byQuestionId.entries).map questionRow)),
        (key "schema_version", .int 1)] = .ok d.sorted := by
    rw [Document.sorted, ← make_of_valid (validMaps_sortedTable d)]
    unfold modelValidate
    have hversion : ∀ legacies questions : Value,
        [(key "by_legacy_id", legacies), (key "by_question_id", questions),
          (key "schema_version", Value.int 1)].lookup (key "schema_version") =
            some (Value.int 1) := fun _ _ => rfl
    have hquestion : ∀ legacies questions : Value,
        [(key "by_legacy_id", legacies), (key "by_question_id", questions),
          (key "schema_version", Value.int 1)].lookup (key "by_question_id") =
            some questions := fun _ _ => rfl
    have hlegacy : ∀ legacies questions : Value,
        [(key "by_legacy_id", legacies), (key "by_question_id", questions),
          (key "schema_version", Value.int 1)].lookup (key "by_legacy_id") =
            some legacies := fun _ _ => rfl
    have honly : ∀ legacies questions : Value,
        onlyKeys ["schema_version", "by_question_id", "by_legacy_id"]
          [(key "by_legacy_id", legacies), (key "by_question_id", questions),
            (key "schema_version", Value.int 1)] = true := fun _ _ => rfl
    rw [hversion, hquestion, hlegacy, honly, hquestions, hlegacies]
    rfl
  have hother : ∀ legacies questions : Value,
      hasOtherVersion [(key "by_legacy_id", legacies), (key "by_question_id", questions),
        (key "schema_version", Value.int 1)] = false := fun _ _ => rfl
  rw [sortKeys_documentValue, parseRoot, hother, hvalidate]
  rfl

/-! ## The codec -/

theorem decodeUtf8_utf8 (text : Text) : decodeUtf8 (utf8 text) = .ok text := by
  have hmap : (text.map Point.scalar).mapM Point.char? = some text :=
    mapM_map_of_inverse Point.scalar Point.char? (fun _ => rfl) text
  rw [decodeUtf8, decode_utf8, hmap]

/-- A serialized document parses to an equal one. -/
theorem parse_serialize {limits : JsonLimits} (hnesting : 3 ≤ limits.nesting)
    (hdigits : 1 ≤ limits.intDigits) {d : Document} {data : List UInt8}
    (h : serializeQuestionProvenance d = .ok data) :
    parseQuestionProvenance limits data = .ok d.sorted := by
  obtain ⟨text, hprint, hserialize⟩ := serialize_ok d
  rw [hserialize] at h
  cases h
  have hread : (jsonReader limits).read (ofText (text ++ ['\n'])) =
      .ok (sortKeys (documentValue d)) := by
    rw [ofText_append, ← hprint]
    refine read_print (accepts_documentValue hnesting hdigits d) rfl ?_
    intro p hp
    cases hp
    decide
  have hcanonical : requireCanonical (utf8 (text ++ ['\n'])) d.sorted = .ok d.sorted := by
    have hsame : serializeQuestionProvenance d.sorted = .ok (utf8 (text ++ ['\n'])) := by
      rw [← hserialize, serializeQuestionProvenance, serializeQuestionProvenance,
        sortKeys_documentValue_sorted]
    rw [requireCanonical, hsame]
    exact if_pos rfl
  rw [parseQuestionProvenance, decodeUtf8_utf8]
  change (((jsonReader limits).read (ofText (text ++ ['\n']))).mapError malformedJson >>=
    parseRoot (utf8 (text ++ ['\n']))) = .ok d.sorted
  rw [hread]
  exact (parseRoot_documentValue d _).trans hcanonical

theorem requireCanonical_eq {data : List UInt8} {d : Document} {result : Except Raised Document}
    (h : requireCanonical data d = result) :
    result = .ok d ∧ serializeQuestionProvenance d = .ok data ∨
      ∃ error, result = .error (.codec error) := by
  obtain ⟨text, -, hserialize⟩ := serialize_ok d
  rw [requireCanonical, hserialize] at h
  change (if utf8 (text ++ ['\n']) = data then pure d else _) = result at h
  split at h
  · next hsame =>
      refine Or.inl ⟨h.symm, ?_⟩
      rw [hserialize, hsame]
  · exact Or.inr ⟨_, h.symm⟩

theorem modelValidate_error {raw : List (Str × Value)} {e : Raised}
    (h : modelValidate raw = .error e) : e = .validationError := by
  unfold modelValidate Document.make at h
  split at h
  · split at h
    · cases h
    · cases h
      rfl
  · cases h
    rfl

/-- What the parser does: it returns a document that is written as the input, or raises an
error of the module. -/
theorem parse_result (limits : JsonLimits) (data : List UInt8) :
    (∃ d, parseQuestionProvenance limits data = .ok d ∧
        serializeQuestionProvenance d = .ok data) ∨
      ∃ error, parseQuestionProvenance limits data = .error (.codec error) := by
  unfold parseQuestionProvenance
  cases htext : decodeUtf8 data with
  | error e =>
      right
      unfold decodeUtf8 at htext
      split at htext
      · cases htext
      · cases htext
        exact ⟨_, rfl⟩
  | ok text =>
      change (∃ d, ((jsonReader limits).read (ofText text)).mapError malformedJson >>=
        parseRoot data = .ok d ∧ _) ∨ ∃ error, ((jsonReader limits).read (ofText text)).mapError
          malformedJson >>= parseRoot data = .error (.codec error)
      cases (jsonReader limits).read (ofText text) with
      | error e =>
          right
          cases e <;> exact ⟨_, rfl⟩
      | ok raw =>
          change (∃ d, parseRoot data raw = .ok d ∧ _) ∨
            ∃ error, parseRoot data raw = .error (.codec error)
          unfold parseRoot
          split
          · next raw =>
              split
              · exact Or.inr ⟨_, rfl⟩
              · cases hvalid : modelValidate raw with
                | error e =>
                    right
                    rw [modelValidate_error hvalid]
                    exact ⟨_, rfl⟩
                | ok d =>
                    rcases requireCanonical_eq (rfl : requireCanonical data d = _) with
                      ⟨hok, hdata⟩ | ⟨error, herror⟩
                    · exact Or.inl ⟨d, hok, hdata⟩
                    · exact Or.inr ⟨error, herror⟩
          · exact Or.inr ⟨_, rfl⟩

/-- The parser accepts exactly what the serializer writes: a serialized document parses to an
equal document, accepted bytes are those of the parsed document, and every other byte string is
refused with an error of the module. The interpreter has to allow three levels of nesting and
integers of one digit. -/
theorem question_provenance_codec_exact (limits : JsonLimits) (hnesting : 3 ≤ limits.nesting)
    (hdigits : 1 ≤ limits.intDigits) :
    (∀ d, ∃ data d', serializeQuestionProvenance d = .ok data ∧
      parseQuestionProvenance limits data = .ok d' ∧ d'.Same d) ∧
    (∀ data d, parseQuestionProvenance limits data = .ok d →
      serializeQuestionProvenance d = .ok data) ∧
    (∀ data, (∀ d, serializeQuestionProvenance d ≠ .ok data) →
      ∃ error, parseQuestionProvenance limits data = .error (.codec error)) := by
  refine ⟨?_, ?_, ?_⟩
  · intro d
    obtain ⟨text, -, hserialize⟩ := serialize_ok d
    exact ⟨_, d.sorted, hserialize, parse_serialize hnesting hdigits hserialize, same_sorted d⟩
  · intro data d hparse
    rcases parse_result limits data with ⟨d', hok, hdata⟩ | ⟨error, herror⟩
    · rw [hparse] at hok
      cases hok
      exact hdata
    · rw [hparse] at herror
      cases herror
  · intro data hnone
    rcases parse_result limits data with ⟨d, -, hdata⟩ | herror
    · exact absurd hdata (hnone d)
    · exact herror

/-- CPython's limits. -/
theorem question_provenance_codec_exact_cpython :
    (∀ d, ∃ data d', serializeQuestionProvenance d = .ok data ∧
      parseQuestionProvenance ⟨1000, 4300⟩ data = .ok d' ∧ d'.Same d) ∧
    (∀ data d, parseQuestionProvenance ⟨1000, 4300⟩ data = .ok d →
      serializeQuestionProvenance d = .ok data) ∧
    (∀ data, (∀ d, serializeQuestionProvenance d ≠ .ok data) →
      ∃ error, parseQuestionProvenance ⟨1000, 4300⟩ data = .error (.codec error)) :=
  question_provenance_codec_exact ⟨1000, 4300⟩ (by decide) (by decide)

end QuestionProvenance
end Core
end Nauro
