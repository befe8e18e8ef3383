import Nauro.Core.QuestionProvenanceCodec
import Nauro.Foundation.JsonAscii
import Nauro.Foundation.RecordLog

/-!
# The write-path journal

One file holds one event a line, as JSON in ASCII. An append ends the line that a crash left open
before it writes its own; a reader skips the lines that are no events. A crash leaves any number of
the bytes of an append.

* `readEvents_append`, `readEvents_run` — what appends add for a reader.
-/

namespace Nauro
namespace Client
namespace Journal

open Foundation Foundation.Json Foundation.EscapedUtf8
open Nauro.Core
open Nauro.Core.QuestionProvenance (JsonLimits decodeUtf8)

abbrev Bytes := List UInt8

/-! ## Events -/

def maxOriginFieldLen : Nat :=
  256

/-- `_sanitize_client_string`. -/
def sanitizeClientString (value : Text) : Text :=
  (value.filter fun c => 32 ≤ c.toNat && c.toNat != 127).take maxOriginFieldLen

theorem sanitizeClientString_idem (value : Text) :
    sanitizeClientString (sanitizeClientString value) = sanitizeClientString value := by
  unfold sanitizeClientString
  rw [List.filter_eq_self.mpr, List.take_take, Nat.min_self]
  intro c hc
  exact (List.mem_filter.mp (List.mem_of_mem_take hc)).2

/-- A string as the validators of an origin leave it. -/
structure ClientString where
  value : Text
  sanitized : sanitizeClientString value = value
deriving DecidableEq

def ClientString.of (value : Text) : ClientString :=
  ⟨sanitizeClientString value, sanitizeClientString_idem value⟩

theorem ClientString.of_value (s : ClientString) : .of s.value = s := by
  obtain ⟨value, hvalue⟩ := s
  simp only [ClientString.of, hvalue]

inductive Transport where
  | cli
  | stdioMcp
  | hostedMcp
deriving DecidableEq

def Transport.name : Transport → String
  | .cli => "cli"
  | .stdioMcp => "stdio-mcp"
  | .hostedMcp => "hosted-mcp"

structure OriginDescriptor where
  transport : Transport
  clientName : Option ClientString := none
  clientVersion : Option ClientString := none
  actor : Option ClientString := none
deriving DecidableEq

inductive Status where
  | committed
  | rejected
deriving DecidableEq

def Status.name : Status → String
  | .committed => "committed"
  | .rejected => "rejected"

structure JournalEvent where
  eventVersion : Int := 1
  eventId : Text
  timestamp : Text
  eventType : Text := "write".toList
  operation : Text
  target : Text
  status : Status
  decisionId : Option Text := none
  origin : Option OriginDescriptor := none
  payloadHash : Text
  hashAlgorithm : Text := "sha256".toList
  serialization : Text := "json-sorted-compact-utf8".toList
deriving DecidableEq

def key (name : String) : Str :=
  ofText name.toList

def text (value : Text) : Value :=
  .string (ofText value)

/-- A field that is left out when it is `None`. -/
def optional {α : Type} (name : String) (dump : α → Value) (field : Option α) :
    List (Str × Value) :=
  (field.map fun value => (key name, dump value)).toList

def dumpOrigin (origin : OriginDescriptor) : Value :=
  .object
    ((key "transport", text origin.transport.name.toList) ::
      (optional "client_name" (fun s => text s.value) origin.clientName ++
        optional "client_version" (fun s => text s.value) origin.clientVersion ++
        optional "actor" (fun s => text s.value) origin.actor))

def eventMembers (event : JournalEvent) : List (Str × Value) :=
  [(key "event_version", .int event.eventVersion),
    (key "event_id", text event.eventId),
    (key "timestamp", text event.timestamp),
    (key "event_type", text event.eventType),
    (key "operation", text event.operation),
    (key "target", text event.target),
    (key "status", text event.status.name.toList)] ++
    optional "decision_id" text event.decisionId ++
    optional "origin" dumpOrigin event.origin ++
    [(key "payload_hash", text event.payloadHash),
      (key "hash_algorithm", text event.hashAlgorithm),
      (key "serialization", text event.serialization)]

/-- `event.model_dump(mode="json", exclude_none=True)`. -/
def modelDump (event : JournalEvent) : Value :=
  .object (eventMembers event)

/-! ## Appending -/

/-- `json.dumps(…, ensure_ascii=True)`; none when the version has too many digits to be spelled. -/
def recordBytes? (limits : JsonLimits) (event : JournalEvent) : Option Bytes :=
  if (Nat.toDigits 10 event.eventVersion.natAbs).length ≤ limits.intDigits then
    some (utf8 (dumps (modelDump event)))
  else none

/-- The journal after an append of which `cut` bytes reach the file. -/
def appendEvent (limits : JsonLimits) (journal : Option Bytes) (event : JournalEvent) (cut : Nat) :
    Option Bytes :=
  match recordBytes? limits event with
  | none => journal
  | some record => some (RecordLog.append newlineByte (journal.getD []) record cut)

/-- Appends one after the other, each with the number of its bytes that reach the file. -/
def runAppends (limits : JsonLimits) (journal : Option Bytes) :
    List (JournalEvent × Nat) → Option Bytes
  | [] => journal
  | (event, cut) :: more => runAppends limits (appendEvent limits journal event cut) more

/-- Whether all the bytes of a record reach the file. -/
def isComplete (limits : JsonLimits) (journal : Option Bytes) (event : JournalEvent) (cut : Nat) :
    Bool :=
  (recordBytes? limits event).any fun record =>
    decide ((RecordLog.closing newlineByte (journal.getD [])).length + record.length ≤ cut)

/-- The events whose records were written completely, in order. -/
def completed (limits : JsonLimits) (journal : Option Bytes) :
    List (JournalEvent × Nat) → List JournalEvent
  | [] => []
  | (event, cut) :: more =>
      (if isComplete limits journal event cut then [event] else []) ++
        completed limits (appendEvent limits journal event cut) more

/-! ## Reading -/

/-- Whether `bytes.strip()` leaves nothing. -/
def isBlank (chunk : Bytes) : Bool :=
  chunk.all fun b => b == 0x20 || (0x09 ≤ b && b ≤ 0x0D)

/-- The exceptions of decoding a line and reading it as JSON. -/
inductive LoadsError where
  | unicodeDecodeError
  | jsonDecodeError
  | recursionError
  /-- The `ValueError` of an integer literal past the digit limit. -/
  | intDigitLimit
deriving DecidableEq

/-- `json.loads`. -/
def jsonReader (limits : JsonLimits) : Reader LoadsError where
  malformed := .jsonDecodeError
  tooDeep := .recursionError
  tooLong := .intDigitLimit
  constant := .jsonDecodeError
  checkMembers _ := .ok ()
  nesting := limits.nesting
  intDigits := limits.intDigits
  constants := true

/-- `json.loads(chunk.decode("utf-8"))`. -/
def loads (limits : JsonLimits) (chunk : Bytes) : Except LoadsError Value :=
  match decodeUtf8 chunk with
  | .error _ => .error .unicodeDecodeError
  | .ok decoded => (jsonReader limits).read (ofText decoded)

/-- `JournalEvent.model_validate`, with a `ValidationError` as none. The last one of the members
with one key is the one that counts. -/
abbrev ModelValidate := Value → Option JournalEvent

/-- One line; a line that fails to decode, parse or validate is skipped. -/
def readLine (limits : JsonLimits) (modelValidate : ModelValidate) (chunk : Bytes) :
    Except LoadsError (Option JournalEvent) :=
  match loads limits chunk with
  | .ok v => .ok (modelValidate v)
  | .error .unicodeDecodeError => .ok none
  | .error .jsonDecodeError => .ok none
  | .error e => .error e

def readLines (limits : JsonLimits) (modelValidate : ModelValidate) :
    List Bytes → Except LoadsError (List JournalEvent)
  | [] => .ok []
  | chunk :: rest =>
      if isBlank chunk then readLines limits modelValidate rest
      else do
        let event ← readLine limits modelValidate chunk
        let events ← readLines limits modelValidate rest
        return event.toList ++ events

/-- `read_events`. -/
def readEvents (limits : JsonLimits) (modelValidate : ModelValidate) :
    Option Bytes → Except LoadsError (List JournalEvent)
  | none => .ok []
  | some bytes => readLines limits modelValidate (bytes.splitOn newlineByte)

/-! ## The bytes of a record -/

theorem utf8_cons (c : Char) (rest : List Char) :
    utf8 (c :: rest) = String.utf8EncodeChar c ++ utf8 rest :=
  rfl

/-- A character in ASCII is one byte. -/
theorem length_encodeChar {c : Char} (hc : c.toNat < 0x80) :
    (String.utf8EncodeChar c).length = 1 := by
  have hval : c.val ≤ 0x7F := by
    have hle : c.toNat ≤ 0x7F := by omega
    exact hle
  rw [String.length_utf8EncodeChar, Char.utf8Size_eq_one_iff.mpr hval]

/-- Bytes of a text in ASCII are cut between its characters. -/
theorem take_utf8 {chars : List Char} (hascii : ∀ c ∈ chars, c.toNat < 0x80) (k : Nat) :
    (utf8 chars).take k = utf8 (chars.take k) := by
  induction chars generalizing k with
  | nil => cases k <;> rfl
  | cons c rest ih =>
      obtain ⟨hc, hrest⟩ := List.forall_mem_cons.mp hascii
      cases k with
      | zero => rfl
      | succ k =>
          rw [List.take_succ_cons, utf8_cons, utf8_cons, List.take_append, length_encodeChar hc,
            Nat.add_sub_cancel, ih hrest, List.take_of_length_le]
          rw [length_encodeChar hc]
          omega

theorem length_utf8 {chars : List Char} (hascii : ∀ c ∈ chars, c.toNat < 0x80) :
    (utf8 chars).length = chars.length := by
  induction chars with
  | nil => rfl
  | cons c rest ih =>
      obtain ⟨hc, hrest⟩ := List.forall_mem_cons.mp hascii
      rw [utf8_cons, List.length_append, length_encodeChar hc, ih hrest, List.length_cons]
      omega

/-- The version of the event is not too long to be spelled. -/
def Fits (limits : JsonLimits) (event : JournalEvent) : Prop :=
  (Nat.toDigits 10 event.eventVersion.natAbs).length ≤ limits.intDigits

variable {limits : JsonLimits}

theorem membersPlain_append {front rest : List (Str × Value)} (hfront : membersPlain front)
    (hrest : membersPlain rest) : membersPlain (front ++ rest) := by
  induction front with
  | nil => exact hrest
  | cons member front ih => exact ⟨hfront.1, hfront.2.1, ih hfront.2.2⟩

theorem acceptsMembers_append {reader : Reader LoadsError} {depth : Nat}
    {front rest : List (Str × Value)} (hfront : reader.AcceptsMembers depth front)
    (hrest : reader.AcceptsMembers depth rest) : reader.AcceptsMembers depth (front ++ rest) := by
  induction front with
  | nil => exact hrest
  | cons member front ih => exact ⟨hfront.1, ih hfront.2⟩

theorem membersPlain_optional {α : Type} (name : String) {dump : α → Value}
    (hdump : ∀ a, (dump a).IsPlain) (field : Option α) :
    membersPlain (optional name dump field) := by
  cases field with
  | none => exact trivial
  | some a => exact ⟨⟨_, rfl⟩, hdump a, trivial⟩

theorem acceptsMembers_optional {reader : Reader LoadsError} {depth : Nat} {α : Type} (name : String)
    {dump : α → Value} (hdump : ∀ a, reader.Accepts depth (dump a)) (field : Option α) :
    reader.AcceptsMembers depth (optional name dump field) := by
  cases field with
  | none => exact trivial
  | some a => exact ⟨hdump a, trivial⟩

theorem isPlain_text (value : Text) : (text value).IsPlain :=
  ⟨value, rfl⟩

theorem accepts_text {reader : Reader LoadsError} {depth : Nat} (value : Text) :
    reader.Accepts depth (text value) := by
  cases depth <;> exact trivial

theorem isPlain_dumpOrigin (origin : OriginDescriptor) : (dumpOrigin origin).IsPlain :=
  ⟨⟨_, rfl⟩, isPlain_text _,
    membersPlain_append (membersPlain_append (membersPlain_optional _ (fun _ => isPlain_text _) _)
      (membersPlain_optional _ (fun _ => isPlain_text _) _))
        (membersPlain_optional _ (fun _ => isPlain_text _) _)⟩

theorem isPlain_modelDump (event : JournalEvent) : (modelDump event).IsPlain := by
  have hhead : membersPlain [(key "event_version", .int event.eventVersion),
      (key "event_id", text event.eventId), (key "timestamp", text event.timestamp),
      (key "event_type", text event.eventType), (key "operation", text event.operation),
      (key "target", text event.target), (key "status", text event.status.name.toList)] :=
    ⟨⟨_, rfl⟩, trivial, ⟨_, rfl⟩, isPlain_text _, ⟨_, rfl⟩, isPlain_text _, ⟨_, rfl⟩,
      isPlain_text _, ⟨_, rfl⟩, isPlain_text _, ⟨_, rfl⟩, isPlain_text _, ⟨_, rfl⟩,
      isPlain_text _, trivial⟩
  have htail : membersPlain [(key "payload_hash", text event.payloadHash),
      (key "hash_algorithm", text event.hashAlgorithm),
      (key "serialization", text event.serialization)] :=
    ⟨⟨_, rfl⟩, isPlain_text _, ⟨_, rfl⟩, isPlain_text _, ⟨_, rfl⟩, isPlain_text _, trivial⟩
  exact membersPlain_append (membersPlain_append (membersPlain_append hhead
    (membersPlain_optional _ isPlain_text _)) (membersPlain_optional _ isPlain_dumpOrigin _)) htail

theorem accepts_dumpOrigin {depth : Nat} (origin : OriginDescriptor) :
    (jsonReader limits).Accepts (depth + 1) (dumpOrigin origin) :=
  ⟨rfl, accepts_text _,
    acceptsMembers_append (acceptsMembers_append
      (acceptsMembers_optional _ (fun _ => accepts_text _) _)
        (acceptsMembers_optional _ (fun _ => accepts_text _) _))
          (acceptsMembers_optional _ (fun _ => accepts_text _) _)⟩

theorem accepts_modelDump {depth : Nat} {event : JournalEvent} (hfits : Fits limits event) :
    (jsonReader limits).Accepts (depth + 2) (modelDump event) := by
  have hhead : (jsonReader limits).AcceptsMembers (depth + 1)
      [(key "event_version", .int event.eventVersion),
        (key "event_id", text event.eventId), (key "timestamp", text event.timestamp),
        (key "event_type", text event.eventType), (key "operation", text event.operation),
        (key "target", text event.target), (key "status", text event.status.name.toList)] :=
    ⟨hfits, accepts_text _, accepts_text _, accepts_text _, accepts_text _, accepts_text _,
      accepts_text _, trivial⟩
  have htail : (jsonReader limits).AcceptsMembers (depth + 1)
      [(key "payload_hash", text event.payloadHash),
        (key "hash_algorithm", text event.hashAlgorithm),
        (key "serialization", text event.serialization)] :=
    ⟨accepts_text _, accepts_text _, accepts_text _, trivial⟩
  exact ⟨rfl, acceptsMembers_append (acceptsMembers_append (acceptsMembers_append hhead
    (acceptsMembers_optional _ accepts_text _)) (acceptsMembers_optional _ accepts_dumpOrigin _))
      htail⟩

/-! ## Lines -/

variable {modelValidate : ModelValidate}

theorem readLines_append (front rest : List Bytes) :
    readLines limits modelValidate (front ++ rest) =
      readLines limits modelValidate front >>= fun events =>
        (readLines limits modelValidate rest).map (events ++ ·) := by
  induction front with
  | nil =>
      rw [List.nil_append, readLines]
      cases readLines limits modelValidate rest with
      | error e => rfl
      | ok events => rfl
  | cons chunk front ih =>
      rw [List.cons_append, readLines, readLines]
      by_cases hblank : isBlank chunk = true
      · rw [if_pos hblank, if_pos hblank, ih]
      · rw [if_neg hblank, if_neg hblank, ih]
        cases readLine limits modelValidate chunk with
        | error e => rfl
        | ok event =>
            cases readLines limits modelValidate front with
            | error e => rfl
            | ok events =>
                cases readLines limits modelValidate rest with
                | error e => rfl
                | ok more =>
                    show Except.ok (event.toList ++ (events ++ more)) =
                      Except.ok ((event.toList ++ events) ++ more)
                    rw [List.append_assoc]

theorem readLines_filter (chunks : List Bytes) :
    readLines limits modelValidate (chunks.filter fun chunk => !isBlank chunk) =
      readLines limits modelValidate chunks := by
  induction chunks with
  | nil => rfl
  | cons chunk chunks ih =>
      by_cases hblank : isBlank chunk = true
      · rw [List.filter_cons_of_neg (by rw [hblank]; decide), ih, readLines, if_pos hblank]
      · rw [List.filter_cons_of_pos (by rw [Bool.not_eq_true _ |>.mp hblank]; decide), readLines,
          readLines, if_neg hblank, if_neg hblank, ih]

/-- The lines of a journal that are not blank. -/
def records (bytes : Bytes) : List Bytes :=
  RecordLog.records newlineByte isBlank bytes

theorem readEvents_eq (journal : Option Bytes) :
    readEvents limits modelValidate journal =
      readLines limits modelValidate (records (journal.getD [])) := by
  cases journal with
  | none => rfl
  | some bytes => exact (readLines_filter _).symm

/-! ## The line of one record -/

/-- The text of a record. -/
def recordText (event : JournalEvent) : List Char :=
  dumps (modelDump event)

theorem recordBytes?_of_fits {event : JournalEvent} (hfits : Fits limits event) :
    recordBytes? limits event = some (utf8 (recordText event)) :=
  if_pos hfits

theorem recordBytes?_of_not_fits {event : JournalEvent} (hfits : ¬ Fits limits event) :
    recordBytes? limits event = none :=
  if_neg hfits

theorem isPrintable_recordText {event : JournalEvent} (hfits : Fits limits event) :
    IsPrintable (recordText event) :=
  isPrintable_dumps (jsonReader limits) _ (0 + 2) (accepts_modelDump hfits)

theorem recordText_cons (event : JournalEvent) : ∃ tail, recordText event = '\x7b' :: tail :=
  ⟨_, rfl⟩

theorem newlineByte_notMem_recordText {event : JournalEvent} (hfits : Fits limits event) :
    newlineByte ∉ utf8 (recordText event) := by
  refine newlineByte_notMem_encode ?_
  rw [newline_mem_map_scalar]
  intro hmem
  exact absurd (isPrintable_recordText hfits _ hmem).1 (by decide)

theorem isBlank_brace (rest : Bytes) : isBlank (utf8 ['\x7b'] ++ rest) = false :=
  rfl

theorem readLine_of_loads {chunk : Bytes} {v : Value} (h : loads limits chunk = .ok v) :
    readLine limits modelValidate chunk = .ok (modelValidate v) := by
  rw [readLine, h]

theorem loads_utf8 (chars : List Char) :
    loads limits (utf8 chars) = (jsonReader limits).read (ofText chars) := by
  rw [loads, QuestionProvenance.decodeUtf8_utf8]

/-- A whole record is read as its event. -/
theorem readLine_record (hnesting : 2 ≤ limits.nesting)
    (hvalidate : ∀ event, modelValidate (modelDump event) = some event) {event : JournalEvent}
    (hfits : Fits limits event) :
    readLine limits modelValidate (utf8 (recordText event)) = .ok (some event) := by
  obtain ⟨depth, hdepth⟩ := Nat.exists_eq_add_of_le' hnesting
  have haccepts : (jsonReader limits).Accepts (jsonReader limits).nesting (modelDump event) := by
    show (jsonReader limits).Accepts limits.nesting (modelDump event)
    rw [hdepth]
    exact accepts_modelDump hfits
  have hread := read_dumps (isPlain_modelDump event) haccepts
  exact (readLine_of_loads ((loads_utf8 _).trans hread)).trans (congrArg Except.ok (hvalidate event))

/-- A record that was cut off is skipped. -/
theorem readLine_front (hnesting : 2 ≤ limits.nesting) {event : JournalEvent}
    (hfits : Fits limits event) {front more : List Char} (hsplit : recordText event = front ++ more)
    (hfront : front ≠ []) (hmore : more ≠ []) :
    readLine limits modelValidate (utf8 front) = .ok none := by
  obtain ⟨depth, hdepth⟩ := Nat.exists_eq_add_of_le' hnesting
  have haccepts : (jsonReader limits).Accepts (jsonReader limits).nesting (modelDump event) := by
    show (jsonReader limits).Accepts limits.nesting (modelDump event)
    rw [hdepth]
    exact accepts_modelDump hfits
  have hread := read_front_dumps (fun _ => rfl) (isPlain_modelDump event) haccepts hsplit hfront hmore
  rw [readLine, loads_utf8, hread, jsonReader]

/-- What a reader makes of the bytes of a record that reached the file. -/
theorem readLines_written (hnesting : 2 ≤ limits.nesting)
    (hvalidate : ∀ event, modelValidate (modelDump event) = some event) {event : JournalEvent}
    (hfits : Fits limits event) (n : Nat) :
    readLines limits modelValidate (records ((utf8 (recordText event)).take n)) =
      .ok (if (utf8 (recordText event)).length ≤ n then [event] else []) := by
  have hprintable := isPrintable_recordText hfits
  have hascii : ∀ c ∈ recordText event, c.toNat < 0x80 := fun c hc =>
    (hprintable c hc).2.trans (by decide)
  obtain ⟨tail, htail⟩ := recordText_cons event
  have hsep : newlineByte ∉ (utf8 (recordText event)).take n := fun hmem =>
    newlineByte_notMem_recordText hfits (List.mem_of_mem_take hmem)
  rw [records, RecordLog.records_line hsep]
  cases n with
  | zero =>
      have hpos : ¬ (utf8 (recordText event)).length ≤ 0 := by
        rw [length_utf8 hascii, htail, List.length_cons]
        omega
      rw [if_neg hpos]
      rfl
  | succ n =>
      have hblank : isBlank ((utf8 (recordText event)).take (n + 1)) = false := by
        rw [take_utf8 hascii, htail, List.take_succ_cons, utf8_cons]
        exact isBlank_brace _
      rw [hblank, if_neg Bool.false_ne_true, readLines, if_neg (by rw [hblank]; decide), readLines]
      by_cases hall : (utf8 (recordText event)).length ≤ n + 1
      · rw [List.take_of_length_le hall, readLine_record hnesting hvalidate hfits, if_pos hall]
        rfl
      · rw [length_utf8 hascii] at hall
        have hline : readLine limits modelValidate (utf8 ((recordText event).take (n + 1))) =
            .ok none := by
          refine readLine_front hnesting hfits
            (List.take_append_drop (n + 1) (recordText event)).symm ?_ ?_
          · rw [htail, List.take_succ_cons]
            exact List.cons_ne_nil _ _
          · rw [Ne, List.drop_eq_nil_iff]
            exact hall
        rw [take_utf8 hascii, hline, length_utf8 hascii, if_neg hall]
        rfl

/-! ## Appends -/

theorem isComplete_of_fits {journal : Option Bytes} {event : JournalEvent}
    (hfits : Fits limits event) (cut : Nat) :
    isComplete limits journal event cut = true ↔
      (utf8 (recordText event)).length ≤
        cut - (RecordLog.closing newlineByte (journal.getD [])).length := by
  have hascii : ∀ c ∈ recordText event, c.toNat < 0x80 := fun c hc =>
    (isPrintable_recordText hfits c hc).2.trans (by decide)
  have hpos : 0 < (utf8 (recordText event)).length := by
    obtain ⟨tail, htail⟩ := recordText_cons event
    rw [length_utf8 hascii, htail, List.length_cons]
    omega
  rw [isComplete, recordBytes?_of_fits hfits, Option.any_some, decide_eq_true_iff]
  omega

/-- An append adds its event for a reader when its record is complete, and nothing otherwise. -/
theorem readEvents_append (hnesting : 2 ≤ limits.nesting)
    (hvalidate : ∀ event, modelValidate (modelDump event) = some event) (journal : Option Bytes)
    (event : JournalEvent) (cut : Nat) :
    readEvents limits modelValidate (appendEvent limits journal event cut) =
      (readEvents limits modelValidate journal).map
        (· ++ if isComplete limits journal event cut then [event] else []) := by
  by_cases hfits : Fits limits event
  · have hblank : isBlank [] = true := rfl
    have hrecords := RecordLog.records_append hblank (journal.getD [])
      (newlineByte_notMem_recordText hfits) cut
    rw [appendEvent, recordBytes?_of_fits hfits, readEvents_eq, readEvents_eq]
    show readLines limits modelValidate (RecordLog.records newlineByte isBlank
      (RecordLog.append newlineByte (journal.getD []) (utf8 (recordText event)) cut)) = _
    have hline := readLines_written hnesting hvalidate hfits
      (cut - (RecordLog.closing newlineByte (journal.getD [])).length)
    rw [hrecords, readLines_append]
    show (readLines limits modelValidate (records (journal.getD [])) >>= fun events =>
      (readLines limits modelValidate (records ((utf8 (recordText event)).take _))).map
        (events ++ ·)) = _
    rw [hline]
    simp only [← isComplete_of_fits hfits cut]
    cases readLines limits modelValidate (records (journal.getD [])) with
    | error e => rfl
    | ok events => rfl
  · have hincomplete : isComplete limits journal event cut = false := by
      rw [isComplete, recordBytes?_of_not_fits hfits]
      rfl
    rw [appendEvent, recordBytes?_of_not_fits hfits, hincomplete]
    cases readEvents limits modelValidate journal with
    | error e => rfl
    | ok events => exact congrArg Except.ok (List.append_nil events).symm

/-- Appends add the completed events for a reader, in their order. -/
theorem readEvents_run (hnesting : 2 ≤ limits.nesting)
    (hvalidate : ∀ event, modelValidate (modelDump event) = some event) :
    ∀ (appends : List (JournalEvent × Nat)) (journal : Option Bytes),
      readEvents limits modelValidate (runAppends limits journal appends) =
        (readEvents limits modelValidate journal).map (· ++ completed limits journal appends)
  | [], journal => by
      cases h : readEvents limits modelValidate journal with
      | error e => exact h
      | ok events => exact h.trans (congrArg Except.ok (List.append_nil events).symm)
  | (event, cut) :: more, journal => by
      rw [runAppends, readEvents_run hnesting hvalidate more, readEvents_append hnesting hvalidate,
        completed]
      cases readEvents limits modelValidate journal with
      | error e => rfl
      | ok events => exact congrArg Except.ok (List.append_assoc _ _ _)

end Journal
end Client
end Nauro
