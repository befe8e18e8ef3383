import Nauro.Client.Journal

/-!
# What a reader of the journal raises

A reader skips the lines that do not decode, parse or validate. The JSON reader has two errors that
are none of these: an integer past the digit limit, and nesting past the recursion limit.

* `loads_longInteger` — a line that stops it.
-/

namespace Nauro
namespace Client
namespace Journal

open Foundation Foundation.Json Foundation.EscapedUtf8
open Nauro.Core
open Nauro.Core.QuestionProvenance (JsonLimits)

variable {limits : JsonLimits}

/-! ## Validation without conversions -/

/-- A string or null member that may be missing. -/
def optionalText (name : String) (members : List (Str × Value)) : Option (Option Text) :=
  match members.lookup (key name) with
  | none => some none
  | some .null => some none
  | some (.string s) => (toText? s).map some
  | some _ => none

/-- A string member with a default. -/
def defaultText (name : String) (default : Text) (members : List (Str × Value)) : Option Text :=
  match members.lookup (key name) with
  | none => some default
  | some (.string s) => toText? s
  | some _ => none

def clientText (name : String) (members : List (Str × Value)) : Option (Option ClientString) :=
  (optionalText name members).map fun field => field.map ClientString.of

/-- The member of an enumeration with a name. -/
def named? {α : Type} (name : α → String) (all : List α) (value : Text) : Option α :=
  all.find? fun a => decide ((name a).toList = value)

def validateOrigin : Value → Option OriginDescriptor
  | .object members => do
      if !QuestionProvenance.onlyKeys ["transport", "client_name", "client_version", "actor"]
          members then
        none
      let transport ← QuestionProvenance.textMember "transport" members
      return {
        transport := ← named? Transport.name [.cli, .stdioMcp, .hostedMcp] transport
        clientName := ← clientText "client_name" members
        clientVersion := ← clientText "client_version" members
        actor := ← clientText "actor" members }
  | _ => none

def optionalOrigin (members : List (Str × Value)) : Option (Option OriginDescriptor) :=
  match members.lookup (key "origin") with
  | none => some none
  | some .null => some none
  | some v => (validateOrigin v).map some

/-- The fields of `JournalEvent`, for values that need no conversion; the identity and the time of
an event are not made up. -/
def validateStrict : Value → Option JournalEvent
  | .object members => do
      if !QuestionProvenance.onlyKeys ["event_version", "event_id", "timestamp", "event_type",
          "operation", "target", "status", "decision_id", "origin", "payload_hash",
          "hash_algorithm", "serialization"] members then
        none
      let status ← QuestionProvenance.textMember "status" members
      return {
        eventVersion := ← match members.lookup (key "event_version") with
          | none => some 1
          | some (.int n) => some n
          | some _ => none
        eventId := ← QuestionProvenance.textMember "event_id" members
        timestamp := ← QuestionProvenance.textMember "timestamp" members
        eventType := ← defaultText "event_type" "write".toList members
        operation := ← QuestionProvenance.textMember "operation" members
        target := ← QuestionProvenance.textMember "target" members
        status := ← named? Status.name [.committed, .rejected] status
        decisionId := ← optionalText "decision_id" members
        origin := ← optionalOrigin members
        payloadHash := ← QuestionProvenance.textMember "payload_hash" members
        hashAlgorithm := ← defaultText "hash_algorithm" "sha256".toList members
        serialization := ←
          defaultText "serialization" "json-sorted-compact-utf8".toList members }
  | _ => none

theorem textMember_of_lookup {name : String} {members : List (Str × Value)} {value : Text}
    (h : members.lookup (key name) = some (text value)) :
    QuestionProvenance.textMember name members = some value := by
  have hlookup : members.lookup (QuestionProvenance.key name) = some (.string (ofText value)) := h
  rw [QuestionProvenance.textMember, hlookup]
  exact toText?_ofText value

theorem defaultText_of_lookup {name : String} {default : Text} {members : List (Str × Value)}
    {value : Text} (h : members.lookup (key name) = some (text value)) :
    defaultText name default members = some value := by
  rw [defaultText, h]
  exact toText?_ofText value

theorem optionalText_of_lookup {name : String} {members : List (Str × Value)} {field : Option Text}
    (h : members.lookup (key name) = field.map text) : optionalText name members = some field := by
  rw [optionalText, h]
  cases field with
  | none => rfl
  | some value => exact congrArg (Option.map some) (toText?_ofText value)

theorem clientText_of_lookup {name : String} {members : List (Str × Value)}
    {field : Option ClientString}
    (h : members.lookup (key name) = field.map fun s => text s.value) :
    clientText name members = some field := by
  have htext : optionalText name members = some (field.map ClientString.value) := by
    refine optionalText_of_lookup ?_
    rw [h, Option.map_map]
    rfl
  rw [clientText, htext, Option.map_some, Option.map_map]
  cases field with
  | none => rfl
  | some s => exact congrArg (fun t => some (some t)) (ClientString.of_value s)

theorem validateOrigin_dumpOrigin (origin : OriginDescriptor) :
    validateOrigin (dumpOrigin origin) = some origin := by
  obtain ⟨transport, clientName, clientVersion, actor⟩ := origin
  rw [dumpOrigin]
  generalize hmembers : (key "transport", text transport.name.toList) ::
    (optional "client_name" (fun s => text s.value) clientName ++
      optional "client_version" (fun s => text s.value) clientVersion ++
      optional "actor" (fun s => text s.value) actor) = members
  have hkeys : QuestionProvenance.onlyKeys ["transport", "client_name", "client_version", "actor"]
      members = true := by
    subst hmembers
    cases clientName <;> cases clientVersion <;> cases actor <;> rfl
  have htransport : QuestionProvenance.textMember "transport" members =
      some transport.name.toList := by
    subst hmembers
    exact textMember_of_lookup rfl
  have hname : clientText "client_name" members = some clientName := by
    subst hmembers
    refine clientText_of_lookup ?_
    cases clientName <;> cases clientVersion <;> cases actor <;> rfl
  have hversion : clientText "client_version" members = some clientVersion := by
    subst hmembers
    refine clientText_of_lookup ?_
    cases clientName <;> cases clientVersion <;> cases actor <;> rfl
  have hactor : clientText "actor" members = some actor := by
    subst hmembers
    refine clientText_of_lookup ?_
    cases clientName <;> cases clientVersion <;> cases actor <;> rfl
  have hnamed : named? Transport.name [.cli, .stdioMcp, .hostedMcp] transport.name.toList =
      some transport := by
    cases transport <;> rfl
  simp only [validateOrigin, hkeys, htransport, hname, hversion, hactor, hnamed, Bool.not_true,
    Bool.false_eq_true, if_false, Option.bind_eq_bind, Option.bind_some, Option.pure_def]

/-- The members of an event behind those that may be left out. -/
theorem lookup_eventMembers_tail (event : JournalEvent) :
    (eventMembers event).lookup (key "payload_hash") = some (text event.payloadHash) ∧
      (eventMembers event).lookup (key "hash_algorithm") = some (text event.hashAlgorithm) ∧
      (eventMembers event).lookup (key "serialization") = some (text event.serialization) := by
  obtain ⟨_, _, _, _, _, _, _, decisionId, origin, _, _, _⟩ := event
  cases decisionId <;> cases origin <;> exact ⟨rfl, rfl, rfl⟩

theorem lookup_eventMembers_optional (event : JournalEvent) :
    (eventMembers event).lookup (key "decision_id") = event.decisionId.map text ∧
      (eventMembers event).lookup (key "origin") = event.origin.map dumpOrigin := by
  obtain ⟨_, _, _, _, _, _, _, decisionId, origin, _, _, _⟩ := event
  cases decisionId <;> cases origin <;> exact ⟨rfl, rfl⟩

theorem optionalOrigin_eventMembers (event : JournalEvent) :
    optionalOrigin (eventMembers event) = some event.origin := by
  rw [optionalOrigin, (lookup_eventMembers_optional event).2]
  cases event.origin with
  | none => rfl
  | some origin => exact congrArg (Option.map some) (validateOrigin_dumpOrigin origin)

/-- What an event is dumped as validates as the event. -/
theorem validateStrict_modelDump (event : JournalEvent) :
    validateStrict (modelDump event) = some event := by
  have hkeys : QuestionProvenance.onlyKeys ["event_version", "event_id", "timestamp", "event_type",
      "operation", "target", "status", "decision_id", "origin", "payload_hash", "hash_algorithm",
      "serialization"] (eventMembers event) = true := by
    obtain ⟨_, _, _, _, _, _, _, decisionId, origin, _, _, _⟩ := event
    cases decisionId <;> cases origin <;> rfl
  obtain ⟨hhash, halgorithm, hserialization⟩ := lookup_eventMembers_tail event
  have hversion : (eventMembers event).lookup (key "event_version") =
      some (.int event.eventVersion) := rfl
  have hid : QuestionProvenance.textMember "event_id" (eventMembers event) =
      some event.eventId := textMember_of_lookup rfl
  have htimestamp : QuestionProvenance.textMember "timestamp" (eventMembers event) =
      some event.timestamp := textMember_of_lookup rfl
  have htype : defaultText "event_type" "write".toList (eventMembers event) =
      some event.eventType := defaultText_of_lookup rfl
  have hoperation : QuestionProvenance.textMember "operation" (eventMembers event) =
      some event.operation := textMember_of_lookup rfl
  have htarget : QuestionProvenance.textMember "target" (eventMembers event) =
      some event.target := textMember_of_lookup rfl
  have hstatus : QuestionProvenance.textMember "status" (eventMembers event) =
      some event.status.name.toList := textMember_of_lookup rfl
  have hnamed : named? Status.name [.committed, .rejected] event.status.name.toList =
      some event.status := by
    cases event.status <;> rfl
  have hdecision : optionalText "decision_id" (eventMembers event) = some event.decisionId :=
    optionalText_of_lookup (lookup_eventMembers_optional event).1
  simp only [modelDump, validateStrict, hkeys, hstatus, hversion, hid, htimestamp, htype,
    hoperation, htarget, hnamed, hdecision, optionalOrigin_eventMembers,
    textMember_of_lookup hhash, defaultText_of_lookup halgorithm,
    defaultText_of_lookup hserialization, Bool.not_true, Bool.false_eq_true, if_false,
    Option.bind_eq_bind, Option.bind_some, Option.pure_def]

/-! ## What a reader raises -/

/-- The JSON reader finishes every line: none that decodes holds, before anything malformed, an
integer past the digit limit or values nested past the recursion limit. -/
def Readable (limits : JsonLimits) (journal : Option Bytes) : Prop :=
  ∀ chunk ∈ records (journal.getD []),
    loads limits chunk ≠ .error .intDigitLimit ∧ loads limits chunk ≠ .error .recursionError

theorem readLine_ok_iff (modelValidate : ModelValidate) {chunk : Bytes} :
    (∃ event, readLine limits modelValidate chunk = .ok event) ↔
      loads limits chunk ≠ .error .intDigitLimit ∧
        loads limits chunk ≠ .error .recursionError := by
  unfold readLine
  cases loads limits chunk with
  | ok v => exact ⟨fun _ => ⟨by rintro ⟨⟩, by rintro ⟨⟩⟩, fun _ => ⟨_, rfl⟩⟩
  | error e =>
      cases e with
      | unicodeDecodeError => exact ⟨fun _ => ⟨by rintro ⟨⟩, by rintro ⟨⟩⟩, fun _ => ⟨_, rfl⟩⟩
      | jsonDecodeError => exact ⟨fun _ => ⟨by rintro ⟨⟩, by rintro ⟨⟩⟩, fun _ => ⟨_, rfl⟩⟩
      | recursionError => exact ⟨fun h => (by cases h.choose_spec), fun h => absurd rfl h.2⟩
      | intDigitLimit => exact ⟨fun h => (by cases h.choose_spec), fun h => absurd rfl h.1⟩

theorem readLines_ok_iff (modelValidate : ModelValidate) {chunks : List Bytes}
    (hblank : ∀ chunk ∈ chunks, isBlank chunk = false) :
    (∃ events, readLines limits modelValidate chunks = .ok events) ↔
      ∀ chunk ∈ chunks, loads limits chunk ≠ .error .intDigitLimit ∧
        loads limits chunk ≠ .error .recursionError := by
  induction chunks with
  | nil => exact ⟨fun _ _ h => absurd h List.not_mem_nil, fun _ => ⟨[], rfl⟩⟩
  | cons chunk chunks ih =>
      obtain ⟨hchunk, hchunks⟩ := List.forall_mem_cons.mp hblank
      rw [List.forall_mem_cons, ← ih hchunks,
        ← readLine_ok_iff modelValidate, readLines,
        if_neg (by rw [hchunk]; decide)]
      cases readLine limits modelValidate chunk with
      | error e => exact ⟨fun h => (by cases h.choose_spec), fun h => (by cases h.1.choose_spec)⟩
      | ok event =>
          cases readLines limits modelValidate chunks with
          | error e => exact ⟨fun h => (by cases h.choose_spec), fun h => (by cases h.2.choose_spec)⟩
          | ok events => exact ⟨fun _ => ⟨⟨_, rfl⟩, ⟨_, rfl⟩⟩, fun _ => ⟨_, rfl⟩⟩

theorem readEvents_ok_iff (modelValidate : ModelValidate) (journal : Option Bytes) :
    (∃ events, readEvents limits modelValidate journal = .ok events) ↔ Readable limits journal := by
  rw [readEvents_eq]
  refine readLines_ok_iff modelValidate fun chunk hchunk => ?_
  have hnot := (List.mem_filter.mp hchunk).2
  rwa [Bool.not_eq_true'] at hnot

/-- After any appends, each cut off anywhere, a reader gets the events that were there and the
completed ones, in order: exactly when the JSON reader finishes every line that was there. -/
theorem journal_iff (limits : JsonLimits) (hnesting : 2 ≤ limits.nesting)
    (modelValidate : ModelValidate)
    (hvalidate : ∀ event, modelValidate (modelDump event) = some event) (journal : Option Bytes) :
    (∀ appends, ∃ before, readEvents limits modelValidate journal = .ok before ∧
      readEvents limits modelValidate (runAppends limits journal appends) =
        .ok (before ++ completed limits journal appends)) ↔ Readable limits journal := by
  rw [← readEvents_ok_iff modelValidate]
  constructor
  · intro h
    obtain ⟨before, hbefore, -⟩ := h []
    exact ⟨before, hbefore⟩
  · rintro ⟨before, hbefore⟩ appends
    refine ⟨before, hbefore, ?_⟩
    rw [readEvents_run hnesting hvalidate, hbefore]
    rfl

/-- The limits of an interpreter that is told none. -/
def defaultLimits : JsonLimits where
  nesting := 1000
  intDigits := 4300

/-- A journal that a crash left with the first byte of a record. -/
theorem journal_iff_torn :
    (∀ appends, ∃ before, readEvents defaultLimits validateStrict (some [0x7B]) = .ok before ∧
      readEvents defaultLimits validateStrict (runAppends defaultLimits (some [0x7B]) appends) =
        .ok (before ++ completed defaultLimits (some [0x7B]) appends)) ↔
      Readable defaultLimits (some [0x7B]) :=
  journal_iff defaultLimits (by decide) validateStrict validateStrict_modelDump (some [0x7B])

/-! ## Integers past the digit limit -/

/-- An integer past the digit limit is not skipped. -/
theorem loads_longInteger {digits : Text} (hdigits : ∀ c ∈ digits, c.isDigit = true)
    (hhead : digits.head? ≠ some '0') (hlong : limits.intDigits < digits.length) :
    loads limits (utf8 digits) = .error .intDigitLimit := by
  obtain ⟨c, rest, rfl⟩ := List.exists_cons_of_ne_nil
    (List.ne_nil_of_length_pos (Nat.zero_lt_of_lt hlong))
  have hc : c.isDigit = true := hdigits c (List.mem_cons_self ..)
  have hbegins : beginsValue (.scalar c) := Or.inl hc
  have hread : readDigits (ofText (c :: rest)) = (c :: rest, []) := by
    have hends : EndsNumber [] := by
      rintro p ⟨⟩
    have h := readDigits_append hdigits hends
    rwa [List.append_nil] at h
  have hint : readIntPart (ofText (c :: rest)) = (c :: rest, []) := by
    rw [← hread]
    show readIntPart (.scalar c :: ofText rest) = readDigits (.scalar c :: ofText rest)
    unfold readIntPart
    split
    · next heq =>
        cases heq
        exact absurd rfl hhead
    · rfl
  have hscalar : (jsonReader limits).readScalar (ofText (c :: rest)) = .error .intDigitLimit := by
    show (jsonReader limits).readScalar (.scalar c :: ofText rest) = _
    rw [readScalar_of_notWord (not_word_of_digit hc (ofText rest))]
    have hsign : readSigned (jsonReader limits) (.scalar c :: ofText rest) =
        (jsonReader limits).readUnsigned false (ofText (c :: rest)) := by
      unfold readSigned
      split
      · next heq =>
          cases heq
          exact absurd hc (by decide)
      · rfl
    rw [hsign, Reader.readUnsigned, hint]
    show (if limits.intDigits < (c :: rest).length then _ else _) = _
    rw [if_pos hlong]
    rfl
  have hvalue : (jsonReader limits).readValue (2 * (ofText (c :: rest)).length + 2) limits.nesting
      (ofText (c :: rest)) = .error .intDigitLimit := by
    rw [← hscalar]
    refine readValue_of_scalar ?_
    simp only [ofText, List.map_cons, List.map_nil, List.mem_cons, CodePoint.scalar.injEq,
      List.not_mem_nil, or_false]
    rintro (rfl | rfl | rfl) <;> exact absurd hc (by decide)
  rw [loads_utf8, Reader.read]
  show ((jsonReader limits).readValue (2 * (ofText (c :: rest)).length + 2) limits.nesting
    (skipSpace (.scalar c :: ofText rest)) >>= _) = _
  rw [skipSpace_beginsValue hbegins]
  show ((jsonReader limits).readValue (2 * (ofText (c :: rest)).length + 2) limits.nesting
    (ofText (c :: rest)) >>= _) = _
  rw [hvalue]
  rfl

/-- A journal of one line, a number of one digit more than the interpreter converts. -/
theorem long_integer_raises :
    ¬ ∃ events, readEvents defaultLimits validateStrict
      (some (utf8 (List.replicate 4301 '1'))) = .ok events := by
  have hload : loads defaultLimits (utf8 (List.replicate 4301 '1')) = .error .intDigitLimit := by
    refine loads_longInteger ?_ ?_ ?_
    · intro c hc
      rw [List.eq_of_mem_replicate hc]
      rfl
    · rw [List.head?_replicate]
      decide
    · rw [List.length_replicate]
      decide
  have hsep : newlineByte ∉ utf8 (List.replicate 4301 '1') := by
    refine newlineByte_notMem_encode ?_
    rw [newline_mem_map_scalar, List.mem_replicate]
    exact fun h => absurd h.2 (by decide)
  rw [readEvents_ok_iff]
  intro hreadable
  refine (hreadable (utf8 (List.replicate 4301 '1')) ?_).1 hload
  show _ ∈ RecordLog.records newlineByte isBlank (utf8 (List.replicate 4301 '1'))
  rw [RecordLog.records_line hsep, List.replicate_succ]
  exact List.mem_singleton_self _

end Journal
end Client
end Nauro
