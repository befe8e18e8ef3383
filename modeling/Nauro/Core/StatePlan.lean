import Nauro.Core.State
import Nauro.Foundation.Json
import Nauro.Foundation.LossyUtf8

/-!
# State updates, written and planned

A local store carries an update out, one file at a time. A hosted store plans it: a plan has
what was observed and what replaces it, and writes nothing by itself. The first reads files as
text, with undecodable bytes replaced and line ends translated; the second decodes the exact
bytes and refuses what is not UTF-8.

* `updateState_eq_apply` — an update is the plan over the files as they are read.
-/

namespace Nauro
namespace Core
namespace StatePlan

open Foundation
open Foundation.EscapedUtf8 (utf8)
open State

abbrev Bytes := List UInt8

/-- Format one state update with an explicit minute timestamp. -/
def prepareStateUpdateWithTimestamp (newState : Text) (currentContent : Option Text)
    (timestamp : Text) : StateUpdateResult :=
  { currentContent :=
      currentStateHeader ++ "\n\n".toList ++ newState ++ "\n\n".toList ++
        lastUpdatedPrefix ++ timestamp ++ lastUpdatedSuffix ++ ['\n']
    historyEntry := (archivedBody currentContent).map (formatHistoryEntry timestamp) }

/-- The legacy content as it is, and nothing to archive. -/
def migrateLegacyState (legacyContent : Text) : StateUpdateResult :=
  { currentContent := legacyContent, historyEntry := none }

/-! ## The files of a store -/

/-- The bytes of the state files; `none` is a missing file. -/
structure StateBytes where
  current : Option Bytes
  legacy : Option Bytes
  history : Option Bytes
deriving DecidableEq

/-- A file read as text: undecodable bytes are replaced, line ends translated. -/
def readText (file : Option Bytes) : Option Text :=
  file.map fun bytes => universalNewlines (LossyUtf8.decode bytes)

/-- Replace the current state, and append to the history when there is a body to archive. -/
def StateBytes.replace (store : StateBytes) (result : StateUpdateResult) : StateBytes :=
  let written := { store with current := some (utf8 result.currentContent) }
  match result.historyEntry with
  | none => written
  | some entry =>
      let existingHistory := (readText written.history).getD []
      { written with history := some (utf8 (existingHistory ++ entry)) }

/-- Replace current state with a delta, archiving the prior body to history. The timestamp is
the time of the update as the state files spell it. -/
def updateState (tables : UnicodeTables) (store : StateBytes) (delta timestamp : Text) :
    StateBytes × UpdateStateResult :=
  match readText store.current with
  | some currentContent =>
      let warning := overlapWarning tables delta currentContent
      let result := prepareStateUpdateWithTimestamp delta (some currentContent) timestamp
      (store.replace result, { status := .ok, warning := warning })
  | none =>
      match readText store.legacy with
      | none => (store, { status := .noop, warning := none })
      | some legacyContent =>
          let migrated := migrateLegacyState legacyContent
          let written := { store with current := some (utf8 migrated.currentContent) }
          let result :=
            prepareStateUpdateWithTimestamp delta (some migrated.currentContent) timestamp
          (written.replace result, { status := .ok, warning := none })

/-! ## Plans -/

/-- One exact observation and its optional replacement write. -/
structure StateFileEffect where
  observedBytes : Option Bytes
  replacementBytes : Option Bytes
deriving DecidableEq

/-- The bytes of a file once the effect is carried out. -/
def StateFileEffect.apply (effect : StateFileEffect) (file : Option Bytes) : Option Bytes :=
  effect.replacementBytes.or file

def stateRevisionAbsent : Text := "absent".toList

/-- The SHA-256 state revision of the exact bytes, or the absent token. -/
def computeStateRevision (sha256Hex : Bytes → Text) : Option Bytes → Text
  | none => stateRevisionAbsent
  | some content => sha256Hex content

/-- The terminal outcome of a plan. -/
inductive PlanOutcome where
  | updated (result : UpdateStateResult)
  | staleRevision (expectedRevision currentRevision : Text)

structure UpdateStatePlan where
  delta : Text
  expectedRevision : Option Text
  stateCurrentEffect : StateFileEffect
  stateHistoryEffect : StateFileEffect
  legacyStateBytes : Option Bytes
  updatedAt : Option Text
  result : PlanOutcome
  payloadBytes : Bytes

/-- The store once the planned replacements are written. -/
def UpdateStatePlan.apply (plan : UpdateStatePlan) (store : StateBytes) : StateBytes :=
  { store with
    current := plan.stateCurrentEffect.apply store.current
    history := plan.stateHistoryEffect.apply store.history }

inductive PlanError where
  | rejected (reason : Text)
  | undecodable
deriving DecidableEq

def maxDeltaLength : Nat := 5000

/-- An error message when a value is too long. -/
def checkContentLength (value label : Text) (maxLength : Nat) : Option Text :=
  if maxLength < value.length then
    some (label ++ " exceeds maximum length of ".toList ++ Nat.toDigits 10 maxLength ++
      " characters (got ".toList ++ Nat.toDigits 10 value.length ++ ").".toList)
  else none

/-- `[0-9a-f]{64}|absent`. -/
def isStateRevision (value : Text) : Bool :=
  value == stateRevisionAbsent ||
    (value.length == 64 && value.all fun c => c.isDigit || ('a' ≤ c && c ≤ 'f'))

def invalidRevisionMessage (value : Text) : Text :=
  ("expected_revision must be a lowercase 64-character SHA-256 hex digest or the literal token " ++
    "'absent'; got a ").toList ++ Nat.toDigits 10 value.length ++ "-character value.".toList

/-- Sorted keys, compact separators, UTF-8 unescaped; a payload of texts holds no surrogate. -/
def canonicalPayloadBytes (payload : Json.Value) : Bytes :=
  utf8 ((Json.print (Json.sortKeys payload)).filterMap Json.CodePoint.char?)

def jsonText (text : Text) : Json.Value :=
  .string (Json.ofText text)

def statePayload (delta : Text) (expectedRevision : Option Text) : Json.Value :=
  .object
    [(Json.ofText "delta".toList, jsonText delta),
      (Json.ofText "expected_revision".toList, (expectedRevision.map jsonText).getD .null),
      (Json.ofText "operation".toList, jsonText "update_state".toList)]

def scalar? : EscapedUtf8.Point → Option Char
  | .scalar c => some c
  | .escaped _ => none

/-- `bytes.decode("utf-8")`, which refuses bytes that encode nothing. -/
def decodeStrict (bytes : Bytes) : Except PlanError Text :=
  match (EscapedUtf8.decode bytes).mapM scalar? with
  | some text => .ok text
  | none => .error .undecodable

/-- A file that is observed and not written. -/
def observed (file : Option Bytes) : StateFileEffect :=
  { observedBytes := file, replacementBytes := none }

/-- The effect on the history: nothing, or the exact content and the entry after it. -/
def planHistory (history : Option Bytes) :
    Option Text → Except PlanError StateFileEffect
  | none => .ok (observed history)
  | some entry => do
      let historyContent ← match history with
        | none => .ok []
        | some bytes => decodeStrict bytes
      return { observedBytes := history, replacementBytes := some (utf8 (historyContent ++ entry)) }

/-- Plan exact state replacements. A text is always encodable, so of the checks on the delta
only the one on its length can fail. -/
def planStateUpdate (sha256Hex : Bytes → Text) (tables : UnicodeTables) (delta : Text)
    (store : StateBytes) (updatedAt : Text) (expectedRevision : Option Text) :
    Except PlanError UpdateStatePlan := do
  if let some lengthError := checkContentLength delta "Delta".toList maxDeltaLength then
    throw (.rejected lengthError)
  if let some expected := expectedRevision then
    if !isStateRevision expected then
      throw (.rejected (invalidRevisionMessage expected))
  let payloadBytes := canonicalPayloadBytes (statePayload delta expectedRevision)
  let currentRevision := computeStateRevision sha256Hex store.current
  match expectedRevision.filter (· != currentRevision) with
  | some expected =>
      return {
        delta := delta, expectedRevision := expectedRevision
        stateCurrentEffect := observed store.current
        stateHistoryEffect := observed store.history
        legacyStateBytes := store.legacy, updatedAt := none
        result := .staleRevision expected currentRevision, payloadBytes := payloadBytes }
  | none =>
      match store.current.or store.legacy with
      | none =>
          return {
            delta := delta, expectedRevision := expectedRevision
            stateCurrentEffect := observed store.current
            stateHistoryEffect := observed store.history
            legacyStateBytes := none, updatedAt := none
            result := .updated { status := .noop, warning := none }
            payloadBytes := payloadBytes }
      | some selectedBytes =>
          let usingLegacy := store.current.isNone
          let decoded ← decodeStrict selectedBytes
          let selectedContent :=
            if usingLegacy then (migrateLegacyState decoded).currentContent else decoded
          let warning := if usingLegacy then none else overlapWarning tables delta selectedContent
          let prepared := prepareStateUpdateWithTimestamp delta (some selectedContent) updatedAt
          let historyEffect ← planHistory store.history prepared.historyEntry
          return {
            delta := delta, expectedRevision := expectedRevision
            stateCurrentEffect :=
              { observedBytes := store.current
                replacementBytes := some (utf8 prepared.currentContent) }
            stateHistoryEffect := historyEffect
            legacyStateBytes := store.legacy, updatedAt := some updatedAt
            result := .updated { status := .ok, warning := warning }
            payloadBytes := payloadBytes }

/-! ## Files as they are read -/

/-- The bytes of the text a file is read as. -/
def asRead (file : Option Bytes) : Option Bytes :=
  (readText file).map utf8

/-- The state files as a text-mode reader sees them. -/
def StateBytes.asRead (store : StateBytes) : StateBytes :=
  { current := StatePlan.asRead store.current
    legacy := StatePlan.asRead store.legacy
    history := StatePlan.asRead store.history }

theorem mapM_scalar? (text : Text) :
    (text.map EscapedUtf8.Point.scalar).mapM scalar? = some text := by
  induction text with
  | nil => rfl
  | cons c text ih => simp [scalar?, ih]

@[simp] theorem decodeStrict_utf8 (text : Text) : decodeStrict (utf8 text) = .ok text := by
  unfold decodeStrict
  rw [EscapedUtf8.decode_utf8, mapM_scalar?]

/-- A file of a text without carriage returns is read as it is. -/
theorem asRead_utf8 {text : Text} (h : '\r' ∉ text) :
    asRead (some (utf8 text)) = some (utf8 text) := by
  unfold asRead readText
  rw [Option.map_some, LossyUtf8.decode_utf8, universalNewlines_of_notMem h, Option.map_some]

/-- A present file is planned from the text it is read as. -/
theorem asRead_eq_some_iff {file : Option Bytes} {text : Text} :
    asRead file = some (utf8 text) ↔ readText file = some text := by
  unfold asRead
  rw [Option.map_eq_some_iff]
  constructor
  · rintro ⟨read, hread, hbytes⟩
    rw [hread, EscapedUtf8.utf8_injective hbytes]
  · intro hread
    exact ⟨text, hread, rfl⟩

theorem asRead_eq_none_iff {file : Option Bytes} : asRead file = none ↔ readText file = none := by
  unfold asRead
  rw [Option.map_eq_none_iff]

/-! ## An update is its plan -/

/-- What carrying out a history entry makes of the history. -/
def appendEntry (history : Option Bytes) : Option Text → Option Bytes
  | none => history
  | some entry => some (utf8 ((readText history).getD [] ++ entry))

/-- A plan over the history as it is read appends the entry to the history itself. -/
theorem planHistory_asRead (history : Option Bytes) (entry : Option Text) :
    ∃ effect, planHistory (asRead history) entry = .ok effect ∧
      effect.apply history = appendEntry history entry := by
  cases entry with
  | none => exact ⟨observed (asRead history), rfl, rfl⟩
  | some text =>
      unfold appendEntry
      cases hread : readText history with
      | none =>
          rw [asRead_eq_none_iff.mpr hread]
          exact ⟨_, rfl, rfl⟩
      | some content =>
          rw [asRead_eq_some_iff.mpr hread]
          simp only [planHistory, decodeStrict_utf8]
          exact ⟨_, rfl, rfl⟩

/-- Replacing the state writes the new current text and appends the entry. -/
theorem replace_eq (store : StateBytes) (result : StateUpdateResult) :
    store.replace result =
      { store with
        current := some (utf8 result.currentContent)
        history := appendEntry store.history result.historyEntry } := by
  unfold StateBytes.replace
  cases result.historyEntry <;> rfl

theorem checkContentLength_of_le {value label : Text} {maxLength : Nat}
    (h : value.length ≤ maxLength) : checkContentLength value label maxLength = none :=
  if_neg (Nat.not_lt.mpr h)

/-- A plan without an expected revision, over files that are read as `content`. -/
theorem planStateUpdate_of_source {sha256Hex : Bytes → Text} {tables : UnicodeTables}
    {delta timestamp content : Text} {store : StateBytes}
    (hlength : delta.length ≤ maxDeltaLength)
    (hsource : (readText store.current).or (readText store.legacy) = some content) :
    ∃ plan, planStateUpdate sha256Hex tables delta store.asRead timestamp none = .ok plan ∧
      plan.result = .updated
        { status := .ok
          warning :=
            if (readText store.current).isNone then none
            else overlapWarning tables delta content } ∧
      plan.apply store = store.replace
        (prepareStateUpdateWithTimestamp delta (some content) timestamp) := by
  have hselected : store.asRead.current.or store.asRead.legacy = some (utf8 content) := by
    show ((readText store.current).map utf8).or ((readText store.legacy).map utf8) = _
    rw [← Option.map_or, hsource, Option.map_some]
  have hlegacy : store.asRead.current.isNone = (readText store.current).isNone := by
    show ((readText store.current).map utf8).isNone = _
    exact Option.isNone_map
  obtain ⟨effect, heffect, happly⟩ := planHistory_asRead store.history
    (prepareStateUpdateWithTimestamp delta (some content) timestamp).historyEntry
  unfold planStateUpdate
  rw [checkContentLength_of_le hlength]
  simp only [Option.filter_none, hselected, decodeStrict_utf8, hlegacy, migrateLegacyState,
    ite_self]
  have hhistory : planHistory store.asRead.history
      (prepareStateUpdateWithTimestamp delta (some content) timestamp).historyEntry =
        .ok effect := heffect
  simp only [bind, Except.bind, hhistory]
  refine ⟨_, rfl, rfl, ?_⟩
  rw [replace_eq, ← happly]
  rfl

/-- An update of the local files is a replacement of the text they are read as. -/
theorem updateState_of_source (tables : UnicodeTables) {delta timestamp content : Text}
    {store : StateBytes}
    (hsource : (readText store.current).or (readText store.legacy) = some content) :
    updateState tables store delta timestamp =
      (store.replace (prepareStateUpdateWithTimestamp delta (some content) timestamp),
        { status := .ok
          warning :=
            if (readText store.current).isNone then none
            else overlapWarning tables delta content }) := by
  unfold updateState
  cases hcurrent : readText store.current with
  | some current =>
      rw [hcurrent, Option.some_or] at hsource
      rw [Option.some.inj hsource]
      rfl
  | none =>
      rw [hcurrent, Option.none_or] at hsource
      rw [hsource]
      -- The migrated text is written first and replaced at once.
      show (StateBytes.replace _ _, _) = _
      rw [replace_eq, replace_eq]
      rfl

/-- For an admitted delta, an update of the local files is the plan over the files as they are
read: the same bytes are written, with the same status and the same warning. -/
theorem updateState_eq_apply (sha256Hex : Bytes → Text) (tables : UnicodeTables)
    (delta timestamp : Text) (store : StateBytes) (hlength : delta.length ≤ maxDeltaLength) :
    ∃ plan result, planStateUpdate sha256Hex tables delta store.asRead timestamp none = .ok plan ∧
      plan.result = .updated result ∧
      updateState tables store delta timestamp = (plan.apply store, result) := by
  cases hsource : (readText store.current).or (readText store.legacy) with
  | none =>
      obtain ⟨hcurrent, hlegacy⟩ := Option.or_eq_none_iff.mp hsource
      have hplanned : store.asRead.current = none ∧ store.asRead.legacy = none :=
        ⟨asRead_eq_none_iff.mpr hcurrent, asRead_eq_none_iff.mpr hlegacy⟩
      unfold planStateUpdate updateState
      rw [checkContentLength_of_le hlength, hplanned.1, hplanned.2, hcurrent, hlegacy]
      exact ⟨_, _, rfl, rfl, rfl⟩
  | some content =>
      obtain ⟨plan, hplan, hresult, happly⟩ := planStateUpdate_of_source hlength hsource
      refine ⟨plan, _, hplan, hresult, ?_⟩
      rw [updateState_of_source tables hsource, happly]

/-! ## Files that are plain texts -/

/-- The state files of a store whose files are texts. -/
def StateBytes.ofFiles (files : StateFiles) : StateBytes :=
  { current := files.current.map utf8
    legacy := files.legacy.map utf8
    history := files.history.map utf8 }

theorem asRead_map_utf8 {file : Option Text} (h : ∀ text ∈ file, '\r' ∉ text) :
    asRead (file.map utf8) = file.map utf8 := by
  cases file with
  | none => rfl
  | some text => exact asRead_utf8 (h text rfl)

/-- Texts without carriage returns are read exactly as they are. -/
theorem asRead_ofFiles {files : StateFiles} (hcurrent : ∀ text ∈ files.current, '\r' ∉ text)
    (hlegacy : ∀ text ∈ files.legacy, '\r' ∉ text)
    (hhistory : ∀ text ∈ files.history, '\r' ∉ text) :
    (StateBytes.ofFiles files).asRead = StateBytes.ofFiles files := by
  unfold StateBytes.asRead StateBytes.ofFiles
  rw [asRead_map_utf8 hcurrent, asRead_map_utf8 hlegacy, asRead_map_utf8 hhistory]

/-! ## Revision conflicts -/

/-- A plan against another revision than the observed one replaces nothing. -/
theorem planStateUpdate_stale {sha256Hex : Bytes → Text} {tables : UnicodeTables}
    {delta updatedAt expected : Text} {store : StateBytes} {plan : UpdateStatePlan}
    (hstale : expected ≠ computeStateRevision sha256Hex store.current)
    (hplan : planStateUpdate sha256Hex tables delta store updatedAt (some expected) = .ok plan) :
    plan.stateCurrentEffect.replacementBytes = none ∧
      plan.stateHistoryEffect.replacementBytes = none ∧ plan.apply store = store := by
  have hfilter : (some expected).filter (· != computeStateRevision sha256Hex store.current) =
      some expected := by
    simp [hstale]
  unfold planStateUpdate at hplan
  simp only [hfilter] at hplan
  cases hcheck : checkContentLength delta "Delta".toList maxDeltaLength with
  | some reason =>
      rw [hcheck] at hplan
      cases hplan
  | none =>
      rw [hcheck] at hplan
      cases hshape : isStateRevision expected with
      | false =>
          rw [hshape] at hplan
          cases hplan
      | true =>
          rw [hshape] at hplan
          rw [← Except.ok.inj hplan]
          exact ⟨rfl, rfl, rfl⟩

/-- Local and hosted updates agree on the files as they are read, so byte for byte where the
files are texts without carriage returns; a plan against another revision writes nothing. -/
theorem updates_agree :
    (∀ (sha256Hex : Bytes → Text) (tables : UnicodeTables) (delta timestamp : Text)
      (store : StateBytes), delta.length ≤ maxDeltaLength →
        ∃ plan result,
          planStateUpdate sha256Hex tables delta store.asRead timestamp none = .ok plan ∧
          plan.result = .updated result ∧
          updateState tables store delta timestamp = (plan.apply store, result)) ∧
    (∀ files : StateFiles, (∀ text ∈ files.current, '\r' ∉ text) →
      (∀ text ∈ files.legacy, '\r' ∉ text) → (∀ text ∈ files.history, '\r' ∉ text) →
        (StateBytes.ofFiles files).asRead = StateBytes.ofFiles files) ∧
    (∀ (sha256Hex : Bytes → Text) (tables : UnicodeTables) (delta updatedAt expected : Text)
      (store : StateBytes) (plan : UpdateStatePlan),
        expected ≠ computeStateRevision sha256Hex store.current →
        planStateUpdate sha256Hex tables delta store updatedAt (some expected) = .ok plan →
          plan.stateCurrentEffect.replacementBytes = none ∧
            plan.stateHistoryEffect.replacementBytes = none ∧
            plan.apply store = store) := by
  refine ⟨updateState_eq_apply, fun files hcurrent hlegacy hhistory =>
    asRead_ofFiles hcurrent hlegacy hhistory, ?_⟩
  intro sha256Hex tables delta updatedAt expected store plan hstale hplan
  exact planStateUpdate_stale hstale hplan

/-- The digest of no bytes; the witness below reads no others. -/
def sha256HexOfEmpty : Text :=
  "e3b0c44298fc1c149afbf4c8996fb92427ae41e4649b934ca495991b7852b855".toList

/-- An update of an empty current state and a one-line history, and a plan against an absent
state. -/
theorem updates_agree_applied :
    (∃ plan result,
      planStateUpdate (fun _ => sha256HexOfEmpty) .ascii "new".toList
          (StateBytes.asRead { current := some [], legacy := none, history := some [97] })
          "2026-05-20T10:00Z".toList none = .ok plan ∧
        plan.result = .updated result ∧
        updateState .ascii { current := some [], legacy := none, history := some [97] }
            "new".toList "2026-05-20T10:00Z".toList =
          (plan.apply { current := some [], legacy := none, history := some [97] }, result)) ∧
    StateBytes.asRead (.ofFiles { current := some ['a'], legacy := none, history := none }) =
      .ofFiles { current := some ['a'], legacy := none, history := none } := by
  refine ⟨updates_agree.1 _ _ _ _ _ (by decide), updates_agree.2.1 _ ?_ ?_ ?_⟩
  · simp
  · simp
  · simp

/-- A carriage return in the history: the local update rewrites it, the plan keeps it. -/
theorem updates_differ :
    (updateState .ascii
        { current := some (utf8 "old".toList), legacy := none
          history := some (utf8 "a\r\nb".toList) }
        "new".toList "2026-05-20T10:00Z".toList).1.history =
      some (utf8 "a\nb## 2026-05-20T10:00Z\n\nold\n\n---\n".toList) ∧
    (planStateUpdate (fun _ => sha256HexOfEmpty) .ascii "new".toList
        { current := some (utf8 "old".toList), legacy := none
          history := some (utf8 "a\r\nb".toList) }
        "2026-05-20T10:00Z".toList none).toOption.map (fun plan =>
          (plan.apply { current := some (utf8 "old".toList), legacy := none
                        history := some (utf8 "a\r\nb".toList) }).history) =
      some (some (utf8 "a\r\nb## 2026-05-20T10:00Z\n\nold\n\n---\n".toList)) := by
  constructor
  · decide +kernel
  · decide +kernel

end StatePlan
end Core
end Nauro
