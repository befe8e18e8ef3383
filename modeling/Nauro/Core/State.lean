import Nauro.Core.Text

/-!
# State files: the current state and its history

An update replaces `state_current.md` and archives the body it replaces as a timestamped
section at the end of `state_history.md`.

* `history_updateState` — what an update appends to the history.
-/

namespace Nauro
namespace Core
namespace State

open Foundation

/-- A point in time at the minute precision of the state files. -/
structure UtcMinute where
  year : Nat
  month : Nat
  day : Nat
  hour : Nat
  minute : Nat
  year_bounds : 1000 ≤ year ∧ year ≤ 9999
  month_bounds : 1 ≤ month ∧ month ≤ 12
  day_bounds : 1 ≤ day ∧ day ≤ 31
  hour_lt : hour < 24
  minute_lt : minute < 60
deriving DecidableEq

/-- `%Y-%m-%dT%H:%MZ`. -/
def formatStateTimestamp (t : UtcMinute) : Text :=
  padNumber 4 t.year ++ ['-'] ++ padNumber 2 t.month ++ ['-'] ++ padNumber 2 t.day ++ ['T'] ++
    padNumber 2 t.hour ++ [':'] ++ padNumber 2 t.minute ++ ['Z']

def currentStateHeader : Text := "# Current State".toList
def lastUpdatedPrefix : Text := "*Last updated: ".toList
def lastUpdatedSuffix : Text := "*".toList

/-- Whether a line is the header or the footer that a state update writes. -/
def isHeaderOrFooter (line : Text) : Bool :=
  let s := strip line
  currentStateHeader.isPrefixOf s ||
    (lastUpdatedPrefix.isPrefixOf s && lastUpdatedSuffix.isSuffixOf s)

/-- Strip the `# Current State` header and the `*Last updated: ...*` footer. -/
def stripCurrentHeaderFooter (content : Text) : Text :=
  strip (joinLines ((splitLines content).filter fun line => !isHeaderOrFooter line))

/-- The new body of `state_current.md`, and the block to append to `state_history.md`. -/
structure StateUpdateResult where
  currentContent : Text
  historyEntry : Option Text

/-- `f"## {timestamp}\n\n{old_body}\n\n---\n"`. -/
def formatHistoryEntry (timestamp oldBody : Text) : Text :=
  "## ".toList ++ timestamp ++ "\n\n".toList ++ oldBody ++ "\n\n---\n".toList

/-- The body an update archives, when there is one. -/
def archivedBody (currentContent : Option Text) : Option Text :=
  (currentContent.map stripCurrentHeaderFooter).filter fun oldBody => !oldBody.isEmpty

/-- Format one state update with an explicit minute timestamp. -/
def prepareStateUpdate (newState : Text) (currentContent : Option Text) (updatedAt : UtcMinute) :
    StateUpdateResult :=
  let timestamp := formatStateTimestamp updatedAt
  { currentContent :=
      currentStateHeader ++ "\n\n".toList ++ newState ++ "\n\n".toList ++
        lastUpdatedPrefix ++ timestamp ++ lastUpdatedSuffix ++ ['\n']
    historyEntry := (archivedBody currentContent).map (formatHistoryEntry timestamp) }

/-! ## Updating a store -/

def stateOverlapMinKeywords : Nat := 3

def stateOverlapStopWords : List Text :=
  ["the", "a", "an", "to", "and", "or", "is", "was", "-"].map String.toList

/-- The keywords a line of the current state shares with the delta. -/
def overlap (tables : UnicodeTables) (delta line : Text) : List Text :=
  ((splitWords (lower tables delta)).filter fun word =>
    (splitWords (lower tables line)).contains word &&
      !stateOverlapStopWords.contains word).dedup

/-- A caution when the delta heavily mirrors a bullet of the current state. -/
def overlapWarning (tables : UnicodeTables) (delta currentContent : Text) : Option Text :=
  let mirrored := (splitLines currentContent).find? fun line =>
    "- ".toList.isPrefixOf line && !containsText "none yet".toList line &&
      stateOverlapMinKeywords ≤ (overlap tables delta line).length
  mirrored.map fun line =>
    "State update shares keywords with existing entry: ".toList ++ strip line

inductive UpdateStatus where
  | ok
  | noop
deriving DecidableEq

structure UpdateStateResult where
  status : UpdateStatus
  warning : Option Text

/-- The state files of a store as texts; `none` is a missing file. -/
structure StateFiles where
  current : Option Text
  legacy : Option Text
  history : Option Text

/-- The store reads in text mode. -/
def readFile (file : Option Text) : Option Text :=
  file.map universalNewlines

/-- Write a prepared update. -/
def StateFiles.write (files : StateFiles) (result : StateUpdateResult) : StateFiles :=
  match result.historyEntry with
  | none => { files with current := some result.currentContent }
  | some entry =>
      { files with
        current := some result.currentContent
        history := some ((readFile files.history).getD [] ++ entry) }

/-- Replace the current state with a delta, archiving the prior body to history. -/
def updateState (tables : UnicodeTables) (files : StateFiles) (delta : Text) (now : UtcMinute) :
    StateFiles × UpdateStateResult :=
  match readFile files.current with
  | some currentContent =>
      (files.write (prepareStateUpdate delta (some currentContent) now),
        { status := .ok, warning := overlapWarning tables delta currentContent })
  | none =>
      match readFile files.legacy with
      | none => (files, { status := .noop, warning := none })
      | some legacyContent =>
          let migrated := { files with current := some legacyContent }
          (migrated.write (prepareStateUpdate delta (some legacyContent) now),
            { status := .ok, warning := none })

/-- The text an update starts from. -/
def StateFiles.source (files : StateFiles) : Option Text :=
  (readFile files.current).or (readFile files.legacy)

theorem history_write (files : StateFiles) (delta : Text) (content : Text) (now : UtcMinute) :
    (files.write (prepareStateUpdate delta (some content) now)).history =
      match archivedBody (some content) with
      | none => files.history
      | some body =>
          some ((readFile files.history).getD [] ++
            formatHistoryEntry (formatStateTimestamp now) body) := by
  unfold StateFiles.write prepareStateUpdate
  cases archivedBody (some content) <;> rfl

/-- An update appends exactly the entry of the body it replaces. -/
theorem history_updateState (tables : UnicodeTables) (files : StateFiles) (delta : Text)
    (now : UtcMinute) :
    (updateState tables files delta now).1.history =
      match archivedBody files.source with
      | none => files.history
      | some body =>
          some ((readFile files.history).getD [] ++
            formatHistoryEntry (formatStateTimestamp now) body) := by
  unfold updateState StateFiles.source
  cases hcurrent : readFile files.current with
  | some content => exact history_write files delta content now
  | none =>
      cases hlegacy : readFile files.legacy with
      | none => rfl
      | some content => exact history_write _ delta content now

/-! ## Runs of updates -/

/-- One requested update. -/
structure Update where
  delta : Text
  time : UtcMinute

/-- A body archived under its timestamp. -/
structure Snapshot where
  time : UtcMinute
  body : Text
deriving DecidableEq

/-- The block a snapshot occupies in the history. -/
def Snapshot.entry (s : Snapshot) : Text :=
  formatHistoryEntry (formatStateTimestamp s.time) s.body

/-- What one update archives. -/
def snapshot? (files : StateFiles) (update : Update) : Option Snapshot :=
  (archivedBody files.source).map fun body => { time := update.time, body := body }

/-- Apply updates in turn. -/
def runUpdates (tables : UnicodeTables) (files : StateFiles) : List Update → StateFiles
  | [] => files
  | update :: rest =>
      runUpdates tables (updateState tables files update.delta update.time).1 rest

/-- The snapshots a run archives, in order. -/
def snapshots (tables : UnicodeTables) (files : StateFiles) : List Update → List Snapshot
  | [] => []
  | update :: rest =>
      (snapshot? files update).toList ++
        snapshots tables (updateState tables files update.delta update.time).1 rest

/-! ### Texts without carriage returns -/

theorem notMem_trim {c : Char} {text : Text} (h : c ∉ text) : c ∉ strip text :=
  fun hmem => h (Trim.mem_of_mem_trim hmem)

theorem notMem_stripCurrentHeaderFooter {c : Char} {content : Text} (hc : c ∉ content)
    (hnewline : c ≠ '\n') : c ∉ stripCurrentHeaderFooter content := by
  apply notMem_trim
  intro hmem
  rcases mem_joinLines hmem with heq | ⟨line, hline, hin⟩
  · exact hnewline heq
  · exact hc (mem_of_mem_splitLines (List.mem_filter.mp hline).1 hin)

theorem cr_notMem_source {files : StateFiles} {content : Text}
    (h : files.source = some content) : '\r' ∉ content := by
  unfold StateFiles.source readFile at h
  cases hcurrent : files.current with
  | some current =>
      rw [hcurrent] at h
      rw [← Option.some.inj h]
      exact notMem_universalNewlines current
  | none =>
      cases hlegacy : files.legacy with
      | none =>
          rw [hcurrent, hlegacy] at h
          cases h
      | some legacy =>
          rw [hcurrent, hlegacy] at h
          rw [← Option.some.inj h]
          exact notMem_universalNewlines legacy

/-- An archived body is stripped, not empty, and free of carriage returns. -/
theorem cr_notMem_of_snapshot? {files : StateFiles} {update : Update} {s : Snapshot}
    (h : snapshot? files update = some s) : '\r' ∉ s.body := by
  obtain ⟨body, hbody, rfl⟩ := Option.map_eq_some_iff.mp h
  unfold archivedBody at hbody
  obtain ⟨hstrip, -⟩ := Option.filter_eq_some_iff.mp hbody
  obtain ⟨content, hcontent, rfl⟩ := Option.map_eq_some_iff.mp hstrip
  exact notMem_stripCurrentHeaderFooter (cr_notMem_source hcontent) (by decide)

/-! ### What a run appends -/

theorem notMem_formatStateTimestamp {c : Char} (t : UtcMinute) (hdigit : c.isDigit = false)
    (hsep : c ∉ "-T:Z".toList) : c ∉ formatStateTimestamp t := by
  have hpad : ∀ width n, c ∉ padNumber width n := by
    intro width n hmem
    rw [isDigit_of_mem_padNumber hmem] at hdigit
    cases hdigit
  have hlist : "-T:Z".toList = ['-', 'T', ':', 'Z'] := rfl
  rw [hlist] at hsep
  simp only [List.mem_cons, not_or] at hsep
  obtain ⟨hdash, hT, hcolon, hZ, -⟩ := hsep
  simp [formatStateTimestamp, hpad, hdash, hT, hcolon, hZ]

/-- The heading of a snapshot in the history. -/
def Snapshot.header (s : Snapshot) : Text :=
  "## ".toList ++ formatStateTimestamp s.time

/-- The lines under the heading, the separator included. -/
def Snapshot.bodyLines (s : Snapshot) : List Text :=
  [] :: (splitLines s.body ++ [[], "---".toList])

theorem entry_eq (s : Snapshot) :
    s.entry = (s.header ++ '\n' :: ('\n' :: (s.body ++ '\n' :: ('\n' :: "---".toList)))) ++
      ['\n'] := by
  simp [Snapshot.entry, Snapshot.header, formatHistoryEntry]

theorem newline_notMem_header (s : Snapshot) : '\n' ∉ s.header := by
  unfold Snapshot.header
  rw [List.mem_append, not_or]
  exact ⟨by decide, notMem_formatStateTimestamp s.time rfl (by decide)⟩

/-- A history entry is its heading and its body lines. -/
theorem documentLines_entry (s : Snapshot) :
    LineText.documentLines '\n' s.entry = s.header :: s.bodyLines := by
  rw [entry_eq, LineText.documentLines_append_sep, LineText.splitOn_append_sep,
    LineText.splitOn_cons_sep, LineText.splitOn_append_sep, LineText.splitOn_cons_sep,
    List.splitOn_eq_singleton (newline_notMem_header s)]
  rfl

theorem entry_ne_nil (s : Snapshot) : s.entry ≠ [] := by
  rw [entry_eq]
  simp

theorem terminated_entry (s : Snapshot) : LineText.Terminated '\n' s.entry := by
  right
  rw [entry_eq]
  exact List.getLast?_concat

theorem cr_notMem_entry {s : Snapshot} (h : '\r' ∉ s.body) : '\r' ∉ s.entry := by
  have htime : '\r' ∉ formatStateTimestamp s.time :=
    notMem_formatStateTimestamp s.time rfl (by decide)
  have hfirst : '\r' ∉ "## ".toList := by decide
  have hsecond : '\r' ∉ "\n\n".toList := by decide
  have hlast : '\r' ∉ "\n\n---\n".toList := by decide
  simp only [Snapshot.entry, formatHistoryEntry, List.mem_append, not_or]
  exact ⟨⟨⟨⟨hfirst, htime⟩, hsecond⟩, h⟩, hlast⟩

/-- The text of the history file; a missing file counts as empty. -/
def StateFiles.historyText (files : StateFiles) : Text :=
  files.history.getD []

theorem historyText_updateState (tables : UnicodeTables) (files : StateFiles)
    (update : Update) (hcr : '\r' ∉ files.historyText) :
    (updateState tables files update.delta update.time).1.historyText =
      files.historyText ++ (snapshot? files update).toList.flatMap Snapshot.entry := by
  have hread : (readFile files.history).getD [] = files.historyText := by
    unfold StateFiles.historyText readFile at *
    cases hhist : files.history with
    | none => rfl
    | some text =>
        rw [hhist] at hcr
        exact universalNewlines_of_notMem hcr
  unfold StateFiles.historyText
  rw [history_updateState, hread]
  unfold snapshot?
  cases archivedBody files.source with
  | none => simp
  | some body => simp [Snapshot.entry, StateFiles.historyText]

/-- A run appends the entries of what it archives to the history, in order. -/
theorem historyText_runUpdates (tables : UnicodeTables) (files : StateFiles)
    (updates : List Update) (hcr : '\r' ∉ files.historyText) :
    (runUpdates tables files updates).historyText =
      files.historyText ++ (snapshots tables files updates).flatMap Snapshot.entry := by
  induction updates generalizing files with
  | nil => simp [runUpdates, snapshots]
  | cons update rest ih =>
      have hstep := historyText_updateState tables files update hcr
      have hcrNext :
          '\r' ∉ (updateState tables files update.delta update.time).1.historyText := by
        rw [hstep, List.mem_append, not_or]
        refine ⟨hcr, ?_⟩
        cases hsnap : snapshot? files update with
        | none => simp
        | some s => simpa using cr_notMem_entry (cr_notMem_of_snapshot? hsnap)
      rw [runUpdates, ih _ hcrNext, hstep, snapshots, List.flatMap_append, List.append_assoc]

end State
end Core
end Nauro
