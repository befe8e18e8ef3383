import Nauro.Core.DecisionScan
import Nauro.Core.State

/-!
# What the state history holds of the bodies it replaces

A state file is a header line, a body and a footer line with the time. The archiving drops every
line of a header's or a footer's shape, and the white space around what is left.

* `plain_deltas_archived` — what a run of plain deltas archives.
-/

namespace Nauro
namespace Core
namespace State

open Foundation

/-! ## The body of a state file -/

/-- A line of white space. -/
def isBlankLine (line : Text) : Bool :=
  ink line == 0

/-- The lines without the blank ones at both ends. -/
def trimBlank (lines : List Text) : List Text :=
  Trim.trim isBlankLine lines

def isStateHeader (line : Text) : Bool :=
  currentStateHeader.isPrefixOf (strip line)

def isStateFooter (line : Text) : Bool :=
  lastUpdatedPrefix.isPrefixOf (strip line) && lastUpdatedSuffix.isSuffixOf (strip line)

/-- The lines after the header, when they start with one. -/
def dropHeader : List Text → List Text
  | [] => []
  | first :: rest => if isStateHeader first then rest else first :: rest

/-- The lines before the footer, when they end with one. -/
def dropFooter (lines : List Text) : List Text :=
  if lines.getLast?.any isStateFooter then lines.dropLast else lines

/-- The lines that an update of a state file replaces. -/
def stateBody (content : Text) : List Text :=
  trimBlank (dropFooter (dropHeader (trimBlank (splitLines content))))

/-- The body as a text; there is none when every line is blank. -/
def replacedBody (content : Option Text) : Option Text :=
  ((content.map stateBody).filter fun lines => !lines.isEmpty).map joinLines

/-- A body that archiving leaves as it is. -/
structure PlainBody (lines : List Text) : Prop where
  unmarked : ∀ line ∈ lines, isHeaderOrFooter line = false
  start : ∀ first ∈ lines.head?, ∀ c ∈ first.head?, isSpace c = false
  stop : ∀ last ∈ lines.getLast?, ∀ c ∈ last.getLast?, isSpace c = false

/-! ## Lines that archiving drops -/

theorem isHeaderOrFooter_eq (line : Text) :
    isHeaderOrFooter line = (isStateHeader line || isStateFooter line) := rfl

theorem isBlankLine_iff {line : Text} : isBlankLine line = true ↔ ∀ c ∈ line, isSpace c = true := by
  rw [isBlankLine, beq_iff_eq, ink_eq_zero_iff]

/-- A line of a header's or a footer's shape is not blank. -/
theorem not_marked_of_blank {line : Text} (h : isBlankLine line = true) :
    isHeaderOrFooter line = false := by
  have hstrip : strip line = [] := Trim.trim_eq_nil_iff.mpr (isBlankLine_iff.mp h)
  rw [isHeaderOrFooter, hstrip]
  decide

def unmarkedLines (lines : List Text) : List Text :=
  lines.filter fun line => !isHeaderOrFooter line

theorem unmarkedLines_append (front back : List Text) :
    unmarkedLines (front ++ back) = unmarkedLines front ++ unmarkedLines back :=
  List.filter_append ..

theorem unmarkedLines_of_blank {lines : List Text} (h : ∀ line ∈ lines, isBlankLine line = true) :
    unmarkedLines lines = lines := by
  apply List.filter_eq_self.mpr
  intro line hline
  rw [not_marked_of_blank (h line hline)]
  rfl

theorem unmarkedLines_dropHeader (lines : List Text) :
    unmarkedLines (dropHeader lines) = unmarkedLines lines := by
  cases lines with
  | nil => rfl
  | cons first rest =>
      rw [dropHeader]
      split_ifs with hheader
      · have hmarked : isHeaderOrFooter first = true := by
          rw [isHeaderOrFooter_eq, hheader, Bool.true_or]
        simp [unmarkedLines, hmarked]
      · rfl

theorem unmarkedLines_dropFooter (lines : List Text) :
    unmarkedLines (dropFooter lines) = unmarkedLines lines := by
  rw [dropFooter]
  split_ifs with hfooter
  · obtain ⟨last, hlast⟩ : ∃ last, lines.getLast? = some last := by
      cases hlast : lines.getLast? with
      | none =>
          rw [hlast] at hfooter
          cases hfooter
      | some last => exact ⟨last, rfl⟩
    have hshape : isStateFooter last = true := by
      rw [hlast] at hfooter
      exact hfooter
    obtain ⟨front, rfl⟩ := List.getLast?_eq_some_iff.mp hlast
    have hmarked : isHeaderOrFooter last = true := by
      rw [isHeaderOrFooter_eq, hshape, Bool.or_true]
    rw [List.dropLast_concat, unmarkedLines_append]
    simp [unmarkedLines, hmarked]
  · rfl

/-! ## Blank lines around a text -/

theorem space_of_mem_joinLines {lines : List Text} (h : ∀ line ∈ lines, isBlankLine line = true)
    {c : Char} (hc : c ∈ joinLines lines) : isSpace c = true := by
  rcases mem_joinLines hc with rfl | ⟨line, hline, hin⟩
  · decide
  · exact isBlankLine_iff.mp (h line hline) c hin

theorem strip_joinLines_of_blank {lines : List Text} (h : ∀ line ∈ lines, isBlankLine line = true) :
    strip (joinLines lines) = [] :=
  Trim.trim_eq_nil_iff.mpr fun _ hc => space_of_mem_joinLines h hc

theorem strip_joinLines_append_left {front : List Text}
    (h : ∀ line ∈ front, isBlankLine line = true) (lines : List Text) :
    strip (joinLines (front ++ lines)) = strip (joinLines lines) := by
  by_cases hfront : front = []
  · rw [hfront, List.nil_append]
  by_cases hlines : lines = []
  · rw [hlines, List.append_nil, strip_joinLines_of_blank h]
    rfl
  have hpad : ∀ c ∈ joinLines front ++ ['\n'], isSpace c = true := by
    intro c hc
    rcases List.mem_append.mp hc with hin | hin
    · exact space_of_mem_joinLines h hin
    · rw [List.mem_singleton.mp hin]
      decide
  rw [joinLines_append hfront hlines, ← List.singleton_append, ← List.append_assoc]
  exact Trim.trim_append_left hpad _

theorem strip_joinLines_append_right {back : List Text}
    (h : ∀ line ∈ back, isBlankLine line = true) (lines : List Text) :
    strip (joinLines (lines ++ back)) = strip (joinLines lines) := by
  by_cases hback : back = []
  · rw [hback, List.append_nil]
  by_cases hlines : lines = []
  · rw [hlines, List.nil_append, strip_joinLines_of_blank h]
    rfl
  have hpad : ∀ c ∈ '\n' :: joinLines back, isSpace c = true := by
    intro c hc
    rcases List.mem_cons.mp hc with rfl | hin
    · decide
    · exact space_of_mem_joinLines h hin
  rw [joinLines_append hlines hback]
  exact Trim.trim_append_right hpad _

/-- Blank lines at the ends of a file do not enter what is archived. -/
theorem strip_unmarked_trimBlank (lines : List Text) :
    strip (joinLines (unmarkedLines (trimBlank lines))) =
      strip (joinLines (unmarkedLines lines)) := by
  obtain ⟨front, back, hsplit, hfront, hback⟩ := Trim.exists_trim (p := isBlankLine) lines
  conv_rhs => rw [hsplit]
  rw [unmarkedLines_append, unmarkedLines_append, unmarkedLines_of_blank hfront,
    unmarkedLines_of_blank hback, strip_joinLines_append_left hfront,
    strip_joinLines_append_right hback]
  rfl

/-- What is archived of a file is the unmarked lines of its body. -/
theorem stripCurrentHeaderFooter_eq (content : Text) :
    stripCurrentHeaderFooter content = strip (joinLines (unmarkedLines (stateBody content))) := by
  rw [stateBody, strip_unmarked_trimBlank, unmarkedLines_dropFooter, unmarkedLines_dropHeader,
    strip_unmarked_trimBlank]
  rfl

/-! ## When a body is archived as it is -/

theorem trimmed_stateBody (content : Text) : Trim.Trimmed isBlankLine (stateBody content) :=
  Trim.trimmed_trim _

theorem inkLines_filter_le (kept : Text → Bool) (lines : List Text) :
    inkLines (lines.filter kept) ≤ inkLines lines := by
  induction lines with
  | nil => exact Nat.le_refl 0
  | cons first rest ih =>
      rw [List.filter_cons]
      split_ifs
      · rw [inkLines_cons, inkLines_cons]
        omega
      · rw [inkLines_cons]
        omega

/-- Dropping lines with ink loses ink. -/
theorem inkLines_filter_lt {kept : Text → Bool} {lines : List Text}
    (h : ∃ line ∈ lines, kept line = false ∧ ink line ≠ 0) :
    inkLines (lines.filter kept) < inkLines lines := by
  induction lines with
  | nil =>
      obtain ⟨line, hline, -⟩ := h
      cases hline
  | cons first rest ih =>
      have hle := inkLines_filter_le kept rest
      obtain ⟨line, hline, hdropped, hink⟩ := h
      rcases List.mem_cons.mp hline with rfl | hin
      · rw [List.filter_cons_of_neg (by simp [hdropped]), inkLines_cons]
        omega
      · have hrest := ih ⟨line, hin, hdropped, hink⟩
        rw [List.filter_cons]
        split_ifs
        · rw [inkLines_cons, inkLines_cons]
          omega
        · rw [inkLines_cons]
          omega

theorem head?_joinLines {first : Text} (rest : List Text) (h : first ≠ []) :
    (joinLines (first :: rest)).head? = first.head? := by
  obtain ⟨c, line, rfl⟩ := List.exists_cons_of_ne_nil h
  cases rest with
  | nil => rfl
  | cons second rest => rfl

theorem getLast?_joinLines (front : List Text) {last : Text} (h : last ≠ []) :
    (joinLines (front ++ [last])).getLast? = last.getLast? := by
  by_cases hfront : front = []
  · rw [hfront, List.nil_append, joinLines, List.intercalate_singleton]
  · have hlast : joinLines [last] = last := List.intercalate_singleton
    rw [joinLines_append hfront (List.cons_ne_nil _ _), hlast, List.append_cons]
    exact List.getLast?_append_of_ne_nil _ h

/-- The ends of a text are those of its first and its last line. -/
theorem trimmed_joinLines_iff {lines : List Text} (h : Trim.Trimmed isBlankLine lines) :
    Trim.Trimmed isSpace (joinLines lines) ↔
      (∀ first ∈ lines.head?, ∀ c ∈ first.head?, isSpace c = false) ∧
        ∀ last ∈ lines.getLast?, ∀ c ∈ last.getLast?, isSpace c = false := by
  have hink {line : Text} (hline : isBlankLine line = false) : line ≠ [] := by
    rintro rfl
    cases hline
  have hstart : (joinLines lines).head? = lines.head?.bind List.head? := by
    cases lines with
    | nil => rfl
    | cons first rest => exact head?_joinLines rest (hink (h.1 first rfl))
  have hstop : (joinLines lines).getLast? = lines.getLast?.bind List.getLast? := by
    cases hlast : lines.getLast? with
    | none =>
        rw [List.getLast?_eq_none_iff.mp hlast]
        rfl
    | some last =>
        have hline := hink (h.2 last hlast)
        obtain ⟨front, rfl⟩ := List.getLast?_eq_some_iff.mp hlast
        exact getLast?_joinLines front hline
  rw [Trim.Trimmed, hstart, hstop]
  simp only [Option.mem_def, Option.bind_eq_some_iff, forall_exists_index, and_imp]
  constructor
  · rintro ⟨hfirst, hlast⟩
    exact ⟨fun first hline c hc => hfirst c first hline hc,
      fun last hline c hc => hlast c last hline hc⟩
  · rintro ⟨hfirst, hlast⟩
    exact ⟨fun c first hline hc => hfirst first hline c hc,
      fun c last hline hc => hlast last hline c hc⟩

theorem archived_eq_iff {lines : List Text} (h : Trim.Trimmed isBlankLine lines) :
    strip (joinLines (unmarkedLines lines)) = joinLines lines ↔ PlainBody lines := by
  constructor
  · intro heq
    have hink : inkLines (unmarkedLines lines) = inkLines lines := by
      rw [← ink_joinLines, ← ink_strip, heq, ink_joinLines]
    have hunmarked : ∀ line ∈ lines, isHeaderOrFooter line = false := by
      intro line hline
      by_contra hmarked
      rw [Bool.not_eq_false] at hmarked
      have hblank : ink line ≠ 0 := by
        intro hzero
        rw [not_marked_of_blank (beq_iff_eq.mpr hzero)] at hmarked
        cases hmarked
      have hless : inkLines (unmarkedLines lines) < inkLines lines :=
        inkLines_filter_lt ⟨line, hline, by rw [hmarked]; rfl, hblank⟩
      omega
    have hall : unmarkedLines lines = lines := by
      apply List.filter_eq_self.mpr
      intro line hline
      rw [hunmarked line hline]
      rfl
    rw [hall] at heq
    obtain ⟨hstart, hstop⟩ := (trimmed_joinLines_iff h).mp (Trim.trim_eq_self_iff.mp heq)
    exact ⟨hunmarked, hstart, hstop⟩
  · intro hplain
    have hall : unmarkedLines lines = lines := by
      apply List.filter_eq_self.mpr
      intro line hline
      rw [hplain.unmarked line hline]
      rfl
    rw [hall]
    exact Trim.trim_eq_self ((trimmed_joinLines_iff h).mpr ⟨hplain.start, hplain.stop⟩)

theorem joinLines_ne_nil {lines : List Text} (h : Trim.Trimmed isBlankLine lines)
    (hne : lines ≠ []) : joinLines lines ≠ [] := by
  obtain ⟨first, rest, rfl⟩ := List.exists_cons_of_ne_nil hne
  have hblank := h.1 first rfl
  intro hnil
  have hzero : ink (joinLines (first :: rest)) = 0 := by
    rw [hnil]
    rfl
  rw [ink_joinLines, inkLines_cons] at hzero
  have hfirst : isBlankLine first = true := beq_iff_eq.mpr (by omega)
  rw [hfirst] at hblank
  cases hblank

/-- The body of a file is archived line by line just when it is plain. -/
theorem archivedBody_eq_iff (content : Option Text) :
    archivedBody content = replacedBody content ↔
      ∀ text ∈ content, PlainBody (stateBody text) := by
  cases content with
  | none => simp [archivedBody, replacedBody]
  | some text =>
      have htrimmed := trimmed_stateBody text
      simp only [archivedBody, replacedBody, Option.map_some, Option.mem_some_iff, forall_eq']
      rw [stripCurrentHeaderFooter_eq, ← archived_eq_iff htrimmed]
      by_cases hnil : stateBody text = []
      · rw [hnil]
        exact ⟨fun _ => rfl, fun _ => rfl⟩
      · have hbody : (stateBody text).isEmpty = false := by simpa using hnil
        have hink := joinLines_ne_nil htrimmed hnil
        rw [Option.filter_some (a := stateBody text), hbody, Bool.not_false, if_pos rfl,
          Option.map_some, Option.filter_some]
        split_ifs with harchived
        · exact ⟨fun h => Option.some.inj h, fun h => congrArg some h⟩
        · have hempty : strip (joinLines (unmarkedLines (stateBody text))) = [] := by
            simpa using harchived
          rw [hempty]
          constructor
          · intro h
            cases h
          · intro h
            exact absurd h.symm hink

/-! ## The body of a written file -/

/-- The history as a reader of the store gets it. -/
def StateFiles.readHistory (files : StateFiles) : Text :=
  (readFile files.history).getD []

/-- The body that an update replaces, under the time of the update. -/
def replacedSnapshot? (files : StateFiles) (update : Update) : Option Snapshot :=
  (replacedBody files.source).map fun body => { time := update.time, body := body }

/-- The bodies that a run replaces, in order. -/
def replacedSnapshots (tables : UnicodeTables) (files : StateFiles) :
    List Update → List Snapshot
  | [] => []
  | update :: rest =>
      (replacedSnapshot? files update).toList ++
        replacedSnapshots tables (updateState tables files update.delta update.time).1 rest

/-- Every update of a run replaces a plain body. -/
def PlainRun (tables : UnicodeTables) (files : StateFiles) : List Update → Prop
  | [] => True
  | update :: rest =>
      (∀ text ∈ files.source, PlainBody (stateBody text)) ∧
        PlainRun tables (updateState tables files update.delta update.time).1 rest

/-- After the run the history holds what it held and one section for each body replaced. -/
def ArchivesRun (tables : UnicodeTables) (files : StateFiles) (updates : List Update) : Prop :=
  (runUpdates tables files updates).readHistory =
    files.readHistory ++ (replacedSnapshots tables files updates).flatMap Snapshot.entry

theorem readHistory_updateState (tables : UnicodeTables) (files : StateFiles) (update : Update) :
    (updateState tables files update.delta update.time).1.readHistory =
      files.readHistory ++ (snapshot? files update).toList.flatMap Snapshot.entry := by
  unfold StateFiles.readHistory
  rw [history_updateState]
  cases hbody : archivedBody files.source with
  | none => simp [snapshot?, hbody]
  | some body =>
      have hsnapshot : snapshot? files update = some { time := update.time, body := body } := by
        rw [snapshot?, hbody]
        rfl
      have hentry := cr_notMem_entry (cr_notMem_of_snapshot? hsnapshot)
      have hold : '\r' ∉ (readFile files.history).getD [] := by
        cases files.history with
        | none => exact List.not_mem_nil
        | some text => exact notMem_universalNewlines text
      have hnew : '\r' ∉ (readFile files.history).getD [] ++
          Snapshot.entry { time := update.time, body := body } := by
        rw [List.mem_append, not_or]
        exact ⟨hold, hentry⟩
      rw [hsnapshot, Option.toList_some, List.flatMap_singleton]
      exact universalNewlines_of_notMem hnew

theorem entry_injective {time : UtcMinute} {body other : Text}
    (h : Snapshot.entry ⟨time, body⟩ = Snapshot.entry ⟨time, other⟩) : body = other := by
  simpa [Snapshot.entry, formatHistoryEntry] using h

/-- One update archives the body it replaces just when the body is plain. -/
theorem archives_one_iff {tables : UnicodeTables} {files : StateFiles} {update : Update} :
    ArchivesRun tables files [update] ↔ ∀ text ∈ files.source, PlainBody (stateBody text) := by
  rw [← archivedBody_eq_iff, ArchivesRun, runUpdates, runUpdates, readHistory_updateState,
    List.append_cancel_left_eq, replacedSnapshots, replacedSnapshots, List.append_nil, snapshot?,
    replacedSnapshot?]
  constructor
  · intro h
    cases harchived : archivedBody files.source with
    | none =>
        cases hreplaced : replacedBody files.source with
        | none => rfl
        | some body =>
            rw [harchived, hreplaced] at h
            simp only [Option.map_none, Option.toList_none, List.flatMap_nil, Option.map_some,
              Option.toList_some, List.flatMap_cons, List.append_nil] at h
            exact absurd h.symm (entry_ne_nil _)
    | some archived =>
        cases hreplaced : replacedBody files.source with
        | none =>
            rw [harchived, hreplaced] at h
            simp only [Option.map_none, Option.toList_none, List.flatMap_nil, Option.map_some,
              Option.toList_some, List.flatMap_cons, List.append_nil] at h
            exact absurd h (entry_ne_nil _)
        | some body =>
            rw [harchived, hreplaced] at h
            simp only [Option.map_some, Option.toList_some, List.flatMap_cons, List.flatMap_nil,
              List.append_nil] at h
            rw [entry_injective h]
  · intro h
    rw [h]

/-- An update that archives the body it replaces can be taken off the front of a run. -/
theorem archives_cons_iff {tables : UnicodeTables} {files : StateFiles} {update : Update}
    {rest : List Update} (h : ArchivesRun tables files [update]) :
    ArchivesRun tables files (update :: rest) ↔
      ArchivesRun tables (updateState tables files update.delta update.time).1 rest := by
  have hone : (updateState tables files update.delta update.time).1.readHistory =
      files.readHistory ++ (replacedSnapshot? files update).toList.flatMap Snapshot.entry := by
    unfold ArchivesRun at h
    rw [replacedSnapshots, replacedSnapshots, List.append_nil] at h
    exact h
  unfold ArchivesRun
  rw [runUpdates, replacedSnapshots, hone, List.flatMap_append, List.append_assoc]

/-- Along a run of updates from any files the history holds, after each update, every body
replaced so far, line by line and in order, just when every body replaced is plain: no line of it
has the shape of a header or a footer, and it starts and ends without white space. -/
theorem state_archive_iff (tables : UnicodeTables) (files : StateFiles) (updates : List Update) :
    (∀ front, front <+: updates → ArchivesRun tables files front) ↔
      PlainRun tables files updates := by
  induction updates generalizing files with
  | nil =>
      constructor
      · exact fun _ => trivial
      · intro _ front hfront
        rw [List.prefix_nil.mp hfront]
        exact (List.append_nil _).symm
  | cons update rest ih =>
      rw [PlainRun, ← archives_one_iff, ← ih]
      constructor
      · intro h
        have hone := h [update] (List.prefix_append [update] rest)
        refine ⟨hone, fun front hfront => ?_⟩
        exact (archives_cons_iff hone).mp (h _ (List.cons_prefix_cons.mpr ⟨rfl, hfront⟩))
      · rintro ⟨hone, hrest⟩ front hfront
        cases front with
        | nil => exact (List.append_nil _).symm
        | cons first front =>
            obtain ⟨rfl, htail⟩ := List.cons_prefix_cons.mp hfront
            exact (archives_cons_iff hone).mpr (hrest front htail)

def noon (day : Fin 28) : UtcMinute :=
  ⟨2025, 1, day + 1, 12, 0, by decide, by decide, by omega, by decide, by decide⟩

/-- A line of a delta that starts as the header does is not archived. -/
theorem header_line_lost :
    ¬ ∀ (files : StateFiles) (updates front : List Update), front <+: updates →
      ArchivesRun .ascii files front := by
  intro h
  have hlost : ¬ ArchivesRun .ascii ⟨some "# Current State\n\nNothing yet.\n".toList, none, none⟩
      [⟨"- queue: empty\n# Current State of the cache: cold".toList, noon 0⟩,
        ⟨"- queue: full".toList, noon 1⟩] := by
    unfold ArchivesRun
    decide +kernel
  exact hlost (h _ _ _ (List.prefix_refl _))

/-! ## Runs of plain deltas -/

end State
end Core
end Nauro
