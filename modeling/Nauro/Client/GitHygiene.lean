import Nauro.Core.QuestionProvenanceCodec
import Nauro.Foundation.ManagedBlock
import Nauro.Sync.Headings

/-!
# The managed block of a `.gitignore`

Paths of machine-local wiring are ignored by the lines between two markers. A call adds a path to
the block or removes one; what git and the file system answer during it is given with the call.
-/

namespace Nauro
namespace Client
namespace GitHygiene

open Foundation Foundation.EscapedUtf8 Foundation.ManagedBlock
open Nauro.Core Nauro.Sync
open Nauro.Core.QuestionProvenance (decodeUtf8 decodeUtf8_utf8)

abbrev Bytes := List UInt8

/-! ## The operations -/

def gitignoreBlockBegin : Text :=
  "# >>> nauro: machine-local wiring (regenerated per machine) >>>".toList

def gitignoreBlockEnd : Text :=
  "# <<< nauro <<<".toList

inductive GitIgnoreKind where
  | added
  | alreadyCovered
  | skippedNonGit
  | refusedSymlink
  | refusedUnreadable
  | refusedMalformedBlock
  | refusedUnwritable
  | removedEntry
  | removedBlock
  | nothingToRemove
deriving DecidableEq

/-- The path of a wiring file, relative to the repository; it is one line. -/
structure WiringPath where
  text : Text
  oneLine : ∀ c ∈ text, isLineBreak c = false

def WiringPath.entry (path : WiringPath) : Text :=
  '/' :: path.text

/-- What git and the file system answer during one call. -/
structure Answers where
  /-- `_git_root` finds a working tree. -/
  hasRoot : Bool
  /-- `_git_rel` is not `None`. -/
  inRoot : Bool
  ignored : Bool
  symlinked : Bool
  /-- The write, or the removal of the file, succeeds. -/
  writable : Bool

/-- `_read_gitignore_lines`. -/
def readGitignoreLines : Option Bytes → Option (List Text)
  | none => some []
  | some bytes =>
      match decodeUtf8 bytes with
      | .ok text => some (splitlines (universalNewlines text))
      | .error _ => none

def isBlank (line : Text) : Bool :=
  (strip line).isEmpty

/-- `"\n".join(lines) + "\n"`, encoded. -/
def render (lines : List Text) : Bytes :=
  utf8 (joinLines lines ++ ['\n'])

/-- The lines with an entry added, or why none is. -/
def addEntry (lines : List Text) (entry : Text) : Except GitIgnoreKind (List Text) :=
  match findBlock gitignoreBlockBegin gitignoreBlockEnd lines with
  | none =>
      if gitignoreBlockBegin ∈ lines then .error .refusedMalformedBlock
      else
        let lines := if lines.getLast?.any fun line => !isBlank line then lines ++ [[]] else lines
        .ok (lines ++ [gitignoreBlockBegin, entry, gitignoreBlockEnd])
  | some (first, last) =>
      if entry ∈ (lines.take last).drop (first + 1) then .error .alreadyCovered
      else .ok (lines.take last ++ entry :: lines.drop last)

/-- The lines with an entry removed, or why none is. -/
def dropEntry (lines : List Text) (entry : Text) : Except GitIgnoreKind (GitIgnoreKind × List Text) :=
  match findBlock gitignoreBlockBegin gitignoreBlockEnd lines with
  | none =>
      if gitignoreBlockBegin ∈ lines then .error .refusedMalformedBlock
      else .error .nothingToRemove
  | some (first, last) =>
      let entries := (lines.take last).drop (first + 1)
      if entry ∉ entries then .error .nothingToRemove
      else
        let remaining := entries.filter fun line => line ≠ entry
        if remaining ≠ [] then
          .ok (.removedEntry, lines.take (first + 1) ++ remaining ++ lines.drop last)
        else
          let before := lines.take first
          let before := if before.getLast?.any isBlank then before.dropLast else before
          .ok (.removedBlock, before ++ lines.drop (last + 1))

/-- `ensure_wiring_ignored`. -/
def ensureWiringIgnored (answers : Answers) (file : Option Bytes) (path : WiringPath) :
    GitIgnoreKind × Option Bytes :=
  if !answers.hasRoot || !answers.inRoot then (.skippedNonGit, file)
  else if answers.ignored then (.alreadyCovered, file)
  else if answers.symlinked then (.refusedSymlink, file)
  else
    match readGitignoreLines file with
    | none => (.refusedUnreadable, file)
    | some lines =>
        match addEntry lines path.entry with
        | .error kind => (kind, file)
        | .ok lines =>
            if answers.writable then (.added, some (render lines)) else (.refusedUnwritable, file)

/-- `remove_wiring_ignore_entry`. -/
def removeWiringIgnoreEntry (answers : Answers) (file : Option Bytes) (path : WiringPath) :
    GitIgnoreKind × Option Bytes :=
  if !answers.hasRoot then (.skippedNonGit, file)
  else if answers.symlinked then (.refusedSymlink, file)
  else if file.isNone then (.nothingToRemove, file)
  else
    match readGitignoreLines file with
    | none => (.refusedUnreadable, file)
    | some lines =>
        match dropEntry lines path.entry with
        | .error kind => (kind, file)
        | .ok (kind, lines) =>
            if !answers.writable then (.refusedUnwritable, file)
            else if lines.any fun line => !isBlank line then (kind, some (render lines))
            else (kind, none)

/-! ## Files of whole lines -/

/-- No line holds a character that ends lines. -/
def Clean (lines : List Text) : Prop :=
  ∀ line ∈ lines, ∀ c ∈ line, isLineBreak c = false

/-- Lines with a newline after each. -/
def textOf (lines : List Text) : Text :=
  lines.flatMap (· ++ ['\n'])

theorem textOf_append (front back : List Text) : textOf (front ++ back) = textOf front ++ textOf back :=
  List.flatMap_append

theorem textOf_cons (line : Text) (lines : List Text) :
    textOf (line :: lines) = line ++ '\n' :: textOf lines := by
  rw [textOf, List.flatMap_cons, List.append_assoc]
  rfl

theorem Clean.append {front back : List Text} (hfront : Clean front) (hback : Clean back) :
    Clean (front ++ back) := by
  intro line hline
  rcases List.mem_append.mp hline with hin | hin
  · exact hfront line hin
  · exact hback line hin

theorem Clean.of_subset {lines more : List Text} (h : Clean more) (hsub : ∀ line ∈ lines, line ∈ more) :
    Clean lines := fun line hline => h line (hsub line hline)

theorem cr_notMem_textOf {lines : List Text} (h : Clean lines) : '\r' ∉ textOf lines := by
  intro hin
  obtain ⟨line, hline, hc⟩ := List.mem_flatMap.mp hin
  rcases List.mem_append.mp hc with hc | hc
  · exact absurd (h line hline '\r' hc) (by decide)
  · cases List.mem_singleton.mp hc

theorem render_eq {lines : List Text} (hne : lines ≠ []) : render lines = utf8 (textOf lines) := by
  have hjoin : joinLines lines ++ ['\n'] = textOf lines := by
    induction lines with
    | nil => exact absurd rfl hne
    | cons line lines ih =>
        cases lines with
        | nil => simp [joinLines, textOf]
        | cons second others =>
            have hrec := ih (List.cons_ne_nil _ _)
            rw [joinLines] at hrec ⊢
            rw [LineText.intercalate_cons_cons, List.append_assoc, List.cons_append, hrec]
            exact (textOf_cons line (second :: others)).symm
  rw [render, hjoin]

/-! ### Reading -/

theorem withoutEnd_line {line : Text} (h : ∀ c ∈ line, isLineBreak c = false) :
    withoutEnd (line ++ ['\n']) = line := by
  rw [withoutEnd, List.takeWhile_append_of_pos]
  · exact List.append_nil line
  · intro c hc
    rw [h c hc]
    rfl

theorem splitlinesKeepEnds_line {line : Text} (h : ∀ c ∈ line, isLineBreak c = false) :
    splitlinesKeepEnds (line ++ ['\n']) = [line ++ ['\n']] := by
  by_cases hne : line = []
  · subst hne
    rfl
  · have hinner : ∀ c ∈ line, ∀ next, endsLine c next = false := by
      intro c hc next
      rw [endsLine, h c hc]
      rfl
    exact LineCuts.cutAfter_unbroken_append hinner hne ['\n']

theorem splitlines_textOf {lines : List Text} (h : Clean lines) : splitlines (textOf lines) = lines := by
  induction lines with
  | nil => rfl
  | cons line lines ih =>
      obtain ⟨hline, hlines⟩ := List.forall_mem_cons.mp h
      have hrec := ih hlines
      rw [splitlines] at hrec ⊢
      rw [textOf, List.flatMap_cons, splitlinesKeepEnds_append List.getLast?_concat,
        splitlinesKeepEnds_line hline, List.map_append, List.map_singleton, withoutEnd_line hline]
      exact congrArg (line :: ·) hrec

theorem clean_splitlines (text : Text) : Clean (splitlines text) := by
  intro line hline c hc
  obtain ⟨whole, -, rfl⟩ := List.mem_map.mp hline
  have hall := List.mem_takeWhile_imp hc
  rwa [Bool.not_eq_true'] at hall

theorem read_textOf {lines : List Text} (h : Clean lines) :
    readGitignoreLines (some (utf8 (textOf lines))) = some lines := by
  have hread : decodeUtf8 (utf8 (textOf lines)) = .ok (textOf lines) := decodeUtf8_utf8 _
  rw [readGitignoreLines, hread]
  exact congrArg some ((congrArg splitlines (universalNewlines_of_notMem (cr_notMem_textOf h))).trans
    (splitlines_textOf h))

theorem clean_of_read {file : Option Bytes} {lines : List Text}
    (h : readGitignoreLines file = some lines) : Clean lines := by
  cases file with
  | none =>
      cases h
      exact fun _ h => absurd h List.not_mem_nil
  | some bytes =>
      rw [readGitignoreLines] at h
      split at h
      · cases h
        exact clean_splitlines _
      · cases h

/-- The file is what its lines are written as; a missing one has none. -/
inductive Holds : Option Bytes → List Text → Prop
  | absent : Holds none []
  | present {lines : List Text} (hne : lines ≠ []) (hclean : Clean lines) :
      Holds (some (utf8 (textOf lines))) lines

theorem Holds.clean {file : Option Bytes} {lines : List Text} (h : Holds file lines) :
    Clean lines := by
  cases h with
  | absent => exact fun _ h => absurd h List.not_mem_nil
  | present hne hclean => exact hclean

theorem Holds.read {file : Option Bytes} {lines : List Text} (h : Holds file lines) :
    readGitignoreLines file = some lines := by
  cases h with
  | absent => rfl
  | present hne hclean => exact read_textOf hclean

theorem Holds.getD {file : Option Bytes} {lines : List Text} (h : Holds file lines) :
    file.getD [] = utf8 (textOf lines) := by
  cases h with
  | absent => rfl
  | present hne hclean => rfl

theorem Holds.unique {file : Option Bytes} {lines lines' : List Text} (h : Holds file lines)
    (h' : Holds file lines') : lines = lines' :=
  Option.some.inj (h.read.symm.trans h'.read)

theorem Holds.file_eq {file file' : Option Bytes} {lines : List Text} (h : Holds file lines)
    (h' : Holds file' lines) : file = file' := by
  cases h with
  | absent =>
      cases h' with
      | absent => rfl
      | present hne hclean => exact absurd rfl hne
  | present hne hclean =>
      cases h' with
      | absent => exact absurd rfl hne
      | present hne' hclean' => rfl

theorem holds_render {lines : List Text} (hne : lines ≠ []) (hclean : Clean lines) :
    Holds (some (render lines)) lines := by
  rw [render_eq hne]
  exact .present hne hclean

/-! ## One call -/

theorem clean_begin : ∀ c ∈ gitignoreBlockBegin, isLineBreak c = false :=
  forall_mem_of_all (by decide)

theorem clean_end : ∀ c ∈ gitignoreBlockEnd, isLineBreak c = false :=
  forall_mem_of_all (by decide)

theorem clean_entry (path : WiringPath) : ∀ c ∈ path.entry, isLineBreak c = false :=
  List.forall_mem_cons.mpr ⟨by decide, path.oneLine⟩

theorem not_blank_begin : isBlank gitignoreBlockBegin = false := by
  decide

theorem entry_ne_end (path : WiringPath) : path.entry ≠ gitignoreBlockEnd := by
  intro h
  exact absurd (List.cons.inj h).1 (by decide)

/-- A cut at the managed block. -/
abbrev Cut (lines front inner back : List Text) : Prop :=
  Split gitignoreBlockBegin gitignoreBlockEnd lines front inner back

/-- The managed block with its entries. -/
abbrev managed (inner : List Text) : List Text :=
  block gitignoreBlockBegin gitignoreBlockEnd inner

/-- Lines with a separator behind them, unless the last one is blank. -/
def separated (lines : List Text) : List Text :=
  if lines.getLast?.any fun line => !isBlank line then lines ++ [[]] else lines

/-- Lines without a blank line at their end. -/
def unseparated (lines : List Text) : List Text :=
  if lines.getLast?.any isBlank then lines.dropLast else lines

theorem addEntry_opened {lines : List Text} (h : gitignoreBlockBegin ∉ lines) (entry : Text) :
    addEntry lines entry = .ok (separated lines ++ managed [entry]) := by
  rw [addEntry, findBlock_of_notMem h]
  simp only
  rw [if_neg h]
  rfl

theorem addEntry_orphaned {lines : List Text}
    (h : Orphaned gitignoreBlockBegin gitignoreBlockEnd lines) (entry : Text) :
    addEntry lines entry = .error .refusedMalformedBlock := by
  rw [addEntry, h.findBlock]
  simp only
  rw [if_pos h.mem]

theorem addEntry_covered {lines front inner back : List Text} (h : Cut lines front inner back)
    {entry : Text} (hin : entry ∈ inner) : addEntry lines entry = .error .alreadyCovered := by
  rw [addEntry, h.findBlock]
  simp only
  rw [h.inner_eq, if_pos hin]

theorem addEntry_extended {lines front inner back : List Text} (h : Cut lines front inner back)
    {entry : Text} (hnew : entry ∉ inner) :
    addEntry lines entry = .ok (front ++ (managed (inner ++ [entry]) ++ back)) := by
  rw [addEntry, h.findBlock]
  simp only
  rw [h.inner_eq, if_neg hnew, h.take_last, h.drop_last]
  simp [managed, block]

theorem dropEntry_plain {lines : List Text} (h : gitignoreBlockBegin ∉ lines) (entry : Text) :
    dropEntry lines entry = .error .nothingToRemove := by
  rw [dropEntry, findBlock_of_notMem h]
  simp only
  rw [if_neg h]

theorem dropEntry_orphaned {lines : List Text}
    (h : Orphaned gitignoreBlockBegin gitignoreBlockEnd lines) (entry : Text) :
    dropEntry lines entry = .error .refusedMalformedBlock := by
  rw [dropEntry, h.findBlock]
  simp only
  rw [if_pos h.mem]

theorem dropEntry_missing {lines front inner back : List Text} (h : Cut lines front inner back)
    {entry : Text} (hnot : entry ∉ inner) : dropEntry lines entry = .error .nothingToRemove := by
  rw [dropEntry, h.findBlock]
  simp only
  rw [h.inner_eq, if_pos hnot]

/-- The entries without one of them. -/
def without (entry : Text) (inner : List Text) : List Text :=
  inner.filter fun line => line ≠ entry

theorem dropEntry_entry {lines front inner back : List Text} (h : Cut lines front inner back)
    {entry : Text} (hin : entry ∈ inner) (hne : without entry inner ≠ []) :
    dropEntry lines entry =
      .ok (.removedEntry, front ++ (managed (without entry inner) ++ back)) := by
  rw [dropEntry, h.findBlock]
  simp only
  rw [h.inner_eq, if_neg (not_not_intro hin)]
  change (if without entry inner ≠ [] then _ else _) = _
  rw [if_pos hne, h.take_opening, h.drop_last]
  simp [managed, block, without]

theorem dropEntry_block {lines front inner back : List Text} (h : Cut lines front inner back)
    {entry : Text} (hin : entry ∈ inner) (hnil : without entry inner = []) :
    dropEntry lines entry = .ok (.removedBlock, unseparated front ++ back) := by
  rw [dropEntry, h.findBlock]
  simp only
  rw [h.inner_eq, if_neg (not_not_intro hin)]
  change (if without entry inner ≠ [] then _ else _) = _
  rw [if_neg (not_not_intro hnil), h.take_first, h.drop_behind]
  rfl

end GitHygiene
end Client
end Nauro
