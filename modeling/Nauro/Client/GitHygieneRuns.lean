import Nauro.Client.GitHygiene

/-!
# Runs of the managed block

A run is any sequence of calls, each with its own answers of git and the file system.
-/

namespace Nauro
namespace Client
namespace GitHygiene

open Foundation Foundation.EscapedUtf8 Foundation.ManagedBlock
open Nauro.Core Nauro.Sync

/-! ## Runs -/

inductive Op where
  | ensure
  | remove
deriving DecidableEq

structure Call where
  op : Op
  path : WiringPath
  answers : Answers

/-- The file, and what the calls so far have done to it. -/
structure Run where
  file : Option Bytes
  /-- A call added the block without a separator in front of it. -/
  bare : Bool := false
  /-- The entries that calls added and none has removed since, the last one first. -/
  outstanding : List Text := []
  /-- No call removed an entry that no call had added. -/
  untouched : Bool := true

/-- Whether a block added to the file gets no separator. -/
def opensBare (file : Option Bytes) : Bool :=
  (readGitignoreLines file).any fun lines => decide (separated lines = lines)

def hasBlock (file : Option Bytes) : Bool :=
  (readGitignoreLines file).any fun lines =>
    (findBlock gitignoreBlockBegin gitignoreBlockEnd lines).isSome

def IsRemoval (kind : GitIgnoreKind) : Prop :=
  kind = .removedEntry ∨ kind = .removedBlock

instance (kind : GitIgnoreKind) : Decidable (IsRemoval kind) :=
  inferInstanceAs (Decidable (kind = .removedEntry ∨ kind = .removedBlock))

def step (run : Run) (call : Call) : Run :=
  match call.op with
  | .ensure =>
      let result := ensureWiringIgnored call.answers run.file call.path
      if result.1 = .added then
        { run with
          file := result.2
          bare := if hasBlock run.file then run.bare else opensBare run.file
          outstanding := call.path.entry :: run.outstanding }
      else { run with file := result.2 }
  | .remove =>
      let result := removeWiringIgnoreEntry call.answers run.file call.path
      if IsRemoval result.1 then
        { file := result.2
          bare := if result.1 = .removedBlock then false else run.bare
          outstanding := without call.path.entry run.outstanding
          untouched := run.untouched && decide (call.path.entry ∈ run.outstanding) }
      else { run with file := result.2 }

def runCalls (run : Run) : List Call → Run
  | [] => run
  | call :: more => runCalls (step run call) more

/-- A call changes no byte outside the block, and the separator in front of it only with the whole
block; an empty line is a separator unless the block was added without one. -/
inductive Framed (bare : Bool) : Option Bytes → Option Bytes → Prop
  | same {file : Option Bytes} : Framed bare file file
  | opened {file : Option Bytes} {lines separator inner : List Text}
      (hread : readGitignoreLines file = some lines) (hplain : gitignoreBlockBegin ∉ lines)
      (hseparator : separator = [] ∨ separator = [[]]) :
      Framed bare file (some (file.getD [] ++ utf8 (textOf (separator ++ managed inner))))
  | changed {file file' : Option Bytes} {lines lines' front inner inner' back : List Text}
      (hcut : Cut lines front inner back) (hcut' : Cut lines' front inner' back)
      (hfile : Holds file lines) (hfile' : Holds file' lines') : Framed bare file file'
  | closed {file file' : Option Bytes} {lines front separator inner back : List Text}
      (hseparator : separator = [] ∨ separator = [[]] ∧ bare = false)
      (hcut : Cut lines (front ++ separator) inner back) (hfile : Holds file lines)
      (hfile' : Holds file' (front ++ back)) : Framed bare file file'

/-- In every run from the file, every call is framed, and the file is what it was at first whenever
all that was added is removed again, and nothing else is. -/
def Faithful (initial : Option Bytes) : Prop :=
  ∀ (calls : List Call) (call : Call),
    Framed (runCalls ⟨initial, false, [], true⟩ calls).bare
        (runCalls ⟨initial, false, [], true⟩ calls).file
        (step (runCalls ⟨initial, false, [], true⟩ calls) call).file ∧
      ((runCalls ⟨initial, false, [], true⟩ calls).outstanding = [] →
        (runCalls ⟨initial, false, [], true⟩ calls).untouched = true →
          (runCalls ⟨initial, false, [], true⟩ calls).file = initial)

/-! ## The files that are preserved -/

/-- Lines from which no run of calls can take a user's line: they end with a line that is not blank,
or their block cannot be closed, or it holds a line that is no entry, or what its removal leaves is
such lines again. -/
inductive Safe : List Text → Prop
  | plain {lines : List Text} {last : Text} (hplain : gitignoreBlockBegin ∉ lines)
      (hlast : lines.getLast? = some last) (hblank : isBlank last = false) : Safe lines
  | orphaned {lines : List Text} (h : Orphaned gitignoreBlockBegin gitignoreBlockEnd lines) :
      Safe lines
  | kept {lines front inner back : List Text} {line : Text} (hcut : Cut lines front inner back)
      (hline : line ∈ inner) (hkept : line.head? ≠ some '/') : Safe lines
  | dropped {lines front inner back : List Text} (hcut : Cut lines front inner back)
      (hentries : ∀ line ∈ inner, line.head? = some '/')
      (hfront : ∀ last ∈ front.getLast?, isBlank last = true → last = [])
      (hrest : Safe (unseparated front ++ back)) : Safe lines
  | emptied {lines front inner back : List Text} (hcut : Cut lines front inner back)
      (hentries : ∀ line ∈ inner, line.head? = some '/')
      (hfront : ∀ last ∈ front.getLast?, isBlank last = true → last = [])
      (hrest : unseparated front ++ back = []) : Safe lines

/-- A missing file; a file that cannot be decoded; a block that nothing closes; or safe lines with a
newline after each, in which the block, if there is one, is not empty. -/
def Preserved (initial : Option Bytes) : Prop :=
  initial = none ∨
    ∀ lines, readGitignoreLines initial = some lines →
      Orphaned gitignoreBlockBegin gitignoreBlockEnd lines ∨
        (Holds initial lines ∧ Safe lines ∧ ∀ front back, ¬ Cut lines front [] back)

/-! ## One call -/

theorem addEntry_error {lines : List Text} {entry : Text} {kind : GitIgnoreKind}
    (h : addEntry lines entry = .error kind) : kind ≠ .added := by
  rcases findBlock_cases gitignoreBlockBegin gitignoreBlockEnd lines with
    hplain | horphaned | ⟨front, inner, back, hcut⟩
  · rw [addEntry_opened hplain] at h
    cases h
  · rw [addEntry_orphaned horphaned] at h
    cases h
    decide
  · by_cases hin : entry ∈ inner
    · rw [addEntry_covered hcut hin] at h
      cases h
      decide
    · rw [addEntry_extended hcut hin] at h
      cases h

theorem dropEntry_error {lines : List Text} {entry : Text} {kind : GitIgnoreKind}
    (h : dropEntry lines entry = .error kind) : ¬ IsRemoval kind := by
  rcases findBlock_cases gitignoreBlockBegin gitignoreBlockEnd lines with
    hplain | horphaned | ⟨front, inner, back, hcut⟩
  · rw [dropEntry_plain hplain] at h
    cases h
    decide
  · rw [dropEntry_orphaned horphaned] at h
    cases h
    decide
  · by_cases hin : entry ∈ inner
    · by_cases hnil : without entry inner = []
      · rw [dropEntry_block hcut hin hnil] at h
        cases h
      · rw [dropEntry_entry hcut hin hnil] at h
        cases h
    · rw [dropEntry_missing hcut hin] at h
      cases h
      decide

theorem ensure_cases (answers : Answers) (file : Option Bytes) (path : WiringPath) :
    ((ensureWiringIgnored answers file path).1 ≠ .added ∧
        (ensureWiringIgnored answers file path).2 = file) ∨
      ∃ lines lines', readGitignoreLines file = some lines ∧
        addEntry lines path.entry = .ok lines' ∧
          ensureWiringIgnored answers file path = (.added, some (render lines')) := by
  unfold ensureWiringIgnored
  by_cases hroot : (!answers.hasRoot || !answers.inRoot) = true
  · rw [if_pos hroot]
    exact Or.inl ⟨by rintro ⟨⟩, rfl⟩
  · rw [if_neg hroot]
    by_cases hignored : answers.ignored = true
    · rw [if_pos hignored]
      exact Or.inl ⟨by rintro ⟨⟩, rfl⟩
    · rw [if_neg hignored]
      by_cases hsymlink : answers.symlinked = true
      · rw [if_pos hsymlink]
        exact Or.inl ⟨by rintro ⟨⟩, rfl⟩
      · rw [if_neg hsymlink]
        cases hread : readGitignoreLines file with
        | none => exact Or.inl ⟨by rintro ⟨⟩, rfl⟩
        | some lines =>
            simp only
            cases hadd : addEntry lines path.entry with
            | error kind => exact Or.inl ⟨addEntry_error hadd, rfl⟩
            | ok lines' =>
                by_cases hwritable : answers.writable = true
                · simp only
                  rw [if_pos hwritable]
                  exact Or.inr ⟨lines, lines', rfl, hadd, rfl⟩
                · simp only
                  rw [if_neg hwritable]
                  exact Or.inl ⟨by rintro ⟨⟩, rfl⟩

/-- The file that lines are left in: none when all of them are blank. -/
def leftIn (lines : List Text) : Option Bytes :=
  if lines.any fun line => !isBlank line then some (render lines) else none

theorem remove_cases (answers : Answers) (file : Option Bytes) (path : WiringPath) :
    (¬ IsRemoval (removeWiringIgnoreEntry answers file path).1 ∧
        (removeWiringIgnoreEntry answers file path).2 = file) ∨
      ∃ lines kind lines', readGitignoreLines file = some lines ∧
        dropEntry lines path.entry = .ok (kind, lines') ∧
          removeWiringIgnoreEntry answers file path = (kind, leftIn lines') := by
  unfold removeWiringIgnoreEntry
  by_cases hroot : (!answers.hasRoot) = true
  · rw [if_pos hroot]
    exact Or.inl ⟨(by decide : ¬ IsRemoval .skippedNonGit), rfl⟩
  · rw [if_neg hroot]
    by_cases hsymlink : answers.symlinked = true
    · rw [if_pos hsymlink]
      exact Or.inl ⟨(by decide : ¬ IsRemoval .refusedSymlink), rfl⟩
    · rw [if_neg hsymlink]
      by_cases hnone : file.isNone = true
      · rw [if_pos hnone]
        exact Or.inl ⟨(by decide : ¬ IsRemoval .nothingToRemove), rfl⟩
      · rw [if_neg hnone]
        cases hread : readGitignoreLines file with
        | none => exact Or.inl ⟨(by decide : ¬ IsRemoval .refusedUnreadable), rfl⟩
        | some lines =>
            simp only
            cases hdrop : dropEntry lines path.entry with
            | error kind => exact Or.inl ⟨dropEntry_error hdrop, rfl⟩
            | ok result =>
                obtain ⟨kind, lines'⟩ := result
                by_cases hwritable : answers.writable = true
                · refine Or.inr ⟨lines, kind, lines', rfl, hdrop, ?_⟩
                  rw [leftIn, hwritable]
                  simp only [Bool.not_true, Bool.false_eq_true, if_false]
                  split <;> rfl
                · rw [Bool.not_eq_true] at hwritable
                  rw [hwritable]
                  exact Or.inl ⟨(by decide : ¬ IsRemoval .refusedUnwritable), rfl⟩

theorem clean_of_cut {lines front inner back : List Text} (hclean : Clean lines)
    (hcut : Cut lines front inner back) : Clean front ∧ Clean inner ∧ Clean back := by
  rw [hcut.lines_eq, block] at hclean
  refine ⟨hclean.of_subset fun line hin => ?_, hclean.of_subset fun line hin => ?_,
    hclean.of_subset fun line hin => ?_⟩
  · exact List.mem_append_left _ hin
  · exact List.mem_append_right _ (List.mem_append_left _ (List.mem_cons_of_mem _
      (List.mem_append_left _ hin)))
  · exact List.mem_append_right _ (List.mem_append_right _ hin)

theorem clean_managed {inner : List Text} (hinner : Clean inner) : Clean (managed inner) := by
  refine List.forall_mem_cons.mpr ⟨clean_begin, hinner.append ?_⟩
  exact List.forall_mem_singleton.mpr clean_end

theorem holds_of_lines {front inner back : List Text} (hfront : Clean front)
    (hinner : Clean inner) (hback : Clean back) :
    Holds (some (render (front ++ (managed inner ++ back)))) (front ++ (managed inner ++ back)) := by
  refine holds_render ?_ (hfront.append ((clean_managed hinner).append hback))
  intro hnil
  exact absurd (List.append_eq_nil_iff.mp (List.append_eq_nil_iff.mp hnil).2).1
    (List.cons_ne_nil _ _)

theorem leftIn_of_block (front inner back : List Text) :
    leftIn (front ++ (managed inner ++ back)) =
      some (render (front ++ (managed inner ++ back))) := by
  refine if_pos (List.any_eq_true.mpr ⟨gitignoreBlockBegin, ?_, ?_⟩)
  · exact List.mem_append_right _ (List.mem_append_left _ (List.mem_cons_self ..))
  · rw [not_blank_begin]
    rfl

theorem Holds.leftIn {lines : List Text} (hclean : Clean lines)
    (hlines : lines = [] ∨ ∃ line ∈ lines, isBlank line = false) : Holds (leftIn lines) lines := by
  rcases hlines with rfl | ⟨line, hin, hblank⟩
  · exact .absent
  · rw [GitHygiene.leftIn, if_pos (List.any_eq_true.mpr ⟨line, hin, by rw [hblank]; rfl⟩)]
    exact holds_render (List.ne_nil_of_mem hin) hclean

/-! ## Steps -/

theorem step_ensure {run : Run} {call : Call} (hop : call.op = .ensure) :
    step run call = run ∨ ∃ lines lines', readGitignoreLines run.file = some lines ∧
      addEntry lines call.path.entry = .ok lines' ∧
        step run call =
          { run with
            file := some (render lines')
            bare := if hasBlock run.file then run.bare else opensBare run.file
            outstanding := call.path.entry :: run.outstanding } := by
  rcases ensure_cases call.answers run.file call.path with
    ⟨hkind, hfile⟩ | ⟨lines, lines', hread, hadd, hresult⟩
  · refine Or.inl ?_
    unfold step
    rw [hop]
    simp only
    rw [if_neg hkind, hfile]
  · refine Or.inr ⟨lines, lines', hread, hadd, ?_⟩
    unfold step
    rw [hop]
    simp only
    rw [hresult, if_pos rfl]

theorem step_remove {run : Run} {call : Call} (hop : call.op = .remove) :
    step run call = run ∨ ∃ lines kind lines', readGitignoreLines run.file = some lines ∧
      dropEntry lines call.path.entry = .ok (kind, lines') ∧
        step run call =
          { file := leftIn lines'
            bare := if kind = .removedBlock then false else run.bare
            outstanding := without call.path.entry run.outstanding
            untouched := run.untouched && decide (call.path.entry ∈ run.outstanding) } := by
  rcases remove_cases call.answers run.file call.path with
    ⟨hkind, hfile⟩ | ⟨lines, kind, lines', hread, hdrop, hresult⟩
  · refine Or.inl ?_
    unfold step
    rw [hop]
    simp only
    rw [if_neg hkind, hfile]
  · refine Or.inr ⟨lines, kind, lines', hread, hdrop, ?_⟩
    have hkind : IsRemoval kind := by
      rcases findBlock_cases gitignoreBlockBegin gitignoreBlockEnd lines with
        hplain | horphaned | ⟨front, inner, back, hcut⟩
      · rw [dropEntry_plain hplain] at hdrop
        cases hdrop
      · rw [dropEntry_orphaned horphaned] at hdrop
        cases hdrop
      · by_cases hin : call.path.entry ∈ inner
        · by_cases hnil : without call.path.entry inner = []
          · rw [dropEntry_block hcut hin hnil] at hdrop
            cases hdrop
            exact Or.inr rfl
          · rw [dropEntry_entry hcut hin hnil] at hdrop
            cases hdrop
            exact Or.inl rfl
        · rw [dropEntry_missing hcut hin] at hdrop
          cases hdrop
    unfold step
    rw [hop]
    simp only
    rw [hresult, if_pos hkind]

/-! ## Safe lines stay safe -/

theorem exists_not_blank_of_safe {lines : List Text} (h : Safe lines) :
    ∃ line ∈ lines, isBlank line = false := by
  cases h with
  | plain hplain hlast hblank => exact ⟨_, List.mem_of_getLast? hlast, hblank⟩
  | orphaned h => exact ⟨_, h.mem, not_blank_begin⟩
  | kept hcut hline hkept => exact ⟨_, hcut.mem, not_blank_begin⟩
  | dropped hcut hentries hfront hrest => exact ⟨_, hcut.mem, not_blank_begin⟩
  | emptied hcut hentries hfront hrest => exact ⟨_, hcut.mem, not_blank_begin⟩

/-- Lines a run may hold: none, or safe ones. -/
def Sound (lines : List Text) : Prop :=
  lines = [] ∨ Safe lines

theorem not_cut_nil {front inner back : List Text} : ¬ Cut [] front inner back := by
  intro h
  exact absurd h.mem List.not_mem_nil

/-- A separator is put behind lines that end with one that is not blank, and taken away again. -/
theorem unseparated_separated {lines : List Text}
    (h : lines = [] ∨ ∃ last, lines.getLast? = some last ∧ isBlank last = false) :
    unseparated (separated lines) = lines := by
  rcases h with rfl | ⟨last, hlast, hblank⟩
  · rfl
  · have hsep : separated lines = lines ++ [[]] := by
      rw [separated, hlast, Option.any_some, hblank]
      rfl
    have hnil : isBlank [] = true := rfl
    rw [hsep, unseparated, List.getLast?_concat, Option.any_some, hnil, if_pos rfl,
      List.dropLast_concat]

/-- The separator of some lines. -/
theorem separated_eq (lines : List Text) :
    ∃ separator, separated lines = lines ++ separator ∧ (separator = [] ∨ separator = [[]]) := by
  unfold separated
  split
  · exact ⟨[[]], rfl, Or.inr rfl⟩
  · exact ⟨[], (List.append_nil _).symm, Or.inl rfl⟩

theorem clean_separated {lines : List Text} (h : Clean lines) : Clean (separated lines) := by
  obtain ⟨separator, heq, hseparator⟩ := separated_eq lines
  rw [heq]
  refine h.append ?_
  rcases hseparator with rfl | rfl
  · exact fun _ hin => absurd hin List.not_mem_nil
  · exact List.forall_mem_singleton.mpr fun _ hc => absurd hc List.not_mem_nil

theorem begin_notMem_separated {lines : List Text} (h : gitignoreBlockBegin ∉ lines) :
    gitignoreBlockBegin ∉ separated lines := by
  obtain ⟨separator, heq, hseparator⟩ := separated_eq lines
  rw [heq]
  intro hin
  rcases List.mem_append.mp hin with hin | hin
  · exact h hin
  · rcases hseparator with rfl | rfl
    · cases hin
    · exact absurd (List.mem_singleton.mp hin) (by decide)

theorem cut_opened {lines inner : List Text} (h : gitignoreBlockBegin ∉ lines)
    (hinner : gitignoreBlockEnd ∉ inner) :
    Cut (separated lines ++ managed inner) (separated lines) inner [] :=
  ⟨by rw [List.append_nil], begin_notMem_separated h, hinner⟩

theorem cut_inner {lines front inner inner' back : List Text} (h : Cut lines front inner back)
    (hinner : gitignoreBlockEnd ∉ inner') :
    Cut (front ++ (managed inner' ++ back)) front inner' back :=
  ⟨rfl, h.front_plain, hinner⟩

theorem sound_last {lines : List Text} (h : Sound lines) (hplain : gitignoreBlockBegin ∉ lines) :
    lines = [] ∨ ∃ last, lines.getLast? = some last ∧ isBlank last = false := by
  rcases h with rfl | h
  · exact Or.inl rfl
  · cases h with
    | plain hplain' hlast hblank => exact Or.inr ⟨_, hlast, hblank⟩
    | orphaned h => exact absurd h.mem hplain
    | kept hcut hline hkept => exact absurd hcut.mem hplain
    | dropped hcut hentries hfront hrest => exact absurd hcut.mem hplain
    | emptied hcut hentries hfront hrest => exact absurd hcut.mem hplain

/-- A block with other entries is as safe. -/
theorem safe_of_entries {lines front inner inner' back : List Text} (h : Safe lines)
    (hcut : Cut lines front inner back) (hinner : gitignoreBlockEnd ∉ inner')
    (hkeep : ∀ line ∈ inner, line.head? ≠ some '/' → line ∈ inner')
    (hnew : ∀ line ∈ inner', line ∈ inner ∨ line.head? = some '/') :
    Safe (front ++ (managed inner' ++ back)) := by
  have hcut' := cut_inner hcut hinner
  have hentries' : (∀ line ∈ inner, line.head? = some '/') →
      ∀ line ∈ inner', line.head? = some '/' := by
    intro hall line hin
    rcases hnew line hin with hold | hslash
    · exact hall line hold
    · exact hslash
  cases h with
  | plain hplain hlast hblank => exact absurd hcut.mem hplain
  | orphaned h => exact absurd hcut (not_split_of_orphaned h)
  | kept hcut₀ hline hkept =>
      obtain ⟨rfl, rfl, rfl⟩ := split_unique hcut hcut₀
      exact .kept hcut' (hkeep _ hline hkept) hkept
  | dropped hcut₀ hentries hfront hrest =>
      obtain ⟨rfl, rfl, rfl⟩ := split_unique hcut hcut₀
      exact .dropped hcut' (hentries' hentries) hfront hrest
  | emptied hcut₀ hentries hfront hrest =>
      obtain ⟨rfl, rfl, rfl⟩ := split_unique hcut hcut₀
      exact .emptied hcut' (hentries' hentries) hfront hrest

/-- What is left without the block, when all its lines are one entry. -/
theorem safe_of_removed {lines front inner back : List Text} (h : Safe lines)
    (hcut : Cut lines front inner back) {entry : Text} (hslash : entry.head? = some '/')
    (hnil : without entry inner = []) :
    (∀ last ∈ front.getLast?, isBlank last = true → last = []) ∧
      Sound (unseparated front ++ back) := by
  have hall : ∀ line ∈ inner, line = entry := by
    intro line hin
    by_contra hne
    have hmem : line ∈ without entry inner := List.mem_filter.mpr ⟨hin, decide_eq_true hne⟩
    rw [hnil] at hmem
    cases hmem
  cases h with
  | plain hplain hlast hblank => exact absurd hcut.mem hplain
  | orphaned h => exact absurd hcut (not_split_of_orphaned h)
  | kept hcut₀ hline hkept =>
      obtain ⟨rfl, rfl, rfl⟩ := split_unique hcut hcut₀
      rw [hall _ hline] at hkept
      exact absurd hslash hkept
  | dropped hcut₀ hentries hfront hrest =>
      obtain ⟨rfl, rfl, rfl⟩ := split_unique hcut hcut₀
      exact ⟨hfront, Or.inr hrest⟩
  | emptied hcut₀ hentries hfront hrest =>
      obtain ⟨rfl, rfl, rfl⟩ := split_unique hcut hcut₀
      exact ⟨hfront, Or.inl hrest⟩

/-! ## The invariant of a run -/

/-- The first lines with the outstanding entries of a run in their block. -/
inductive Tracks (first : List Text) : List Text → List Text → Prop
  | start : Tracks first [] first
  | opened {entries : List Text} (hplain : gitignoreBlockBegin ∉ first) (hne : entries ≠ []) :
      Tracks first entries (separated first ++ managed entries.reverse)
  | extended {front inner back entries : List Text} (hcut : Cut first front inner back)
      (hne : entries ≠ []) (hnew : ∀ entry ∈ entries, entry ∉ inner) :
      Tracks first entries (front ++ (managed (inner ++ entries.reverse) ++ back))

/-- What holds in every state of a run that begins with a file of sound lines. -/
structure Invariant (first : List Text) (run : Run) (lines : List Text) : Prop where
  holds : Holds run.file lines
  sound : Sound lines
  tracks : run.untouched = true → Tracks first run.outstanding lines
  /-- A block without a separator stands at the beginning of the file. -/
  front_nil : run.bare = true → ∀ front inner back, Cut lines front inner back → front = []
  entries : gitignoreBlockEnd ∉ run.outstanding

theorem end_notMem_reverse {entries : List Text} (h : gitignoreBlockEnd ∉ entries) :
    gitignoreBlockEnd ∉ entries.reverse := fun hin => h (List.mem_reverse.mp hin)

theorem without_append (entry : Text) (front back : List Text) :
    without entry (front ++ back) = without entry front ++ without entry back :=
  List.filter_append ..

theorem without_reverse (entry : Text) (entries : List Text) :
    without entry entries.reverse = (without entry entries).reverse :=
  List.filter_reverse ..

theorem without_of_notMem {entry : Text} {entries : List Text} (h : entry ∉ entries) :
    without entry entries = entries := by
  refine List.filter_eq_self.mpr fun line hin => decide_eq_true ?_
  rintro rfl
  exact h hin

theorem end_notMem_without {entry : Text} {entries : List Text} (h : gitignoreBlockEnd ∉ entries) :
    gitignoreBlockEnd ∉ without entry entries := fun hin => h (List.mem_of_mem_filter hin)

/-- An added entry is outstanding. -/
theorem Tracks.add {first entries lines lines' : List Text} (h : Tracks first entries lines)
    (hend : gitignoreBlockEnd ∉ entries) (path : WiringPath)
    (hadd : addEntry lines path.entry = .ok lines') :
    Tracks first (path.entry :: entries) lines' := by
  have hcons : path.entry :: entries ≠ [] := List.cons_ne_nil _ _
  cases h with
  | start =>
      rcases findBlock_cases gitignoreBlockBegin gitignoreBlockEnd first with
        hplain | horphaned | ⟨front, inner, back, hcut⟩
      · rw [addEntry_opened hplain] at hadd
        cases hadd
        exact .opened hplain hcons
      · rw [addEntry_orphaned horphaned] at hadd
        cases hadd
      · by_cases hin : path.entry ∈ inner
        · rw [addEntry_covered hcut hin] at hadd
          cases hadd
        · rw [addEntry_extended hcut hin] at hadd
          cases hadd
          exact .extended hcut hcons (List.forall_mem_singleton.mpr hin)
  | opened hplain hne =>
      have hcut := cut_opened hplain (end_notMem_reverse hend)
      by_cases hin : path.entry ∈ entries.reverse
      · rw [addEntry_covered hcut hin] at hadd
        cases hadd
      · rw [addEntry_extended hcut hin] at hadd
        cases hadd
        have htracks := Tracks.opened hplain hcons
        rw [List.reverse_cons] at htracks
        rwa [List.append_nil]
  | @extended front inner back _ hcut hne hnew =>
      have hinner : gitignoreBlockEnd ∉ inner ++ entries.reverse := by
        intro hin
        rcases List.mem_append.mp hin with hin | hin
        · exact hcut.inner_plain hin
        · exact end_notMem_reverse hend hin
      have hcut' := cut_inner hcut hinner
      by_cases hin : path.entry ∈ inner ++ entries.reverse
      · rw [addEntry_covered hcut' hin] at hadd
        cases hadd
      · rw [addEntry_extended hcut' hin] at hadd
        cases hadd
        have hfresh : path.entry ∉ inner := fun h => hin (List.mem_append_left _ h)
        have htracks := Tracks.extended hcut hcons (List.forall_mem_cons.mpr ⟨hfresh, hnew⟩)
        rw [List.reverse_cons] at htracks
        rwa [List.append_assoc inner]

/-- An outstanding entry that is removed is not outstanding any more. -/
theorem Tracks.drop {first entries lines lines' : List Text} (h : Tracks first entries lines)
    (hsound : Sound first) (hhollow : ∀ front back, ¬ Cut first front [] back)
    (hend : gitignoreBlockEnd ∉ entries) {entry : Text} (hin : entry ∈ entries)
    {kind : GitIgnoreKind} (hdrop : dropEntry lines entry = .ok (kind, lines')) :
    Tracks first (without entry entries) lines' := by
  cases h with
  | start => cases hin
  | opened hplain hne =>
      have hcut := cut_opened hplain (end_notMem_reverse hend)
      have hin' := List.mem_reverse.mpr hin
      by_cases hnil : without entry entries = []
      · have hnil' : without entry entries.reverse = [] := by
          rw [without_reverse, hnil]
          rfl
        rw [dropEntry_block hcut hin' hnil'] at hdrop
        cases hdrop
        rw [hnil, List.append_nil, unseparated_separated (sound_last hsound hplain)]
        exact .start
      · have hne' : without entry entries.reverse ≠ [] := by
          rw [without_reverse]
          exact fun h => hnil (List.reverse_eq_nil_iff.mp h)
        rw [dropEntry_entry hcut hin' hne'] at hdrop
        cases hdrop
        rw [without_reverse, List.append_nil]
        exact .opened hplain hnil
  | @extended front inner back _ hcut hne hnew =>
      have hinner : gitignoreBlockEnd ∉ inner ++ entries.reverse := by
        intro hin
        rcases List.mem_append.mp hin with hin | hin
        · exact hcut.inner_plain hin
        · exact end_notMem_reverse hend hin
      have hcut' := cut_inner hcut hinner
      have hin' : entry ∈ inner ++ entries.reverse :=
        List.mem_append_right _ (List.mem_reverse.mpr hin)
      have hwithout : without entry (inner ++ entries.reverse) =
          inner ++ (without entry entries).reverse := by
        rw [without_append, without_of_notMem (hnew entry hin), without_reverse]
      have hne' : without entry (inner ++ entries.reverse) ≠ [] := by
        rw [hwithout]
        intro hnil
        rw [(List.append_eq_nil_iff.mp hnil).1] at hcut
        exact hhollow front back hcut
      rw [dropEntry_entry hcut' hin' hne'] at hdrop
      cases hdrop
      rw [hwithout]
      by_cases hnil : without entry entries = []
      · rw [hnil, List.reverse_nil, List.append_nil, ← hcut.lines_eq]
        exact .start
      · exact .extended hcut hnil fun e he => hnew e (List.mem_of_mem_filter he)

/-- When nothing is outstanding the lines are the first ones. -/
theorem Tracks.eq {first lines : List Text} (h : Tracks first [] lines) : lines = first := by
  cases h with
  | start => rfl
  | opened hplain hne => exact absurd rfl hne
  | extended hcut hne hnew => exact absurd rfl hne

/-! ## Every step of a run -/

theorem hasBlock_of_cut {file : Option Bytes} {lines front inner back : List Text}
    (hread : readGitignoreLines file = some lines) (hcut : Cut lines front inner back) :
    hasBlock file = true := by
  rw [hasBlock, hread, Option.any_some, hcut.findBlock]
  rfl

theorem hasBlock_of_plain {file : Option Bytes} {lines : List Text}
    (hread : readGitignoreLines file = some lines) (hplain : gitignoreBlockBegin ∉ lines) :
    hasBlock file = false := by
  rw [hasBlock, hread, Option.any_some, findBlock_of_notMem hplain]
  rfl

/-- A block that is added. -/
theorem invariant_opened {first lines : List Text} {run : Run} (h : Invariant first run lines)
    (hplain : gitignoreBlockBegin ∉ lines) (path : WiringPath) :
    Invariant first
        { run with
          file := some (render (separated lines ++ managed [path.entry]))
          bare := opensBare run.file
          outstanding := path.entry :: run.outstanding }
        (separated lines ++ managed [path.entry]) ∧
      Framed run.bare run.file (some (render (separated lines ++ managed [path.entry]))) := by
  have hclean := h.holds.clean
  have hend : gitignoreBlockEnd ∉ [path.entry] := fun hin =>
    entry_ne_end path (List.mem_singleton.mp hin).symm
  have hcut := cut_opened hplain hend
  have hlast := sound_last h.sound hplain
  have hslash : ∀ line ∈ [path.entry], line.head? = some '/' :=
    List.forall_mem_singleton.mpr rfl
  have hlines : Clean (separated lines ++ managed [path.entry]) :=
    (clean_separated hclean).append (clean_managed (List.forall_mem_singleton.mpr
      (clean_entry path)))
  have hne : separated lines ++ managed [path.entry] ≠ [] := fun hnil =>
    absurd (List.append_eq_nil_iff.mp hnil).2 (List.cons_ne_nil _ _)
  have hfront : ∀ last ∈ (separated lines).getLast?, isBlank last = true → last = [] := by
    intro last hin hblank
    rcases hlast with rfl | ⟨last', hlast', hnot⟩
    · cases hin
    · have hsep : separated lines = lines ++ [[]] := by
        rw [separated, hlast', Option.any_some, hnot]
        rfl
      rw [hsep, List.getLast?_concat] at hin
      exact (Option.some.inj hin).symm
  refine ⟨⟨holds_render hne hlines, Or.inr ?_, ?_, ?_, ?_⟩, ?_⟩
  · have hrest : unseparated (separated lines) ++ [] = lines := by
      rw [List.append_nil, unseparated_separated hlast]
    rcases h.sound with hnil | hsafe
    · exact .emptied hcut hslash hfront (hrest.trans hnil)
    · exact .dropped hcut hslash hfront (hrest.symm ▸ hsafe)
  · intro huntouched
    exact (h.tracks huntouched).add h.entries path (addEntry_opened hplain _)
  · intro hbare front inner back hcut'
    obtain ⟨rfl, -, -⟩ := split_unique hcut hcut'
    rw [opensBare, h.holds.read, Option.any_some, decide_eq_true_iff] at hbare
    rcases hlast with rfl | ⟨last, hlast, hnot⟩
    · rfl
    · rw [separated, hlast, Option.any_some, hnot] at hbare
      exact absurd (congrArg List.length hbare) (by simp)
  · intro hin
    rcases List.mem_cons.mp hin with heq | hin
    · exact entry_ne_end path heq.symm
    · exact h.entries hin
  · obtain ⟨separator, heq, hseparator⟩ := separated_eq lines
    have hfile : some (render (separated lines ++ managed [path.entry])) =
        some (run.file.getD [] ++ utf8 (textOf (separator ++ managed [path.entry]))) := by
      rw [h.holds.getD, render_eq hne, heq, List.append_assoc, textOf_append, utf8_append]
    rw [hfile]
    exact .opened h.holds.read hplain hseparator

/-- An entry that is added to a block. -/
theorem invariant_extended {first lines front inner back : List Text} {run : Run}
    (h : Invariant first run lines) (hcut : Cut lines front inner back) (path : WiringPath)
    (hnew : path.entry ∉ inner) :
    Invariant first
        { run with
          file := some (render (front ++ (managed (inner ++ [path.entry]) ++ back)))
          outstanding := path.entry :: run.outstanding }
        (front ++ (managed (inner ++ [path.entry]) ++ back)) ∧
      Framed run.bare run.file
        (some (render (front ++ (managed (inner ++ [path.entry]) ++ back)))) := by
  obtain ⟨hfront, hinner, hback⟩ := clean_of_cut h.holds.clean hcut
  have hinner' : Clean (inner ++ [path.entry]) :=
    hinner.append (List.forall_mem_singleton.mpr (clean_entry path))
  have hend : gitignoreBlockEnd ∉ inner ++ [path.entry] := by
    intro hin
    rcases List.mem_append.mp hin with hin | hin
    · exact hcut.inner_plain hin
    · exact entry_ne_end path (List.mem_singleton.mp hin).symm
  have hcut' := cut_inner hcut hend
  have hholds := holds_of_lines hfront hinner' hback
  have hsafe : Safe lines := h.sound.resolve_left fun hnil => not_cut_nil (hnil ▸ hcut)
  refine ⟨⟨hholds, Or.inr ?_, ?_, ?_, ?_⟩, .changed hcut hcut' h.holds hholds⟩
  · refine safe_of_entries hsafe hcut hend (fun line hin _ => List.mem_append_left _ hin) ?_
    intro line hin
    rcases List.mem_append.mp hin with hin | hin
    · exact Or.inl hin
    · rw [List.mem_singleton.mp hin]
      exact Or.inr rfl
  · intro huntouched
    exact (h.tracks huntouched).add h.entries path (addEntry_extended hcut hnew)
  · intro hbare front' inner' back' hother
    obtain ⟨rfl, -, -⟩ := split_unique hcut' hother
    exact h.front_nil hbare _ _ _ hcut
  · intro hin
    rcases List.mem_cons.mp hin with heq | hin
    · exact entry_ne_end path heq.symm
    · exact h.entries hin

/-- What a removal leaves outstanding. -/
theorem tracks_removed {first lines lines' : List Text} {run : Run} (h : Invariant first run lines)
    (hfirst : Sound first) (hhollow : ∀ front back, ¬ Cut first front [] back) {entry : Text}
    {kind : GitIgnoreKind} (hdrop : dropEntry lines entry = .ok (kind, lines'))
    (huntouched : (run.untouched && decide (entry ∈ run.outstanding)) = true) :
    Tracks first (without entry run.outstanding) lines' := by
  obtain ⟨hrun, hin⟩ := Bool.and_eq_true_iff.mp huntouched
  exact (h.tracks hrun).drop hfirst hhollow h.entries (of_decide_eq_true hin) hdrop

/-- An entry that is removed from a block with others. -/
theorem invariant_removedEntry {first lines front inner back : List Text} {run : Run}
    (h : Invariant first run lines) (hfirst : Sound first)
    (hhollow : ∀ front back, ¬ Cut first front [] back) (hcut : Cut lines front inner back)
    (path : WiringPath) (hin : path.entry ∈ inner) (hne : without path.entry inner ≠ []) :
    Invariant first
        { file := leftIn (front ++ (managed (without path.entry inner) ++ back))
          bare := run.bare
          outstanding := without path.entry run.outstanding
          untouched := run.untouched && decide (path.entry ∈ run.outstanding) }
        (front ++ (managed (without path.entry inner) ++ back)) ∧
      Framed run.bare run.file (leftIn (front ++ (managed (without path.entry inner) ++ back))) := by
  obtain ⟨hfront, hinner, hback⟩ := clean_of_cut h.holds.clean hcut
  have hinner' : Clean (without path.entry inner) :=
    hinner.of_subset fun line hline => List.mem_of_mem_filter hline
  have hend : gitignoreBlockEnd ∉ without path.entry inner := end_notMem_without hcut.inner_plain
  have hcut' := cut_inner hcut hend
  have hholds : Holds (leftIn (front ++ (managed (without path.entry inner) ++ back)))
      (front ++ (managed (without path.entry inner) ++ back)) := by
    rw [leftIn_of_block]
    exact holds_of_lines hfront hinner' hback
  have hsafe : Safe lines := h.sound.resolve_left fun hnil => not_cut_nil (hnil ▸ hcut)
  refine ⟨⟨hholds, Or.inr ?_, ?_, ?_, end_notMem_without h.entries⟩,
    .changed hcut hcut' h.holds hholds⟩
  · refine safe_of_entries hsafe hcut hend ?_ fun line hline => Or.inl (List.mem_of_mem_filter hline)
    intro line hline hkept
    refine List.mem_filter.mpr ⟨hline, decide_eq_true ?_⟩
    rintro rfl
    exact hkept rfl
  · exact tracks_removed h hfirst hhollow (dropEntry_entry hcut hin hne)
  · intro hbare front' inner' back' hother
    obtain ⟨rfl, -, -⟩ := split_unique hcut' hother
    exact h.front_nil hbare _ _ _ hcut

/-- A block that is removed with its last entry. -/
theorem invariant_removedBlock {first lines front inner back : List Text} {run : Run}
    (h : Invariant first run lines) (hfirst : Sound first)
    (hhollow : ∀ front back, ¬ Cut first front [] back) (hcut : Cut lines front inner back)
    (path : WiringPath) (hin : path.entry ∈ inner) (hnil : without path.entry inner = []) :
    Invariant first
        { file := leftIn (unseparated front ++ back)
          bare := false
          outstanding := without path.entry run.outstanding
          untouched := run.untouched && decide (path.entry ∈ run.outstanding) }
        (unseparated front ++ back) ∧
      Framed run.bare run.file (leftIn (unseparated front ++ back)) := by
  obtain ⟨hfront, -, hback⟩ := clean_of_cut h.holds.clean hcut
  have hsafe : Safe lines := h.sound.resolve_left fun hnil => not_cut_nil (hnil ▸ hcut)
  have hslash : path.entry.head? = some '/' := rfl
  obtain ⟨hblank, hrest⟩ := safe_of_removed hsafe hcut hslash hnil
  -- The line in front of the block is a separator, or no line is removed with the block.
  obtain ⟨separator, heq, hseparator⟩ : ∃ separator, front = unseparated front ++ separator ∧
      (separator = [] ∨ separator = [[]] ∧ run.bare = false) := by
    by_cases hlast : front.getLast?.any isBlank = true
    · have hfrontNe : front ≠ [] := by
        rintro rfl
        cases hlast
      have hlast' : front.getLast? = some (front.getLast hfrontNe) := List.getLast?_eq_some_getLast hfrontNe
      have hlastBlank : isBlank (front.getLast hfrontNe) = true := by
        rwa [hlast', Option.any_some] at hlast
      refine ⟨[[]], ?_, Or.inr ⟨rfl, ?_⟩⟩
      · rw [unseparated, if_pos hlast]
        have hnilLast := hblank _ hlast' hlastBlank
        rw [← hnilLast, List.dropLast_append_getLast hfrontNe]
      · by_contra hbare
        exact hfrontNe (h.front_nil (Bool.not_eq_false _ |>.mp hbare) _ _ _ hcut)
    · refine ⟨[], ?_, Or.inl rfl⟩
      rw [unseparated, if_neg hlast, List.append_nil]
  have hclean : Clean (unseparated front ++ back) := by
    refine (hfront.of_subset fun line hline => ?_).append hback
    rw [heq]
    exact List.mem_append_left _ hline
  have hholds : Holds (leftIn (unseparated front ++ back)) (unseparated front ++ back) :=
    Holds.leftIn hclean (hrest.imp_right exists_not_blank_of_safe)
  refine ⟨⟨hholds, hrest, ?_, ?_, end_notMem_without h.entries⟩,
    .closed hseparator (heq ▸ hcut) h.holds hholds⟩
  · exact tracks_removed h hfirst hhollow (dropEntry_block hcut hin hnil)
  · intro hbare
    cases hbare

/-- A step keeps the invariant, and it is framed. -/
theorem invariant_step {first lines : List Text} {run : Run} (h : Invariant first run lines)
    (hfirst : Sound first) (hhollow : ∀ front back, ¬ Cut first front [] back) (call : Call) :
    (∃ lines', Invariant first (step run call) lines') ∧
      Framed run.bare run.file (step run call).file := by
  have hread := h.holds.read
  have hcases := findBlock_cases gitignoreBlockBegin gitignoreBlockEnd lines
  cases hop : call.op with
  | ensure =>
      rcases step_ensure hop with hstep | ⟨lines₀, lines', hread₀, hadd, hstep⟩
      · rw [hstep]
        exact ⟨⟨lines, h⟩, .same⟩
      · obtain rfl : lines = lines₀ := Option.some.inj (hread.symm.trans hread₀)
        rcases hcases with hplain | horphaned | ⟨front, inner, back, hcut⟩
        · rw [addEntry_opened hplain] at hadd
          cases hadd
          rw [hasBlock_of_plain hread hplain, if_neg Bool.false_ne_true] at hstep
          rw [hstep]
          obtain ⟨hinvariant, hframed⟩ := invariant_opened h hplain call.path
          exact ⟨⟨_, hinvariant⟩, hframed⟩
        · rw [addEntry_orphaned horphaned] at hadd
          cases hadd
        · by_cases hin : call.path.entry ∈ inner
          · rw [addEntry_covered hcut hin] at hadd
            cases hadd
          · rw [addEntry_extended hcut hin] at hadd
            cases hadd
            rw [hasBlock_of_cut hread hcut, if_pos rfl] at hstep
            rw [hstep]
            obtain ⟨hinvariant, hframed⟩ := invariant_extended h hcut call.path hin
            exact ⟨⟨_, hinvariant⟩, hframed⟩
  | remove =>
      rcases step_remove hop with hstep | ⟨lines₀, kind, lines', hread₀, hdrop, hstep⟩
      · rw [hstep]
        exact ⟨⟨lines, h⟩, .same⟩
      · obtain rfl : lines = lines₀ := Option.some.inj (hread.symm.trans hread₀)
        rcases hcases with hplain | horphaned | ⟨front, inner, back, hcut⟩
        · rw [dropEntry_plain hplain] at hdrop
          cases hdrop
        · rw [dropEntry_orphaned horphaned] at hdrop
          cases hdrop
        · by_cases hin : call.path.entry ∈ inner
          · by_cases hnil : without call.path.entry inner = []
            · rw [dropEntry_block hcut hin hnil] at hdrop
              cases hdrop
              rw [if_pos rfl] at hstep
              rw [hstep]
              obtain ⟨hinvariant, hframed⟩ :=
                invariant_removedBlock h hfirst hhollow hcut call.path hin hnil
              exact ⟨⟨_, hinvariant⟩, hframed⟩
            · rw [dropEntry_entry hcut hin hnil] at hdrop
              cases hdrop
              rw [if_neg (by decide)] at hstep
              rw [hstep]
              obtain ⟨hinvariant, hframed⟩ :=
                invariant_removedEntry h hfirst hhollow hcut call.path hin hnil
              exact ⟨⟨_, hinvariant⟩, hframed⟩
          · rw [dropEntry_missing hcut hin] at hdrop
            cases hdrop

theorem invariant_run {first : List Text} (hfirst : Sound first)
    (hhollow : ∀ front back, ¬ Cut first front [] back) :
    ∀ (calls : List Call) {run : Run} {lines : List Text}, Invariant first run lines →
      ∃ lines', Invariant first (runCalls run calls) lines'
  | [], run, lines, h => ⟨lines, h⟩
  | call :: more, run, lines, h => by
      obtain ⟨⟨lines', h'⟩, -⟩ := invariant_step h hfirst hhollow call
      exact invariant_run hfirst hhollow more h'

/-! ## Preserved files -/

/-- A file that cannot be read, or whose block nothing closes, is never written. -/
theorem step_of_refused {run : Run}
    (hrefused : ∀ lines, readGitignoreLines run.file = some lines →
      Orphaned gitignoreBlockBegin gitignoreBlockEnd lines) (call : Call) :
    step run call = run := by
  cases hop : call.op with
  | ensure =>
      rcases step_ensure hop with hstep | ⟨lines, lines', hread, hadd, hstep⟩
      · exact hstep
      · rw [addEntry_orphaned (hrefused lines hread)] at hadd
        cases hadd
  | remove =>
      rcases step_remove hop with hstep | ⟨lines, kind, lines', hread, hdrop, hstep⟩
      · exact hstep
      · rw [dropEntry_orphaned (hrefused lines hread)] at hdrop
        cases hdrop

theorem runCalls_of_refused {run : Run}
    (hrefused : ∀ lines, readGitignoreLines run.file = some lines →
      Orphaned gitignoreBlockBegin gitignoreBlockEnd lines) :
    ∀ calls, runCalls run calls = run
  | [] => rfl
  | call :: more => by
      rw [runCalls, step_of_refused hrefused, runCalls_of_refused hrefused more]

/-- Every run from a file of sound lines is framed and comes back. -/
theorem faithful_of_sound {initial : Option Bytes} {first : List Text} (hholds : Holds initial first)
    (hsound : Sound first) (hhollow : ∀ front back, ¬ Cut first front [] back) :
    Faithful initial := by
  intro calls call
  have hstart : Invariant first ⟨initial, false, [], true⟩ first :=
    ⟨hholds, hsound, fun _ => .start, fun h => (by cases h), List.not_mem_nil⟩
  obtain ⟨lines, h⟩ := invariant_run hsound hhollow calls hstart
  refine ⟨(invariant_step h hsound hhollow call).2, fun hnone huntouched => ?_⟩
  have htracks := h.tracks huntouched
  rw [hnone] at htracks
  have hlines := h.holds
  rw [htracks.eq] at hlines
  exact hlines.file_eq hholds

theorem faithful_of_preserved {initial : Option Bytes} (h : Preserved initial) :
    Faithful initial := by
  rcases h with rfl | h
  · exact faithful_of_sound .absent (Or.inl rfl) fun front back => not_cut_nil
  · by_cases hgood : ∃ lines, Holds initial lines ∧ Safe lines ∧ ∀ front back, ¬ Cut lines front [] back
    · obtain ⟨lines, hholds, hsafe, hhollow⟩ := hgood
      exact faithful_of_sound hholds (Or.inr hsafe) hhollow
    · have hrefused : ∀ lines, readGitignoreLines initial = some lines →
          Orphaned gitignoreBlockBegin gitignoreBlockEnd lines := fun lines hread =>
        (h lines hread).resolve_right fun hrest => hgood ⟨lines, hrest⟩
      intro calls call
      rw [runCalls_of_refused hrefused, step_of_refused hrefused]
      exact ⟨.same, fun _ _ => rfl⟩

end GitHygiene
end Client
end Nauro
