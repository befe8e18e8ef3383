import Nauro.Client.GitHygieneRuns

/-!
# What a run of the managed block can lose

A file that is not preserved loses something in some run: a path no line names is added and removed
again, or the entries of the block are removed one by one until the block goes.

* `gitignore_iff` — the faithful files are the preserved ones.
-/

namespace Nauro
namespace Client
namespace GitHygiene

open Foundation Foundation.EscapedUtf8 Foundation.ManagedBlock
open Nauro.Core Nauro.Sync

/-! ## Calls that nothing hinders -/

def permissive : Answers :=
  ⟨true, true, false, false, true⟩

def ensuring (path : WiringPath) : Call :=
  ⟨.ensure, path, permissive⟩

def removing (path : WiringPath) : Call :=
  ⟨.remove, path, permissive⟩

theorem step_ensuring {run : Run} {path : WiringPath} {lines lines' : List Text}
    (hread : readGitignoreLines run.file = some lines)
    (hadd : addEntry lines path.entry = .ok lines') :
    step run (ensuring path) =
      { run with
        file := some (render lines')
        bare := if hasBlock run.file then run.bare else opensBare run.file
        outstanding := path.entry :: run.outstanding } := by
  have hresult : ensureWiringIgnored permissive run.file path = (.added, some (render lines')) := by
    unfold ensureWiringIgnored
    rw [hread]
    simp only
    rw [hadd]
    rfl
  unfold step ensuring
  simp only
  rw [hresult, if_pos rfl]

theorem isRemoval_of_dropEntry {lines lines' : List Text} {entry : Text} {kind : GitIgnoreKind}
    (hdrop : dropEntry lines entry = .ok (kind, lines')) : IsRemoval kind := by
  rcases findBlock_cases gitignoreBlockBegin gitignoreBlockEnd lines with
    hplain | horphaned | ⟨front, inner, back, hcut⟩
  · rw [dropEntry_plain hplain] at hdrop
    cases hdrop
  · rw [dropEntry_orphaned horphaned] at hdrop
    cases hdrop
  · by_cases hin : entry ∈ inner
    · by_cases hnil : without entry inner = []
      · rw [dropEntry_block hcut hin hnil] at hdrop
        cases hdrop
        exact Or.inr rfl
      · rw [dropEntry_entry hcut hin hnil] at hdrop
        cases hdrop
        exact Or.inl rfl
    · rw [dropEntry_missing hcut hin] at hdrop
      cases hdrop

theorem step_removing {run : Run} {path : WiringPath} {lines lines' : List Text}
    {kind : GitIgnoreKind} (hread : readGitignoreLines run.file = some lines)
    (hdrop : dropEntry lines path.entry = .ok (kind, lines')) :
    step run (removing path) =
      { file := leftIn lines'
        bare := if kind = .removedBlock then false else run.bare
        outstanding := without path.entry run.outstanding
        untouched := run.untouched && decide (path.entry ∈ run.outstanding) } := by
  have hfile : run.file.isNone = false := by
    cases hfile : run.file with
    | none =>
        rw [hfile] at hread
        cases hread
        cases hdrop
    | some bytes => rfl
  have hresult : removeWiringIgnoreEntry permissive run.file path = (kind, leftIn lines') := by
    unfold removeWiringIgnoreEntry leftIn
    rw [hfile, hread]
    simp only
    rw [hdrop]
    simp only [permissive, Bool.not_true, Bool.false_eq_true, if_false]
    split <;> rfl
  unfold step removing
  simp only
  rw [hresult, if_pos (isRemoval_of_dropEntry hdrop)]

/-- Some path is longer than every line. -/
theorem exists_fresh (lines : List Text) : ∃ path : WiringPath, path.entry ∉ lines := by
  have hplain : ∀ c ∈ List.replicate lines.flatten.length 'a', isLineBreak c = false := by
    intro c hc
    rw [List.eq_of_mem_replicate hc]
    decide
  refine ⟨⟨_, hplain⟩, fun hin => ?_⟩
  have hle := (List.sublist_flatten_of_mem hin).length_le
  rw [WiringPath.entry, List.length_cons, List.length_replicate] at hle
  omega

/-! ## What a framed call leaves -/

/-- A framed call on a file with a block leaves the lines around the block, or it takes the block
away, with a separator at most. -/
theorem framed_cut {bare : Bool} {file file' : Option Bytes} {lines front inner back : List Text}
    (h : Framed bare file file') (hcut : Cut lines front inner back) (hfile : Holds file lines) :
    (∃ inner', Holds file' (front ++ (managed inner' ++ back))) ∨
      ∃ before separator, front = before ++ separator ∧ Holds file' (before ++ back) ∧
        (separator = [] ∨ separator = [[]] ∧ bare = false) := by
  cases h with
  | same => exact Or.inl ⟨inner, hcut.lines_eq ▸ hfile⟩
  | opened hread hplain hseparator =>
      rw [hfile.read] at hread
      cases hread
      exact absurd hcut.mem hplain
  | changed hcut₀ hcut' hfile₀ hfile' =>
      obtain rfl := hfile.unique hfile₀
      obtain ⟨rfl, rfl, rfl⟩ := split_unique hcut hcut₀
      exact Or.inl ⟨_, hcut'.lines_eq ▸ hfile'⟩
  | closed hseparator hcut₀ hfile₀ hfile' =>
      obtain rfl := hfile.unique hfile₀
      obtain ⟨rfl, rfl, rfl⟩ := split_unique hcut hcut₀
      exact Or.inr ⟨_, _, rfl, hfile', hseparator⟩

/-- A file that holds fewer lines than stand around the block of a file has lost the block and its
separator, and nothing else. -/
theorem closed_of_framed {bare : Bool} {file file' : Option Bytes}
    {lines front inner back left : List Text} (h : Framed bare file file')
    (hcut : Cut lines front inner back) (hfile : Holds file lines) (hleft : Holds file' left)
    (hlength : left.length ≤ front.length + back.length) :
    ∃ before separator, front = before ++ separator ∧ left = before ++ back ∧
      (separator = [] ∨ separator = [[]] ∧ bare = false) := by
  rcases framed_cut h hcut hfile with ⟨inner', hfile'⟩ | ⟨before, separator, heq, hfile', hseparator⟩
  · have hlines := congrArg List.length (hleft.unique hfile')
    simp only [managed, block, List.length_append, List.length_cons] at hlines
    omega
  · exact ⟨before, separator, heq, hleft.unique hfile', hseparator⟩

/-- The lines of the file that some lines are left in. -/
theorem holds_leftIn {lines : List Text} (hclean : Clean lines) :
    Holds (leftIn lines) lines ∨
      lines ≠ [] ∧ (∀ line ∈ lines, isBlank line = true) ∧ Holds (leftIn lines) [] := by
  by_cases hany : ∃ line ∈ lines, isBlank line = false
  · exact Or.inl (Holds.leftIn hclean (Or.inr hany))
  · by_cases hnil : lines = []
    · exact Or.inl (Holds.leftIn hclean (Or.inl hnil))
    · have hblank : ∀ line ∈ lines, isBlank line = true := fun line hin =>
        (Bool.not_eq_false _).mp fun hnot => hany ⟨line, hin, hnot⟩
      refine Or.inr ⟨hnil, hblank, ?_⟩
      have hnone : leftIn lines = none := by
        refine if_neg fun h => ?_
        obtain ⟨line, hin, hnot⟩ := List.any_eq_true.mp h
        rw [hblank line hin] at hnot
        cases hnot
      rw [hnone]
      exact .absent

theorem length_unseparated_le (lines : List Text) : (unseparated lines).length ≤ lines.length := by
  unfold unseparated
  split
  · rw [List.length_dropLast]
    exact Nat.sub_le ..
  · exact Nat.le_refl _

theorem mem_of_mem_unseparated {lines : List Text} {line : Text} (h : line ∈ unseparated lines) :
    line ∈ lines := by
  unfold unseparated at h
  split at h
  · exact (List.dropLast_sublist lines).subset h
  · exact h

/-- Lines with a blank one at their end lose it. -/
theorem unseparated_of_blank {lines : List Text} {last : Text} (hlast : lines.getLast? = some last)
    (hblank : isBlank last = true) : unseparated lines = lines.dropLast := by
  rw [unseparated, hlast, Option.any_some, hblank, if_pos rfl]

theorem length_unseparated_lt {lines : List Text} {last : Text} (hlast : lines.getLast? = some last)
    (hblank : isBlank last = true) : (unseparated lines).length < lines.length := by
  rw [unseparated_of_blank hlast hblank, List.length_dropLast]
  have hpos := List.length_pos_of_mem (List.mem_of_getLast? hlast)
  omega

/-! ## The runs from a file -/

/-- A state of some run from the file. -/
def Reaches (initial : Option Bytes) (run : Run) : Prop :=
  ∃ calls, runCalls ⟨initial, false, [], true⟩ calls = run

theorem runCalls_append (run : Run) (calls more : List Call) :
    runCalls run (calls ++ more) = runCalls (runCalls run calls) more := by
  induction calls generalizing run with
  | nil => rfl
  | cons call calls ih => exact ih (step run call)

theorem Reaches.step {initial : Option Bytes} {run : Run} (h : Reaches initial run) (call : Call) :
    Reaches initial (GitHygiene.step run call) := by
  obtain ⟨calls, rfl⟩ := h
  exact ⟨calls ++ [call], runCalls_append ..⟩

theorem Faithful.framed {initial : Option Bytes} (h : Faithful initial) {run : Run}
    (hrun : Reaches initial run) (call : Call) : Framed run.bare run.file (step run call).file := by
  obtain ⟨calls, rfl⟩ := hrun
  exact (h calls call).1

theorem Faithful.restored {initial : Option Bytes} (h : Faithful initial) {run : Run}
    (hrun : Reaches initial run) (hnone : run.outstanding = []) (huntouched : run.untouched = true) :
    run.file = initial := by
  obtain ⟨calls, rfl⟩ := hrun
  obtain ⟨path, -⟩ := exists_fresh []
  exact (h calls (ensuring path)).2 hnone huntouched

/-! ## Adding a fresh path and removing it -/

theorem without_self (entry : Text) : without entry [entry] = [] := by
  simp [without]

theorem holds_of_leftIn {lines : List Text} {bytes : Bytes} (hclean : Clean lines)
    (h : leftIn lines = some bytes) : Holds (some bytes) lines := by
  rcases holds_leftIn hclean with hholds | ⟨-, -, hempty⟩
  · rwa [h] at hholds
  · rw [h] at hempty
    cases hempty.file_eq .absent

/-- A path that is added and removed again leaves a faithful file as it was. -/
theorem Faithful.leftIn_eq {bytes : Bytes} {lines lines₁ lines₂ : List Text} {path : WiringPath}
    {kind : GitIgnoreKind} (h : Faithful (some bytes))
    (hread : readGitignoreLines (some bytes) = some lines)
    (hadd : addEntry lines path.entry = .ok lines₁)
    (hopened : Holds (some (render lines₁)) lines₁)
    (hdrop : dropEntry lines₁ path.entry = .ok (kind, lines₂)) : leftIn lines₂ = some bytes := by
  have hstart : Reaches (some bytes) ⟨some bytes, false, [], true⟩ := ⟨[], rfl⟩
  have hadded : step ⟨some bytes, false, [], true⟩ (ensuring path) = _ := step_ensuring hread hadd
  obtain ⟨opened, hopened_eq⟩ :
      ∃ opened, opened = step ⟨some bytes, false, [], true⟩ (ensuring path) := ⟨_, rfl⟩
  rw [← hopened_eq] at hadded
  have hfile : opened.file = some (render lines₁) := by
    rw [hadded]
  have hread₁ : readGitignoreLines opened.file = some lines₁ := by
    rw [hfile]
    exact hopened.read
  have hremoved := step_removing hread₁ hdrop
  have hreach : Reaches (some bytes) (step opened (removing path)) := by
    rw [hopened_eq]
    exact (hstart.step (ensuring path)).step (removing path)
  have hback := h.restored hreach (by rw [hremoved, hadded]; exact without_self _)
    (by rw [hremoved, hadded]; simp)
  rwa [hremoved] at hback

/-- A file that comes back is what its lines are written as, and its block is not empty. -/
theorem holds_of_faithful {bytes : Bytes} {lines : List Text} (h : Faithful (some bytes))
    (hread : readGitignoreLines (some bytes) = some lines)
    (hclosed : ¬ Orphaned gitignoreBlockBegin gitignoreBlockEnd lines) :
    Holds (some bytes) lines ∧ ∀ front back, ¬ Cut lines front [] back := by
  have hclean := clean_of_read hread
  obtain ⟨path, hfresh⟩ := exists_fresh lines
  have hentry : Clean [path.entry] := List.forall_mem_singleton.mpr (clean_entry path)
  rcases findBlock_cases gitignoreBlockBegin gitignoreBlockEnd lines with
    hplain | horphaned | ⟨front, inner, back, hcut⟩
  · have hend : gitignoreBlockEnd ∉ [path.entry] := fun hin =>
      entry_ne_end path (List.mem_singleton.mp hin).symm
    have hcut := cut_opened hplain hend
    have hopened : Holds (some (render (separated lines ++ managed [path.entry])))
        (separated lines ++ managed [path.entry]) :=
      holds_render (List.ne_nil_of_mem hcut.mem)
        ((clean_separated hclean).append (clean_managed hentry))
    have hback := h.leftIn_eq hread (addEntry_opened hplain path.entry) hopened
      (dropEntry_block hcut (List.mem_singleton_self _) (without_self _))
    have hleft : Clean (unseparated (separated lines) ++ []) := by
      rw [List.append_nil]
      exact (clean_separated hclean).of_subset fun line hin => mem_of_mem_unseparated hin
    have hholds := holds_of_leftIn hleft hback
    rw [Option.some.inj (hholds.read.symm.trans hread)] at hholds
    exact ⟨hholds, fun front back hcut => hplain hcut.mem⟩
  · exact absurd horphaned hclosed
  · obtain ⟨hfront, hinner, hback⟩ := clean_of_cut hclean hcut
    have hnew : path.entry ∉ inner := by
      intro hin
      refine hfresh ?_
      rw [hcut.lines_eq, block]
      exact List.mem_append_right _ (List.mem_append_left _ (List.mem_cons_of_mem _
        (List.mem_append_left _ hin)))
    have hend : gitignoreBlockEnd ∉ inner ++ [path.entry] := by
      intro hin
      rcases List.mem_append.mp hin with hin | hin
      · exact hcut.inner_plain hin
      · exact entry_ne_end path (List.mem_singleton.mp hin).symm
    have hcut' := cut_inner hcut hend
    have hin : path.entry ∈ inner ++ [path.entry] :=
      List.mem_append_right _ (List.mem_singleton_self _)
    have hwithout : without path.entry (inner ++ [path.entry]) = inner := by
      rw [without_append, without_of_notMem hnew, without_self, List.append_nil]
    have hopened := holds_of_lines hfront (hinner.append hentry) hback
    by_cases hnil : inner = []
    · -- The block goes with the path, though it was there before.
      have hfile := h.leftIn_eq hread (addEntry_extended hcut hnew) hopened
        (dropEntry_block hcut' hin (hwithout.trans hnil))
      have hleft : Clean (unseparated front ++ back) :=
        (hfront.of_subset fun line hin => mem_of_mem_unseparated hin).append hback
      have hholds := holds_of_leftIn hleft hfile
      have hlines := Option.some.inj (hholds.read.symm.trans hread)
      have hlength := congrArg List.length (hlines.trans hcut.lines_eq)
      have hle := length_unseparated_le front
      simp only [block, List.length_append, List.length_cons] at hlength
      omega
    · have hfile := h.leftIn_eq hread (addEntry_extended hcut hnew) hopened
        (dropEntry_entry hcut' hin fun hnone => hnil (hwithout.symm.trans hnone))
      rw [hwithout, ← hcut.lines_eq] at hfile
      refine ⟨holds_of_leftIn hclean hfile, fun front' back' hhollow => ?_⟩
      obtain ⟨-, rfl, -⟩ := split_unique hcut hhollow
      exact hnil rfl

/-! ## Taking the block away -/

/-- A path for a line of the block. -/
theorem exists_path {line : Text} (hclean : ∀ c ∈ line, isLineBreak c = false)
    (hslash : line.head? = some '/') : ∃ path : WiringPath, path.entry = line := by
  cases line with
  | nil => cases hslash
  | cons c text =>
      cases hslash
      exact ⟨⟨text, fun c hc => hclean c (List.mem_cons_of_mem _ hc)⟩, rfl⟩

theorem length_without_lt {entry : Text} {inner : List Text} (h : entry ∈ inner) :
    (without entry inner).length < inner.length := by
  refine List.length_filter_lt_length_iff_exists.mpr ⟨entry, h, ?_⟩
  simp

/-- The entries of a block can be removed until one path is left. -/
theorem reaches_last {initial : Option Bytes} {front back : List Text} {bare : Bool} :
    ∀ (inner : List Text) {run : Run}, Reaches initial run → run.bare = bare →
      Holds run.file (front ++ (managed inner ++ back)) → gitignoreBlockBegin ∉ front →
        gitignoreBlockEnd ∉ inner → (∀ line ∈ inner, line.head? = some '/') →
          ∃ (run' : Run) (inner' : List Text) (path : WiringPath), Reaches initial run' ∧
            run'.bare = bare ∧ Holds run'.file (front ++ (managed inner' ++ back)) ∧
              gitignoreBlockEnd ∉ inner' ∧ path.entry ∈ inner' ∧ without path.entry inner' = [] := by
  intro inner
  induction hn : inner.length using Nat.strong_induction_on generalizing inner with
  | _ n ih =>
      intro run hrun hbare hholds hplain hend hentries
      have hcut : Cut (front ++ (managed inner ++ back)) front inner back := ⟨rfl, hplain, hend⟩
      obtain ⟨hfront, hinner, hback⟩ := clean_of_cut hholds.clean hcut
      cases inner with
      | nil =>
          obtain ⟨path, -⟩ := exists_fresh []
          have hadded := step_ensuring hholds.read (addEntry_extended hcut
            (List.not_mem_nil (a := path.entry)))
          rw [hasBlock_of_cut hholds.read hcut, if_pos rfl] at hadded
          have hend' : gitignoreBlockEnd ∉ [path.entry] := fun hin =>
            entry_ne_end path (List.mem_singleton.mp hin).symm
          refine ⟨_, [path.entry], path, hrun.step (ensuring path), ?_, ?_, hend',
            List.mem_singleton_self _, without_self _⟩
          · rw [hadded]
            exact hbare
          · rw [hadded]
            exact holds_of_lines hfront (List.forall_mem_singleton.mpr (clean_entry path)) hback
      | cons line rest =>
          obtain ⟨path, hpath⟩ := exists_path (hinner line (List.mem_cons_self ..))
            (hentries line (List.mem_cons_self ..))
          have hin : path.entry ∈ line :: rest := hpath ▸ List.mem_cons_self ..
          by_cases hnil : without path.entry (line :: rest) = []
          · exact ⟨run, line :: rest, path, hrun, hbare, hholds, hend, hin, hnil⟩
          · have hremoved := step_removing hholds.read (dropEntry_entry hcut hin hnil)
            rw [if_neg (by decide)] at hremoved
            have hsub : ∀ line' ∈ without path.entry (line :: rest), line' ∈ line :: rest :=
              fun _ h => List.mem_of_mem_filter h
            refine ih _ (hn ▸ length_without_lt hin) (without path.entry (line :: rest)) rfl
              (hrun.step (removing path)) ?_ ?_ hplain (fun h => hend (hsub _ h))
              fun line' h => hentries line' (hsub _ h)
            · rw [hremoved]
              exact hbare
            · rw [hremoved]
              simp only
              rw [leftIn_of_block]
              exact holds_of_lines hfront (hinner.of_subset hsub) hback

/-- Without a block the last line is not blank: it would go with a block added behind it. -/
theorem last_of_faithful {initial : Option Bytes} (h : Faithful initial) {run : Run}
    {lines : List Text} (hrun : Reaches initial run) (hholds : Holds run.file lines)
    (hplain : gitignoreBlockBegin ∉ lines) {last : Text} (hlast : lines.getLast? = some last) :
    isBlank last = false := by
  by_contra hblank
  rw [Bool.not_eq_false] at hblank
  obtain ⟨path, -⟩ := exists_fresh []
  have hsep : separated lines = lines := by
    rw [separated, hlast, Option.any_some, hblank]
    rfl
  have hend : gitignoreBlockEnd ∉ [path.entry] := fun hin =>
    entry_ne_end path (List.mem_singleton.mp hin).symm
  have hcut := cut_opened hplain hend
  rw [hsep] at hcut
  have hlines : Clean (lines ++ managed [path.entry]) :=
    hholds.clean.append (clean_managed (List.forall_mem_singleton.mpr (clean_entry path)))
  have hopened := holds_render (List.ne_nil_of_mem hcut.mem) hlines
  have hadd := addEntry_opened hplain path.entry
  rw [hsep] at hadd
  have hadded := step_ensuring hholds.read hadd
  rw [hasBlock_of_plain hholds.read hplain, if_neg Bool.false_ne_true] at hadded
  have hreach := hrun.step (ensuring path)
  rw [hadded] at hreach
  have hframed := h.framed hreach (removing path)
  rw [step_removing hopened.read
    (dropEntry_block hcut (List.mem_singleton_self _) (without_self _))] at hframed
  have hbare : opensBare run.file = true := by
    rw [opensBare, hholds.read, Option.any_some, hsep]
    exact decide_eq_true rfl
  simp only [hbare, List.append_nil] at hframed
  have hshort := length_unseparated_lt hlast hblank
  have hleftClean : Clean (unseparated lines) :=
    hholds.clean.of_subset fun line hin => mem_of_mem_unseparated hin
  obtain ⟨left, hleft, hlength⟩ : ∃ left, Holds (leftIn (unseparated lines)) left ∧
      left.length < lines.length := by
    rcases holds_leftIn hleftClean with hleft | ⟨-, -, hleft⟩
    · exact ⟨_, hleft, hshort⟩
    · exact ⟨[], hleft, Nat.lt_of_le_of_lt (Nat.zero_le _) hshort⟩
  obtain ⟨before, separator, hfront, hlines', hseparator⟩ :=
    closed_of_framed hframed hcut hopened hleft (by omega)
  rcases hseparator with rfl | ⟨-, hfalse⟩
  · rw [hfront, hlines'] at hlength
    simp at hlength
  · cases hfalse

/-- Without its block a file holds the lines around it, and the line that goes with it was empty. -/
theorem rest_of_faithful {initial : Option Bytes} (h : Faithful initial) {run : Run}
    {lines front inner back : List Text} {path : WiringPath} (hrun : Reaches initial run)
    (hholds : Holds run.file lines) (hcut : Cut lines front inner back) (hin : path.entry ∈ inner)
    (hnil : without path.entry inner = []) :
    (∀ last ∈ front.getLast?, isBlank last = true → last = []) ∧
      Holds (step run (removing path)).file (unseparated front ++ back) ∧
        (step run (removing path)).bare = false := by
  have hframed := h.framed hrun (removing path)
  have hremoved := step_removing hholds.read (dropEntry_block hcut hin hnil)
  rw [hremoved] at hframed
  rw [hremoved]
  obtain ⟨hfront, -, hback⟩ := clean_of_cut hholds.clean hcut
  have hclean : Clean (unseparated front ++ back) :=
    (hfront.of_subset fun line hin => mem_of_mem_unseparated hin).append hback
  have hshort := length_unseparated_le front
  obtain ⟨left, hleft, hlength, hcases⟩ : ∃ left, Holds (leftIn (unseparated front ++ back)) left ∧
      left.length ≤ (unseparated front).length + back.length ∧
        (left = unseparated front ++ back ∨ left = [] ∧ unseparated front ++ back ≠ []) := by
    rcases holds_leftIn hclean with hleft | ⟨hne, -, hleft⟩
    · exact ⟨_, hleft, Nat.le_of_eq List.length_append, Or.inl rfl⟩
    · exact ⟨[], hleft, Nat.zero_le _, Or.inr ⟨rfl, hne⟩⟩
  obtain ⟨before, separator, hfrontEq, hleftEq, hseparator⟩ :=
    closed_of_framed hframed hcut hholds hleft (by omega)
  refine ⟨fun last hlast hblank => ?_, ?_, rfl⟩
  · have hlt := length_unseparated_lt hlast hblank
    rcases hseparator with rfl | ⟨rfl, -⟩
    · rw [hfrontEq, List.append_nil] at hlt hshort hlength
      rw [hleftEq, List.length_append] at hlength
      omega
    · rw [hfrontEq, List.getLast?_concat] at hlast
      exact (Option.some.inj hlast).symm
  · rcases hcases with rfl | ⟨rfl, hne⟩
    · exact hleft
    · -- Nothing is left only where nothing but a separator stood around the block.
      obtain ⟨rfl, rfl⟩ := List.append_eq_nil_iff.mp hleftEq.symm
      refine absurd ?_ hne
      rw [hfrontEq, List.append_nil]
      rcases hseparator with rfl | ⟨rfl, -⟩
      · rfl
      · rfl

/-- The lines of a faithful run are safe. -/
theorem safe_of_faithful {initial : Option Bytes} (h : Faithful initial) :
    ∀ (lines : List Text) {run : Run}, Reaches initial run → run.bare = false →
      Holds run.file lines → lines ≠ [] → Safe lines := by
  intro lines
  induction hn : lines.length using Nat.strong_induction_on generalizing lines with
  | _ n ih =>
      intro run hrun hbare hholds hne
      rcases findBlock_cases gitignoreBlockBegin gitignoreBlockEnd lines with
        hplain | horphaned | ⟨front, inner, back, hcut⟩
      · have hlast := List.getLast?_eq_some_getLast hne
        exact .plain hplain hlast (last_of_faithful h hrun hholds hplain hlast)
      · exact .orphaned horphaned
      · by_cases hentries : ∀ line ∈ inner, line.head? = some '/'
        · obtain ⟨run', inner', path, hrun', -, hholds', hend', hin, hnil⟩ :=
            reaches_last inner hrun hbare (hcut.lines_eq ▸ hholds) hcut.front_plain
              hcut.inner_plain hentries
          obtain ⟨hblank, hleft, hbare'⟩ :=
            rest_of_faithful h hrun' hholds' (cut_inner hcut hend') hin hnil
          by_cases hrest : unseparated front ++ back = []
          · exact .emptied hcut hentries hblank hrest
          · have hshort : (unseparated front ++ back).length < n := by
              have hle := length_unseparated_le front
              have hlength := congrArg List.length hcut.lines_eq
              simp only [block, List.length_append, List.length_cons] at hlength ⊢
              omega
            exact .dropped hcut hentries hblank
              (ih _ hshort _ rfl (hrun'.step (removing path)) hbare' hleft hrest)
        · obtain ⟨line, hline⟩ := not_forall.mp hentries
          obtain ⟨hin, hkept⟩ := Classical.not_imp.mp hline
          exact .kept hcut hin hkept

theorem preserved_of_faithful {initial : Option Bytes} (h : Faithful initial) :
    Preserved initial := by
  cases initial with
  | none => exact Or.inl rfl
  | some bytes =>
      refine Or.inr fun lines hread => ?_
      by_cases horphaned : Orphaned gitignoreBlockBegin gitignoreBlockEnd lines
      · exact Or.inl horphaned
      · obtain ⟨hholds, hhollow⟩ := holds_of_faithful h hread horphaned
        have hne : lines ≠ [] := by
          rintro rfl
          cases hholds.file_eq .absent
        exact Or.inr ⟨hholds, safe_of_faithful h lines ⟨[], rfl⟩ rfl hholds hne, hhollow⟩

/-- No run of calls changes a line outside the block, and every run that removes what it added leaves
the file as it was, exactly for the files that are preserved. -/
theorem gitignore_iff (initial : Option Bytes) : Faithful initial ↔ Preserved initial :=
  ⟨preserved_of_faithful, faithful_of_preserved⟩

/-- A blank line at the end of the file is taken for a separator. -/
theorem blank_line_lost : ¬ Faithful (some (utf8 "*.log\n\n".toList)) := by
  intro h
  have hclean : Clean ["*.log".toList, []] :=
    List.forall_mem_cons.mpr ⟨forall_mem_of_all (by decide),
      List.forall_mem_singleton.mpr fun _ hc => absurd hc List.not_mem_nil⟩
  have hread : readGitignoreLines (some (utf8 "*.log\n\n".toList)) = some ["*.log".toList, []] :=
    read_textOf hclean
  have hplain : gitignoreBlockBegin ∉ ["*.log".toList, []] := by
    decide
  rcases preserved_of_faithful h with hnone | hlines
  · cases hnone
  · rcases hlines _ hread with horphaned | ⟨-, hsafe, -⟩
    · exact hplain horphaned.mem
    · obtain hnil | ⟨last, hlast, hblank⟩ := sound_last (Or.inr hsafe) hplain
      · cases hnil
      · cases hlast
        cases hblank

end GitHygiene
end Client
end Nauro
