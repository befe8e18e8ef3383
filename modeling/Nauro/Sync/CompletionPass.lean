import Nauro.Core.PlainYaml
import Nauro.Sync.DecisionCorpus
import Nauro.Sync.HeadingRepair

/-!
# The pass that finishes interrupted renumbers

The pass goes through the files whose heading and name disagree and rewrites the heading of each
one that is uncontested, isolated and canonically headed.

* `completion_pass_iff` — repairs are sound and a second pass repairs nothing exactly when the
  repaired files were plainly headed.
-/

namespace Nauro
namespace Sync

open Foundation Core
open EscapedUtf8 (utf8)

variable {E : Type} (tables : SyncTables) (yaml : Yaml E)

/-! ## The pass -/

/-- One file whose heading was realigned with its name. -/
structure HeadingRepair where
  name : Text
  fromNum : Nat
  toNum : Nat
deriving DecidableEq

/-- `_CompletionRefusal`. -/
inductive CompletionRefusal where
  | storeState
  | headingNotRewritable
deriving DecidableEq

/-- A repair leaves a store; a refusal changes nothing. -/
inductive Completion where
  | repaired (repair : HeadingRepair) (store : DecisionStore)
  | refused (reason : CompletionRefusal)

/-- Whether another entry holds the number of a file, or one that is never read. -/
def contested (store : DecisionStore) (file : CorpusFile) : Bool :=
  1 < (store.files tables).countP (fun holder => holder.number == file.number) ||
    (store.irregularNumbers tables).contains file.number

/-- `_complete_heading`. -/
def completeHeading (store : DecisionStore) (file : CorpusFile) (heading : Nat)
    (isContested : Bool) : Except SyncError Completion :=
  if isContested then .ok (.refused .storeState)
  else
    match isolationDefect tables yaml store file [file.number, heading] with
    | .error error => .error error
    | .ok (some _) => .ok (.refused .storeState)
    | .ok none =>
        match file.content with
        | none => .ok (.refused .headingNotRewritable)
        | some bytes =>
            if !hasRewritableHeading (readTextLenient bytes) heading then
              .ok (.refused .headingNotRewritable)
            else
              .ok (.repaired ⟨file.name, heading, file.number⟩
                (store.write file.name (repairedBytes bytes heading file.number)))

/-- What a pass found and healed, and the store it leaves. -/
structure CompletionOutcome where
  store : DecisionStore
  repaired : List HeadingRepair
  unrepairable : List Text
  quarantined : List Text
  /-- The exception the pass ended with. -/
  raised : Option SyncError

/-- The loop over the mismatched files; `scanned` is the store as it was listed. -/
def completeAll (scanned : DecisionStore) :
    List (CorpusFile × Nat) → DecisionStore → CompletionOutcome
  | [], store => ⟨store, [], [], [], none⟩
  | (file, heading) :: rest, store =>
      match completeHeading tables yaml store file heading (contested tables scanned file) with
      | .error error => ⟨store, [], [], [], some error⟩
      | .ok (.repaired repair store') =>
          let later := completeAll scanned rest store'
          { later with repaired := repair :: later.repaired }
      | .ok (.refused .storeState) =>
          let later := completeAll scanned rest store
          { later with unrepairable := file.name :: later.unrepairable }
      | .ok (.refused .headingNotRewritable) =>
          let later := completeAll scanned rest store
          { later with quarantined := file.name :: later.quarantined }

/-- The heading of a file that has not been read yet. -/
def CorpusFile.heading (file : CorpusFile) : Except DigitLimit (Option Nat) :=
  ((DecisionFile.unread file.name file.number).headingNumber file.content).1

/-- The files whose heading claims another number than their name. -/
def mismatched : List CorpusFile → Except DigitLimit (List (CorpusFile × Nat))
  | [] => .ok []
  | file :: rest => do
      let heading ← file.heading
      let later ← mismatched rest
      match heading with
      | none => .ok later
      | some heading => .ok (if heading = file.number then later else (file, heading) :: later)

/-- `run_completion_pass` on a fresh scan of the store; the hash index is not part of it. -/
def runCompletionPass (store : DecisionStore) : CompletionOutcome :=
  match mismatched (store.files tables) with
  | .error _ => ⟨store, [], [], [], some .digitLimit⟩
  | .ok todo => completeAll tables yaml store todo store

/-! ## What the claims are about -/

/-- A repair of the pass changed the file's heading alone, to the number of its name. -/
def RepairedSoundly (before after : DecisionStore) (repair : HeadingRepair) : Prop :=
  extractDecisionNumber tables.toUnicodeTables repair.name = some repair.toNum ∧
    ∃ bytes bytes', before.content? repair.name = some bytes ∧
      after.content? repair.name = some bytes' ∧ SoundRepair bytes bytes' repair.toNum

/-- The file of a repair was plainly headed. -/
def RepairedPlainly (before : DecisionStore) (repair : HeadingRepair) : Prop :=
  ∃ bytes, before.content? repair.name = some bytes ∧
    ∃ front h1, PlainlyHeaded bytes repair.fromNum repair.toNum front h1

/-! ## One file -/

variable {tables yaml}

theorem contested_write {store : DecisionStore} {file : CorpusFile}
    (h : file ∈ store.files tables) (bytes : List UInt8) (other : CorpusFile) :
    contested tables (store.write file.name bytes) other = contested tables store other := by
  have hsame : (fun holder : CorpusFile => holder.number == other.number) ∘
      CorpusFile.afterWrite file.name bytes = fun holder => holder.number == other.number :=
    funext fun holder => by rw [Function.comp_apply, CorpusFile.afterWrite_number]
  rw [contested, contested, irregularNumbers_write h, files_write h, List.countP_map, hsame]

/-- When a file's heading is rewritten, and what is written. -/
theorem completeHeading_repaired_iff {store store' : DecisionStore} {file : CorpusFile}
    {heading : Nat} {isContested : Bool} {repair : HeadingRepair} :
    completeHeading tables yaml store file heading isContested = .ok (.repaired repair store') ↔
      isContested = false ∧ Isolated tables yaml store file [file.number, heading] ∧
        ∃ bytes, file.content = some bytes ∧
          hasRewritableHeading (readTextLenient bytes) heading = true ∧
          repair = ⟨file.name, heading, file.number⟩ ∧
          store' = store.write file.name (repairedBytes bytes heading file.number) := by
  rw [completeHeading, Isolated]
  cases isContested with
  | true => simp
  | false =>
      cases hdefect : isolationDefect tables yaml store file [file.number, heading] with
      | error e => simp
      | ok defect =>
          cases defect with
          | some defect => simp
          | none =>
              cases hcontent : file.content with
              | none => simp
              | some bytes =>
                  cases hrewritable : hasRewritableHeading (readTextLenient bytes) heading with
                  | false => simp [hrewritable]
                  | true =>
                      simp only [hrewritable, Bool.not_true, Bool.false_eq_true, if_false,
                        Except.ok.injEq, Completion.repaired.injEq, Option.some.injEq,
                        exists_eq_left', true_and, eq_comm]

/-- The pass does not rewrite the file's heading. -/
def NotRepaired (tables : SyncTables) (yaml : Yaml E) (store : DecisionStore) (file : CorpusFile)
    (heading : Nat) (isContested : Bool) : Prop :=
  ∀ repair store', completeHeading tables yaml store file heading isContested ≠
    .ok (.repaired repair store')

/-- A file that was refused is refused in every store in which less is isolated. -/
theorem NotRepaired.mono {store store' : DecisionStore} {file : CorpusFile} {heading : Nat}
    {isContested : Bool} (h : NotRepaired tables yaml store file heading isContested)
    (hless : ∀ {numbers}, Isolated tables yaml store' file numbers →
      Isolated tables yaml store file numbers) :
    NotRepaired tables yaml store' file heading isContested := by
  intro repair after hrepaired
  obtain ⟨hcontested, hisolated, bytes, hbytes, hrewritable, -, -⟩ :=
    completeHeading_repaired_iff.mp hrepaired
  exact h _ _ (completeHeading_repaired_iff.mpr
    ⟨hcontested, hless hisolated, bytes, hbytes, hrewritable, rfl, rfl⟩)

/-! ## A run of the loop -/

/-- What the loop leaves: repaired files hold the rewritten text, the others are as they were,
and no file is isolated, or uncontested, that was not. -/
structure PassSpec (tables : SyncTables) (yaml : Yaml E) (scanned before : DecisionStore)
    (todo : List (CorpusFile × Nat)) (outcome : CompletionOutcome) : Prop where
  repaired : ∀ repair ∈ outcome.repaired, ∃ file heading bytes, (file, heading) ∈ todo ∧
    file.content = some bytes ∧ hasRewritableHeading (readTextLenient bytes) heading = true ∧
    repair = ⟨file.name, heading, file.number⟩ ∧
    outcome.store.content? file.name = some (repairedBytes bytes heading file.number)
  others : ∀ file : CorpusFile, file.name ∉ outcome.repaired.map HeadingRepair.name →
    (file ∈ outcome.store.files tables ↔ file ∈ before.files tables)
  names : ∀ file ∈ outcome.store.files tables, ∃ file' ∈ before.files tables,
    file'.name = file.name ∧ file'.number = file.number
  isolated : ∀ {file numbers}, Isolated tables yaml outcome.store file numbers →
    Isolated tables yaml before file numbers
  contested : ∀ file, contested tables outcome.store file = contested tables before file
  refused : outcome.raised = none → ∀ file heading, (file, heading) ∈ todo →
    file.name ∉ outcome.repaired.map HeadingRepair.name →
    NotRepaired tables yaml outcome.store file heading (Sync.contested tables scanned file)

/-- The loop stops, or has nothing to do, without a change. -/
theorem passSpec_unchanged {scanned store : DecisionStore} {todo : List (CorpusFile × Nat)}
    {raised : Option SyncError} (h : raised = none → todo = []) :
    PassSpec tables yaml scanned store todo ⟨store, [], [], [], raised⟩ where
  repaired _ hin := absurd hin List.not_mem_nil
  others _ _ := Iff.rfl
  names file hin := ⟨file, hin, rfl, rfl⟩
  isolated h := h
  contested _ := rfl
  refused hraised file heading hin := by
    rw [h hraised] at hin
    exact absurd hin List.not_mem_nil

/-- A refused file is passed over. -/
theorem PassSpec.cons_refused {scanned store : DecisionStore} {file : CorpusFile} {heading : Nat}
    {todo : List (CorpusFile × Nat)} {outcome : CompletionOutcome}
    (h : PassSpec tables yaml scanned store todo outcome)
    (hrefused : NotRepaired tables yaml store file heading (Sync.contested tables scanned file))
    (unrepairable quarantined : List Text) :
    PassSpec tables yaml scanned store ((file, heading) :: todo)
      { outcome with unrepairable := unrepairable, quarantined := quarantined } where
  repaired repair hin := by
    obtain ⟨file', heading', bytes, htodo, hrest⟩ := h.repaired repair hin
    exact ⟨file', heading', bytes, List.mem_cons_of_mem _ htodo, hrest⟩
  others := h.others
  names := h.names
  isolated := h.isolated
  contested := h.contested
  refused hraised file' heading' hin hnot := by
    rcases List.mem_cons.mp hin with heq | hin
    · cases heq
      exact hrefused.mono h.isolated
    · exact h.refused hraised file' heading' hin hnot

/-- A repaired file is written, and the loop goes on. -/
theorem PassSpec.cons_repaired {scanned store : DecisionStore} {file : CorpusFile}
    {heading : Nat} {todo : List (CorpusFile × Nat)} {bytes : List UInt8}
    {outcome : CompletionOutcome} (hfile : file ∈ store.files tables)
    (hisolated : Isolated tables yaml store file [file.number, heading])
    (hbytes : file.content = some bytes)
    (hrewritable : hasRewritableHeading (readTextLenient bytes) heading = true)
    (hfresh : file.name ∉ todo.map fun entry => entry.1.name)
    (h : PassSpec tables yaml scanned
      (store.write file.name (repairedBytes bytes heading file.number)) todo outcome) :
    PassSpec tables yaml scanned store ((file, heading) :: todo)
      { outcome with repaired := ⟨file.name, heading, file.number⟩ :: outcome.repaired } := by
  have hlater : file.name ∉ outcome.repaired.map HeadingRepair.name := by
    intro hin
    obtain ⟨repair, hrepair, hname⟩ := List.mem_map.mp hin
    obtain ⟨file', heading', -, htodo, -, -, rfl, -⟩ := h.repaired repair hrepair
    exact hfresh (List.mem_map.mpr ⟨_, htodo, hname⟩)
  refine ⟨fun repair hin => ?_, fun other hother => ?_, fun other hother => ?_,
    fun hother => ?_, fun other => ?_, fun hraised other heading' hin hother => ?_⟩
  · rcases List.mem_cons.mp hin with rfl | hin
    · refine ⟨file, heading, bytes, List.mem_cons_self, hbytes, hrewritable, rfl, ?_⟩
      have hwritten := (h.others
        (file.afterWrite file.name (repairedBytes bytes heading file.number))
        (by rwa [CorpusFile.afterWrite_name])).mpr (by
          rw [files_write hfile]
          exact List.mem_map_of_mem hfile)
      have hcontent := content?_of_file hwritten
      rwa [CorpusFile.afterWrite_name, CorpusFile.afterWrite, if_pos rfl] at hcontent
    · obtain ⟨file', heading', bytes', htodo, hrest⟩ := h.repaired repair hin
      exact ⟨file', heading', bytes', List.mem_cons_of_mem _ htodo, hrest⟩
  · rw [List.map_cons, List.mem_cons, not_or] at hother
    rw [h.others other hother.2, mem_files_write_of_ne hfile _ hother.1]
  · obtain ⟨other', hother', hname, hnumber⟩ := h.names other hother
    rw [files_write hfile] at hother'
    obtain ⟨before, hbefore, rfl⟩ := List.mem_map.mp hother'
    rw [CorpusFile.afterWrite_name] at hname
    rw [CorpusFile.afterWrite_number] at hnumber
    exact ⟨before, hbefore, hname, hnumber⟩
  · exact Isolated.of_write hfile hisolated (h.isolated hother)
  · rw [h.contested other, contested_write hfile]
  · rw [List.map_cons, List.mem_cons, not_or] at hother
    rcases List.mem_cons.mp hin with heq | hin
    · cases heq
      exact absurd rfl hother.1
    · exact h.refused hraised other heading' hin hother.2

theorem completeAll_spec {scanned : DecisionStore} {todo : List (CorpusFile × Nat)}
    {store : DecisionStore} (hlisted : ∀ entry ∈ todo, entry.1 ∈ store.files tables)
    (hdistinct : (todo.map fun entry => entry.1.name).Nodup) :
    PassSpec tables yaml scanned store todo (completeAll tables yaml scanned todo store) := by
  induction todo generalizing store with
  | nil => exact passSpec_unchanged fun _ => rfl
  | cons entry todo ih =>
      obtain ⟨file, heading⟩ := entry
      rw [List.map_cons, List.nodup_cons] at hdistinct
      obtain ⟨hfresh, hdistinct⟩ := hdistinct
      have hfile : file ∈ store.files tables := hlisted _ List.mem_cons_self
      have hrest : ∀ entry ∈ todo, entry.1 ∈ store.files tables := fun entry hin =>
        hlisted entry (List.mem_cons_of_mem _ hin)
      rw [completeAll]
      cases hstep : completeHeading tables yaml store file heading
          (contested tables scanned file) with
      | error error => exact passSpec_unchanged fun h => by cases h
      | ok completion =>
          cases completion with
          | refused reason =>
              have hrefused : NotRepaired tables yaml store file heading
                  (contested tables scanned file) := by
                intro repair store' hrepaired
                rw [hstep] at hrepaired
                cases hrepaired
              cases reason with
              | storeState => exact (ih hrest hdistinct).cons_refused hrefused _ _
              | headingNotRewritable => exact (ih hrest hdistinct).cons_refused hrefused _ _
          | repaired repair store' =>
              obtain ⟨-, hisolated, bytes, hbytes, hrewritable, rfl, rfl⟩ :=
                completeHeading_repaired_iff.mp hstep
              refine PassSpec.cons_repaired hfile hisolated hbytes hrewritable hfresh
                (ih (fun entry hin => ?_) hdistinct)
              refine (mem_files_write_of_ne hfile _ ?_).mpr (hrest entry hin)
              rintro hname
              exact hfresh (List.mem_map.mpr ⟨entry, hin, hname⟩)

/-! ## The files to complete -/

theorem mismatched_cons {first : CorpusFile} {files : List CorpusFile}
    {todo : List (CorpusFile × Nat)} (h : mismatched (first :: files) = .ok todo) :
    ∃ later, mismatched files = .ok later ∧
      ((∃ heading, first.heading = .ok (some heading) ∧ heading ≠ first.number ∧
          todo = (first, heading) :: later) ∨
        ((∀ heading, first.heading = .ok (some heading) → heading = first.number) ∧
          todo = later)) := by
  rw [mismatched] at h
  cases hfirst : first.heading with
  | error e => rw [hfirst] at h; cases h
  | ok read =>
      rw [hfirst] at h
      cases hrest : mismatched files with
      | error e => rw [hrest] at h; cases h
      | ok later =>
          rw [hrest] at h
          refine ⟨later, rfl, ?_⟩
          cases read with
          | none => exact Or.inr ⟨fun heading hread => (by cases hread), (Except.ok.inj h).symm⟩
          | some heading =>
              have htodo := (Except.ok.inj h).symm
              by_cases hsame : heading = first.number
              · rw [if_pos hsame] at htodo
                exact Or.inr ⟨fun other hread => (by cases hread; exact hsame), htodo⟩
              · rw [if_neg hsame] at htodo
                exact Or.inl ⟨heading, rfl, hsame, htodo⟩

theorem mem_mismatched {files : List CorpusFile} {todo : List (CorpusFile × Nat)}
    (h : mismatched files = .ok todo) {file : CorpusFile} {heading : Nat} :
    (file, heading) ∈ todo ↔
      file ∈ files ∧ file.heading = .ok (some heading) ∧ heading ≠ file.number := by
  induction files generalizing todo with
  | nil =>
      cases h
      simp
  | cons first files ih =>
      obtain ⟨later, hlater, ⟨claimed, hread, hne, rfl⟩ | ⟨hsame, rfl⟩⟩ := mismatched_cons h
      · rw [List.mem_cons, List.mem_cons, ih hlater]
        constructor
        · rintro (heq | ⟨hin, hheading⟩)
          · cases heq
            exact ⟨Or.inl rfl, hread, hne⟩
          · exact ⟨Or.inr hin, hheading⟩
        · rintro ⟨rfl | hin, hheading, hother⟩
          · rw [hread] at hheading
            cases hheading
            exact Or.inl rfl
          · exact Or.inr ⟨hin, hheading, hother⟩
      · rw [List.mem_cons, ih hlater]
        constructor
        · exact fun ⟨hin, hheading⟩ => ⟨Or.inr hin, hheading⟩
        · rintro ⟨rfl | hin, hheading, hother⟩
          · exact absurd (hsame heading hheading) hother
          · exact ⟨hin, hheading, hother⟩

theorem mismatched_sublist {files : List CorpusFile} {todo : List (CorpusFile × Nat)}
    (h : mismatched files = .ok todo) : (todo.map Prod.fst).Sublist files := by
  induction files generalizing todo with
  | nil =>
      cases h
      exact List.Sublist.refl _
  | cons first files ih =>
      obtain ⟨later, hlater, ⟨claimed, -, -, rfl⟩ | ⟨-, rfl⟩⟩ := mismatched_cons h
      · exact (ih hlater).cons_cons first
      · exact (ih hlater).cons first

/-- With every file refused, nothing is repaired. -/
theorem completeAll_refused {scanned store : DecisionStore} {todo : List (CorpusFile × Nat)}
    (h : ∀ entry ∈ todo, NotRepaired tables yaml store entry.1 entry.2
      (contested tables scanned entry.1)) :
    (completeAll tables yaml scanned todo store).repaired = [] := by
  induction todo with
  | nil => rfl
  | cons entry todo ih =>
      obtain ⟨file, heading⟩ := entry
      have hrest := ih fun entry hin => h entry (List.mem_cons_of_mem _ hin)
      rw [completeAll]
      cases hstep : completeHeading tables yaml store file heading
          (contested tables scanned file) with
      | error error => rfl
      | ok completion =>
          cases completion with
          | refused reason => cases reason <;> exact hrest
          | repaired repair store' => exact absurd hstep (h _ List.mem_cons_self _ _)

/-! ## The pass -/

/-- The pass on a store all of whose headings can be read. -/
theorem runCompletionPass_spec {store : DecisionStore} {todo : List (CorpusFile × Nat)}
    (h : mismatched (store.files tables) = .ok todo) :
    runCompletionPass tables yaml store = completeAll tables yaml store todo store ∧
      PassSpec tables yaml store store todo (runCompletionPass tables yaml store) := by
  have hrun : runCompletionPass tables yaml store = completeAll tables yaml store todo store := by
    rw [runCompletionPass, h]
  refine ⟨hrun, ?_⟩
  rw [hrun]
  refine completeAll_spec (fun entry hin => ((mem_mismatched h).mp hin).1) ?_
  have hnames : ((todo.map Prod.fst).map CorpusFile.name).Sublist
      ((store.files tables).map CorpusFile.name) := (mismatched_sublist h).map _
  rw [List.map_map] at hnames
  exact hnames.nodup (files_names_nodup store)

theorem length_numberText_le (identifier : Text) :
    (numberText tables.toUnicodeTables identifier).length ≤ identifier.length := by
  have hstem : (removeSuffix ".md".toList identifier).length ≤ identifier.length := by
    rw [removeSuffix]
    split
    · rw [List.length_take]
      exact Nat.min_le_right _ _
    · exact Nat.le_refl _
  unfold numberText
  simp only
  split_ifs
  · rw [List.length_drop]
    omega
  · rw [List.length_drop]
    omega
  · exact hstem

theorem extractDecisionNumber_lt {identifier : Text} {n : Nat}
    (h : extractDecisionNumber tables.toUnicodeTables identifier = some n) :
    n < 10 ^ identifier.length := by
  rw [extractDecisionNumber_eq, leadingNumber?] at h
  split at h
  · cases h
  · rw [number?] at h
    split at h
    · next hdigits =>
        have hlt := ofDigitChars_lt hdigits.2
        rw [Option.some.inj h] at hlt
        refine hlt.trans_le (Nat.pow_le_pow_right (by decide) ?_)
        exact (List.takeWhile_sublist _).length_le.trans (length_numberText_le identifier)
    · cases h

/-- A number that stands in a file name has few enough digits for `int`. -/
theorem number_short {store : DecisionStore} {file : CorpusFile}
    (h : file ∈ store.files tables) : (padNumber 3 file.number).length ≤ intMaxStrDigits := by
  obtain ⟨hin, hnumber, -⟩ := mem_files h
  have hname : file.name.length ≤ nameMax := store.short _ (List.mem_map.mpr ⟨_, hin, rfl⟩)
  have hlt : file.number < 10 ^ nameMax := (extractDecisionNumber_lt hnumber).trans_le
    (Nat.pow_le_pow_right (by decide) hname)
  have hdigits : (Nat.toDigits 10 file.number).length ≤ nameMax :=
    (Nat.length_toDigits_le_iff (by decide) (by decide)).mpr hlt
  have hroom : nameMax + 3 ≤ intMaxStrDigits := by decide
  rw [padNumber, List.length_append, List.length_replicate]
  omega

/-- What a repair of the pass starts from and leaves. -/
theorem exists_repaired {store : DecisionStore} {repair : HeadingRepair}
    (h : repair ∈ (runCompletionPass tables yaml store).repaired) :
    ∃ file ∈ store.files tables, ∃ bytes, file.content = some bytes ∧
      repair.name = file.name ∧ repair.toNum = file.number ∧ repair.fromNum ≠ file.number ∧
      streamedHeading bytes = .ok (some repair.fromNum) ∧
      hasRewritableHeading (readTextLenient bytes) repair.fromNum = true ∧
      (runCompletionPass tables yaml store).store.content? file.name =
        some (repairedBytes bytes repair.fromNum file.number) := by
  cases htodo : mismatched (store.files tables) with
  | error e =>
      rw [runCompletionPass, htodo] at h
      exact absurd h List.not_mem_nil
  | ok todo =>
      have hspec : PassSpec tables yaml store store todo (runCompletionPass tables yaml store) :=
        (runCompletionPass_spec htodo).2
      obtain ⟨file, heading, bytes, hin, hbytes, hrewritable, rfl, hafter⟩ := hspec.repaired _ h
      obtain ⟨hfile, hheading, hne⟩ := (mem_mismatched htodo).mp hin
      refine ⟨file, hfile, bytes, hbytes, rfl, rfl, hne, ?_, hrewritable, hafter⟩
      rw [CorpusFile.heading, hbytes] at hheading
      exact hheading

/-- A repair of the pass is sound exactly at a plainly headed file. -/
theorem repairedSoundly_iff {store : DecisionStore} {repair : HeadingRepair}
    (h : repair ∈ (runCompletionPass tables yaml store).repaired) :
    RepairedSoundly tables store (runCompletionPass tables yaml store).store repair ↔
      RepairedPlainly store repair := by
  obtain ⟨file, hfile, bytes, hbytes, hname, hto, hne, hheading, hrewritable, hafter⟩ :=
    exists_repaired h
  have hsound := repair_sound_iff hheading hne (number_short hfile) hrewritable
  rw [RepairedSoundly, RepairedPlainly, hname, hto, content?_of_file hfile, hbytes, hafter]
  constructor
  · rintro ⟨-, _, _, hbefore, hbytes', hrepair⟩
    cases hbefore
    cases hbytes'
    exact ⟨bytes, rfl, hsound.mp hrepair⟩
  · rintro ⟨_, hbefore, hplain⟩
    cases hbefore
    exact ⟨(mem_files hfile).2.1, bytes, _, rfl, rfl, hsound.mpr hplain⟩

/-- After repairs that are sound a second pass finds nothing to repair. -/
theorem second_pass_idle {store : DecisionStore}
    (hdone : (runCompletionPass tables yaml store).raised = none)
    (hsound : ∀ repair ∈ (runCompletionPass tables yaml store).repaired,
      RepairedSoundly tables store (runCompletionPass tables yaml store).store repair) :
    (runCompletionPass tables yaml (runCompletionPass tables yaml store).store).repaired = [] := by
  cases htodo : mismatched (store.files tables) with
  | error e =>
      rw [runCompletionPass, htodo] at hdone
      cases hdone
  | ok todo =>
      have hspec : PassSpec tables yaml store store todo (runCompletionPass tables yaml store) :=
        (runCompletionPass_spec htodo).2
      set outcome := runCompletionPass tables yaml store with houtcome
      rw [runCompletionPass]
      cases hagain : mismatched (outcome.store.files tables) with
      | error e => rfl
      | ok again =>
          refine completeAll_refused fun entry hin => ?_
          obtain ⟨file, heading⟩ := entry
          obtain ⟨hfile, hheading, hne⟩ := (mem_mismatched hagain).mp hin
          by_cases hrepaired : file.name ∈ outcome.repaired.map HeadingRepair.name
          · -- the heading of a repaired file agrees with its name
            exfalso
            obtain ⟨repair, hrepair, hname⟩ := List.mem_map.mp hrepaired
            obtain ⟨hnumber, -, bytes', -, hafter, -, hstreamed, -⟩ := hsound repair hrepair
            rw [hname] at hnumber hafter
            rw [content?_of_file hfile] at hafter
            rw [(mem_files hfile).2.1] at hnumber
            rw [CorpusFile.heading, hafter] at hheading
            have hsame := hheading.symm.trans hstreamed
            exact hne ((Option.some.inj (Except.ok.inj hsame)).trans
              (Option.some.inj hnumber).symm)
          · -- a file that was refused is refused again
            have hbefore := (hspec.others file hrepaired).mp hfile
            have hrefused := hspec.refused hdone file heading
              ((mem_mismatched htodo).mpr ⟨hbefore, hheading, hne⟩) hrepaired
            show NotRepaired tables yaml outcome.store file heading
              (contested tables outcome.store file)
            rw [hspec.contested file]
            exact hrefused

/-- The repairs of a pass are sound, and a second pass after it repairs nothing, exactly when
every repaired file was plainly headed. -/
theorem completion_pass_iff (tables : SyncTables) (yaml : Yaml E) (store : DecisionStore) :
    let outcome := runCompletionPass tables yaml store
    ((∀ repair ∈ outcome.repaired, RepairedSoundly tables store outcome.store repair) ∧
        (outcome.raised = none → (runCompletionPass tables yaml outcome.store).repaired = [])) ↔
      ∀ repair ∈ outcome.repaired, RepairedPlainly store repair := by
  intro outcome
  constructor
  · rintro ⟨hsound, -⟩ repair hrepair
    exact (repairedSoundly_iff hrepair).mp (hsound repair hrepair)
  · intro hplain
    have hsound : ∀ repair ∈ outcome.repaired, RepairedSoundly tables store outcome.store repair :=
      fun repair hrepair => (repairedSoundly_iff hrepair).mpr (hplain repair hrepair)
    exact ⟨hsound, fun hdone => second_pass_idle hdone hsound⟩

/-! ## A file whose body quotes headings -/

def quotedName : Text := "008-queue.md".toList

/-- A heading spelled without zeros over lines that quote canonical ones. -/
def quotedFile : Text :=
  ("---\ndate: 2026-04-16\nconfidence: high\n---\n\n# 7 — Queue\n\n## Decision\n\n" ++
    "# 007 — A\n# 007 — B\n").toList

def quotedStore : DecisionStore where
  entries := [(quotedName, .regular (some (utf8 quotedFile)))]
  questions := .absent
  distinct := List.nodup_singleton _
  short := by decide

/-- The pass over the file that quotes headings. -/
def quotedPass : CompletionOutcome :=
  runCompletionPass .ascii plainYaml quotedStore

theorem quotedPass_run :
    quotedPass.raised = none ∧ quotedPass.repaired = [⟨quotedName, 7, 8⟩] ∧
      (quotedPass.store.content? quotedName).map
          (fun bytes => (headingNumber (readTextLenient bytes)).toOption) = some (some (some 7)) ∧
      (runCompletionPass .ascii plainYaml quotedPass.store).repaired = [⟨quotedName, 7, 8⟩] := by
  decide +kernel

/-- A file whose heading claims another number was not repaired soundly. -/
theorem not_repairedSoundly {before after : DecisionStore} {repair : HeadingRepair} {n : Nat}
    (hheading : (after.content? repair.name).map
      (fun bytes => (headingNumber (readTextLenient bytes)).toOption) = some (some (some n)))
    (hne : n ≠ repair.toNum) : ¬ RepairedSoundly tables before after repair := by
  rintro ⟨-, _, bytes, -, hafter, hnumber, -⟩
  rw [hafter, Option.map_some, hnumber] at hheading
  exact hne (Option.some.inj (Option.some.inj (Option.some.inj hheading))).symm

/-- The pass rewrites a line of the body, after which the heading still claims 7, and a second
pass rewrites the next line. -/
theorem quoted_heading_rewritten :
    quotedPass.raised = none ∧
      ¬ (∀ repair ∈ quotedPass.repaired,
        RepairedSoundly .ascii quotedStore quotedPass.store repair) ∧
      (runCompletionPass .ascii plainYaml quotedPass.store).repaired ≠ [] := by
  obtain ⟨hraised, hrepaired, hheading, hagain⟩ := quotedPass_run
  refine ⟨hraised, fun hsound => ?_, fun hnone => ?_⟩
  · have hin : ⟨quotedName, 7, 8⟩ ∈ quotedPass.repaired :=
      hrepaired ▸ List.mem_singleton_self _
    have hnot : ¬ RepairedSoundly .ascii quotedStore quotedPass.store ⟨quotedName, 7, 8⟩ :=
      not_repairedSoundly hheading (show 7 ≠ 8 by decide)
    exact hnot (hsound _ hin)
  · rw [hnone] at hagain
    cases hagain

end Sync
end Nauro
