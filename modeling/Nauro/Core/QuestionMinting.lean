import Nauro.Core.FlagQuestion
import Nauro.Core.QuestionChanges
import Nauro.Core.Transitions

/-!
# Whether question numbers are minted afresh

The questions file is changed by flags, resolutions, migrations and confirmed decisions. A
number is minted one past the highest number of an entry; the numbers that only a `### `
heading uses are not counted, and past the width bound the operation raises.

* `opKeepsIds_iff`, `question_numbers_never_reused` — over one operation, and over a run.
-/

namespace Nauro
namespace Core
namespace Questions

open Foundation

variable {E : Type}

/-! ## Operations on the questions file -/

inductive QuestionOp where
  /-- `flag_question`. -/
  | flag (question : Option Text) (targets : List Text) (resolvedBy : Option Text) (today : Date)
  /-- `nauro questions migrate`. -/
  | migrate
  /-- The questions write of a confirmed decision. -/
  | decide (questionIds : List Text) (decisionNumber : Nat) (today : Date)
  /-- A change of the decision files alone. -/
  | others (decisions : Table Text Text)

/-- What an operation reports. -/
structure OpReport where
  minted : List Nat
  rejection : Option FlagRejection

def FlagResult.report : FlagResult → OpReport
  | .appended num => ⟨[num], none⟩
  | .resolved _ _ => ⟨[], none⟩
  | .rejected rejection => ⟨[], some rejection⟩

/-- The numbers that renames mint. -/
def mintedNumbers (renames : List MigrationRename) : List Nat :=
  renames.filterMap fun rename => parseQuestionId rename.newId

/-- Run an operation; `none` when an exception leaves it. -/
def QuestionOp.run (rt : Runtime E) (store : Store) : QuestionOp → Option (OpReport × Store)
  | .flag question targets resolvedBy today =>
      (flagQuestion rt store question targets resolvedBy today).map fun (result, after) =>
        (result.report, after)
  | .migrate =>
      (migrateQuestions rt store false).map fun (renames, after) =>
        (⟨mintedNumbers renames, none⟩, after)
  | .decide questionIds decisionNumber today =>
      if questionIds = [] then some (⟨[], none⟩, store)
      else
        (resolveQuestionsContent rt.tables ((store.readQuestions rt).getD []) questionIds
          decisionNumber today).map fun transition =>
            (⟨[], none⟩, store.writeQuestions transition.content)
  | .others decisions => some (⟨[], none⟩, { store with decisions })

/-- The store after an operation; an exception leaves it as it was. -/
def QuestionOp.after (rt : Runtime E) (store : Store) (op : QuestionOp) : Store :=
  ((op.run rt store).map Prod.snd).getD store

/-- The numbers that an operation mints. -/
def QuestionOp.minted (rt : Runtime E) (store : Store) (op : QuestionOp) : List Nat :=
  ((op.run rt store).map fun result => result.1.minted).getD []

/-! ## Ids in use -/

def LineId.number? : LineId → Option Nat
  | .entry (.num n _) => some n
  | .entry (.timestamp _) => none
  | .heading embeddedId => parseQuestionId embeddedId

/-- The text that names an entry. -/
def LineId.entryId? : LineId → Option Text
  | .entry (.num n _) => some (formatQuestionId n)
  | .entry (.timestamp stamp) => some stamp
  | .heading _ => none

def LineId.entryNumber? : LineId → Option Nat
  | .entry (.num n _) => some n
  | _ => none

def LineId.headingNumber? : LineId → Option Nat
  | .heading embeddedId => parseQuestionId embeddedId
  | .entry _ => none

/-- The ids that the questions file uses, as an operation reads them. -/
def storeIds (rt : Runtime E) (store : Store) : List LineId :=
  lineIds (openQuestionsText rt store)

/-- The numbers that entries and headings use. -/
def usedNumbers (rt : Runtime E) (store : Store) : List Nat :=
  (storeIds rt store).filterMap LineId.number?

/-- The ids of the entries, once for each entry. -/
def entryIds (rt : Runtime E) (store : Store) : List Text :=
  (storeIds rt store).filterMap LineId.entryId?

/-- The highest number of an entry. -/
def highestEntry (rt : Runtime E) (store : Store) : Nat :=
  ((storeIds rt store).filterMap LineId.entryNumber?).foldr max 0

/-- The highest number of an entry or a heading. -/
def highestUsed (rt : Runtime E) (store : Store) : Nat :=
  (usedNumbers rt store).foldr max 0

/-! ## What an operation owes -/

/-- The question that `flag_question` appends, when it gets as far as minting a number. -/
def QuestionOp.appends? (rt : Runtime E) (store : Store) : QuestionOp → Option Text
  | .flag question targets none _ =>
      (question.filter fun q => strip q ≠ []).filter fun _ =>
        (shortCircuitIfResolved (OpenQuestionsFile.parse rt.tables (openQuestionsText rt store))
          (targets.map canonicalizeQuestionReference)).isNone
  | _ => none

/-- How many numbers an operation needs. -/
def QuestionOp.demand (rt : Runtime E) (store : Store) : QuestionOp → Nat
  | .migrate => (storeIds rt store).countP LineId.isLegacy
  | op => if (op.appends? rt store).isSome then 1 else 0

/-- Numbers are minted afresh, no id comes to name one more entry than it did, unless it named
none, and an operation that finds no number left is rejected and changes nothing. -/
structure OpKeepsIds (rt : Runtime E) (store : Store) (op : QuestionOp) : Prop where
  fresh : ∀ n ∈ op.minted rt store, ∀ m ∈ usedNumbers rt store, m < n
  single : ∀ id, (entryIds rt (op.after rt store)).count id ≤
    max 1 ((entryIds rt store).count id)
  exhausted : 0 < op.demand rt store →
    maxQuestionNumber < highestUsed rt store + op.demand rt store →
      ∃ rejection, op.run rt store = some (⟨[], some rejection⟩, store)

/-- The further lines of a question open no entry under an id in use, the id about to be minted
or an id of another of these lines. -/
structure FurtherLinesFresh (rt : Runtime E) (store : Store) (question : Text) : Prop where
  distinct : ((furtherIds rt.readText question).filterMap LineId.entryId?).Nodup
  unused : ∀ id ∈ (furtherIds rt.readText question).filterMap LineId.entryId?,
    id ∉ entryIds rt store ∧ id ≠ formatQuestionId (highestEntry rt store + 1)

/-- An operation that needs numbers finds them: no heading uses a number above every entry's,
the numbers stay within the bound, and a question's further lines bring in no used id. -/
structure OpMintsSafely (rt : Runtime E) (store : Store) (op : QuestionOp) : Prop where
  headings : 0 < op.demand rt store →
    ∀ n ∈ (storeIds rt store).filterMap LineId.headingNumber?, n ≤ highestEntry rt store
  bound : 0 < op.demand rt store →
    highestEntry rt store + op.demand rt store ≤ maxQuestionNumber
  further : ∀ question ∈ op.appends? rt store, FurtherLinesFresh rt store question

instance (rt : Runtime E) (store : Store) (question : Text) :
    Decidable (FurtherLinesFresh rt store question) :=
  decidable_of_iff (_ ∧ _) ⟨fun h => ⟨h.1, h.2⟩, fun h => ⟨h.distinct, h.unused⟩⟩

instance (rt : Runtime E) (store : Store) (op : QuestionOp) :
    Decidable (OpMintsSafely rt store op) :=
  decidable_of_iff (_ ∧ _ ∧ _) ⟨fun h => ⟨h.1, h.2.1, h.2.2⟩, fun h => ⟨h.headings, h.bound, h.further⟩⟩

/-! ## Ids and names -/

theorem formatQuestionId_injective : Function.Injective formatQuestionId := by
  intro m n h
  have hdigits : Nat.toDigits 10 m = Nat.toDigits 10 n := (List.cons.inj h).2
  have hread := number?_toDigits m
  rw [hdigits, number?_toDigits] at hread
  exact (Option.some.inj hread).symm

/-- No legacy id is a Q-form. -/
theorem formatQuestionId_ne_legacy {stamp : Text} (h : isLegacyQuestionId stamp = true) (n : Nat) :
    formatQuestionId n ≠ stamp := by
  rintro rfl
  have hyear : sliceNumber? (formatQuestionId n) 0 4 = none := by
    simp [sliceNumber?, formatQuestionId, number?]
  rw [isLegacyQuestionId, hyear] at h
  simp at h

theorem questionKey?_legacy {text stamp : Text} (h : questionKey? text = some (.timestamp stamp)) :
    isLegacyQuestionId stamp = true := by
  unfold questionKey? at h
  split at h
  · cases h
  · split_ifs at h with hlegacy
    cases h
    exact hlegacy

/-- The key of an entry that a line opens was read as one. -/
theorem lineIds_key {text : Text} {key : QuestionKey} (h : .entry key ∈ lineIds text) :
    ∃ idText, questionKey? idText = some key := by
  obtain ⟨line, -, hline⟩ := List.mem_filterMap.mp h
  unfold lineId? at hline
  split_ifs at hline
  · obtain ⟨e, he, hkey⟩ := Option.map_eq_some_iff.mp hline
    cases hkey
    unfold parseEntryHead at he
    split at he
    · cases he
    · split_ifs at he
      · split at he
        · obtain ⟨key, hkey, rfl⟩ := Option.map_eq_some_iff.mp he
          exact ⟨_, hkey⟩
        · cases he
      · obtain ⟨key, hkey, rfl⟩ := Option.map_eq_some_iff.mp he
        exact ⟨_, hkey⟩
  · obtain ⟨embeddedId, -, hheading⟩ := Option.map_eq_some_iff.mp hline
    cases hheading

/-- A Q-form names an entry just when an entry has its number. -/
theorem formatQuestionId_mem_entryIds {rt : Runtime E} {store : Store} {n : Nat} :
    formatQuestionId n ∈ entryIds rt store ↔
      n ∈ (storeIds rt store).filterMap LineId.entryNumber? := by
  rw [entryIds, List.mem_filterMap, List.mem_filterMap]
  constructor
  · intro h
    obtain ⟨id, hid, hname⟩ := h
    refine ⟨id, hid, ?_⟩
    cases id with
    | heading embeddedId => cases hname
    | entry key =>
        cases key with
        | num m source =>
            have hmn : m = n := formatQuestionId_injective (Option.some.inj hname)
            rw [hmn]
            rfl
        | timestamp stamp =>
            obtain ⟨idText, hkey⟩ := lineIds_key hid
            exact absurd (Option.some.inj hname).symm
              (formatQuestionId_ne_legacy (questionKey?_legacy hkey) n)
  · intro h
    obtain ⟨id, hid, hnumber⟩ := h
    refine ⟨id, hid, ?_⟩
    cases id with
    | heading embeddedId => cases hnumber
    | entry key =>
        cases key with
        | num m source =>
            cases hnumber
            rfl
        | timestamp stamp => cases hnumber

/-- A number in use is an entry's or a heading's. -/
theorem mem_usedNumbers {rt : Runtime E} {store : Store} {n : Nat} :
    n ∈ usedNumbers rt store ↔
      n ∈ (storeIds rt store).filterMap LineId.entryNumber? ∨
        n ∈ (storeIds rt store).filterMap LineId.headingNumber? := by
  simp only [usedNumbers, List.mem_filterMap, ← exists_or, ← and_or_left]
  refine exists_congr fun id => and_congr_right fun _ => ?_
  cases id with
  | heading embeddedId => simp [LineId.number?, LineId.entryNumber?, LineId.headingNumber?]
  | entry key =>
      cases key <;> simp [LineId.number?, LineId.entryNumber?, LineId.headingNumber?]

theorem le_foldr_max {numbers : List Nat} {n : Nat} (h : n ∈ numbers) : n ≤ numbers.foldr max 0 :=
  List.le_max_of_le' 0 h le_rfl

theorem foldr_max_le {numbers : List Nat} {bound : Nat} (h : ∀ n ∈ numbers, n ≤ bound) :
    numbers.foldr max 0 ≤ bound := by
  induction numbers with
  | nil => exact Nat.zero_le _
  | cons n numbers ih =>
      obtain ⟨hn, hrest⟩ := List.forall_mem_cons.mp h
      exact max_le hn (ih hrest)

/-- When no heading is above the entries, nothing in use is. -/
theorem le_highestEntry {rt : Runtime E} {store : Store}
    (h : ∀ n ∈ (storeIds rt store).filterMap LineId.headingNumber?, n ≤ highestEntry rt store) :
    ∀ n ∈ usedNumbers rt store, n ≤ highestEntry rt store := by
  intro n hn
  rcases mem_usedNumbers.mp hn with hentry | hheading
  · exact le_foldr_max hentry
  · exact h n hheading

theorem highestEntry_le_highestUsed (rt : Runtime E) (store : Store) :
    highestEntry rt store ≤ highestUsed rt store := by
  apply foldr_max_le
  exact fun n hn => le_foldr_max (mem_usedNumbers.mpr (Or.inl hn))

/-- The number that is minted next. -/
theorem allocateQuestionNumber_parse (rt : Runtime E) (store : Store) :
    allocateQuestionNumber (OpenQuestionsFile.parse rt.tables (openQuestionsText rt store)) =
      highestEntry rt store + 1 := by
  have hnumber : ∀ b : Block, b.entry?.bind QuestionEntry.num = b.id?.bind LineId.entryNumber? := by
    intro b
    cases b with
    | entry e =>
        obtain ⟨key, body, continuation, resolvedBy⟩ := e
        cases key <;> rfl
    | tripleHash lines embeddedId => cases embeddedId <;> rfl
    | _ => rfl
  have hnumbers : ∀ blocks : List Block,
      (blocks.filterMap Block.entry?).filterMap QuestionEntry.num =
        (blocks.filterMap Block.id?).filterMap LineId.entryNumber? := by
    intro blocks
    rw [List.filterMap_filterMap, List.filterMap_filterMap]
    congr 1
    funext b
    exact hnumber b
  rw [allocateQuestionNumber, OpenQuestionsFile.entries, hnumbers, highestEntry, storeIds,
    ← ids_parse rt.tables]
  rfl

/-! ## What an operation leaves -/

theorem openQuestionsText_stable {rt : Runtime E} (hread : ReadsText rt.readText) (store : Store) :
    Stable rt.readText (openQuestionsText rt store) := by
  have hdefault : Stable rt.readText openQuestionsDefaultBody := Or.inr (by decide)
  unfold openQuestionsText Store.readQuestions
  cases store.questions with
  | none => exact hdefault
  | some text =>
      simp only [Option.map_some]
      split_ifs
      · exact hdefault
      · exact hread.stable text

/-- An empty file and the default body use no ids. -/
theorem storeIds_eq (rt : Runtime E) (store : Store) :
    storeIds rt store = lineIds ((store.readQuestions rt).getD []) := by
  have hdefault : lineIds openQuestionsDefaultBody = lineIds [] := rfl
  unfold storeIds openQuestionsText
  cases store.readQuestions rt with
  | none => exact hdefault
  | some content =>
      simp only [Option.getD_some]
      split_ifs with hempty
      · rw [hempty, hdefault]
      · rfl

theorem storeIds_writeQuestions (rt : Runtime E) (store : Store) (text : Text) :
    storeIds rt (store.writeQuestions text) = lineIds (rt.readText text) := by
  rw [storeIds_eq]
  rfl

/-- Resolving and normalizing a file leaves its ids, as the file is read back. -/
theorem lineIds_resolved {read : Text → Text} (hread : ReadsText read) (tables : UnicodeTables)
    {content : Text} (hcontent : Stable read content) {ids : List Text} {num : Nat} {date : Date}
    {result : ResolveResult}
    (h : (OpenQuestionsFile.parse tables content).resolve ids num date = some result) :
    (lineIds (read result.file.normalize.file.format)).Perm (lineIds content) := by
  have hparsed := parse_settled tables content
  obtain ⟨hids, hsettled⟩ := resolve_file (Or.inl rfl) hparsed h
  rw [(resolved_stable tables hcontent h).read_eq hread, lineIds_format (normalize_settled (Or.inl rfl) hsettled)]
  refine (normalize_ids result.file).trans ?_
  rw [hids, ids_parse]

/-- An operation that mints nothing and moves no id. -/
structure Quiet (rt : Runtime E) (store : Store) (op : QuestionOp) : Prop where
  minted : op.minted rt store = []
  ids : (storeIds rt (op.after rt store)).Perm (storeIds rt store)

theorem quiet_of_unchanged {rt : Runtime E} {store : Store} {op : QuestionOp}
    (h : op.run rt store = none ∨ ∃ rejection, op.run rt store = some (⟨[], rejection⟩, store)) :
    Quiet rt store op := by
  rcases h with h | ⟨rejection, h⟩
  · exact ⟨by rw [QuestionOp.minted, h]; rfl, by rw [QuestionOp.after, h]; exact .refl _⟩
  · exact ⟨by rw [QuestionOp.minted, h]; rfl, by rw [QuestionOp.after, h]; exact .refl _⟩

theorem quiet_of_written {rt : Runtime E} {store : Store} {op : QuestionOp} {text : Text}
    (h : op.run rt store = some (⟨[], none⟩, store.writeQuestions text))
    (hids : (lineIds (rt.readText text)).Perm (storeIds rt store)) : Quiet rt store op where
  minted := by
    rw [QuestionOp.minted, h]
    rfl
  ids := by
    rw [QuestionOp.after, h]
    exact (List.Perm.of_eq (storeIds_writeQuestions rt store text)).trans hids

/-- A resolution through `flag_question` is quiet. -/
theorem quiet_resolveFlagged {rt : Runtime E} (hread : ReadsText rt.readText) {store : Store}
    {targets : List Text} {resolvedBy : Text} {today : Date} {op : QuestionOp}
    (h : op.run rt store =
      (resolveFlagged rt store targets resolvedBy today).map fun (result, after) =>
        (result.report, after)) : Quiet rt store op := by
  unfold resolveFlagged resolveQuestionDocument at h
  simp only at h
  split at h
  · exact quiet_of_unchanged (Or.inl h)
  · exact quiet_of_unchanged (Or.inr ⟨_, h⟩)
  · next num _ =>
      split_ifs at h
      · exact quiet_of_unchanged (Or.inr ⟨_, h⟩)
      · exact quiet_of_unchanged (Or.inr ⟨_, h⟩)
      · exact quiet_of_unchanged (Or.inr ⟨_, h⟩)
      · cases hresolve : (OpenQuestionsFile.parse rt.tables (openQuestionsText rt store)).resolve
            (uniqueInOrder (targets.map canonicalizeQuestionReference)) num today with
        | none =>
            rw [hresolve] at h
            exact quiet_of_unchanged (Or.inl h)
        | some result =>
            rw [hresolve] at h
            exact quiet_of_written h
              (lineIds_resolved hread rt.tables (openQuestionsText_stable hread store) hresolve)

/-! ## The operations that mint -/

theorem migrate_run_none {rt : Runtime E} {store : Store}
    (hdemand : 0 < QuestionOp.migrate.demand rt store)
    (h : maxQuestionNumber < highestEntry rt store + QuestionOp.migrate.demand rt store) :
    QuestionOp.migrate.run rt store = none := by
  have hnext := allocateQuestionNumber_parse rt store
  have hcount : (OpenQuestionsFile.parse rt.tables (openQuestionsText rt store)).ids.countP
      LineId.isLegacy = QuestionOp.migrate.demand rt store := by
    rw [ids_parse]
    rfl
  have hnone : migrateBlocks (allocateQuestionNumber (OpenQuestionsFile.parse rt.tables
      (openQuestionsText rt store))) (OpenQuestionsFile.parse rt.tables
        (openQuestionsText rt store)).blocks = none := by
    rw [migrateBlocks_eq_none_iff, hnext]
    unfold OpenQuestionsFile.ids at hcount
    rw [hcount]
    omega
  unfold allocateQuestionNumber at hnone
  simp [QuestionOp.run, migrateQuestions, OpenQuestionsFile.migrate, hnone]

theorem filterMap_parse_format {numbers : List Nat}
    (h : ∀ n ∈ numbers, 1 ≤ n ∧ n ≤ maxQuestionNumber) :
    (numbers.map formatQuestionId).filterMap parseQuestionId = numbers := by
  induction numbers with
  | nil => rfl
  | cons n numbers ih =>
      obtain ⟨⟨hpos, hmax⟩, hrest⟩ := List.forall_mem_cons.mp h
      rw [List.map_cons, List.filterMap_cons_some (parseQuestionId_format hpos hmax), ih hrest]

/-- A migration that finds its numbers mints them in order. -/
theorem migrate_run_some {rt : Runtime E} (hread : ReadsText rt.readText) {store : Store}
    (h : QuestionOp.migrate.demand rt store = 0 ∨
      highestEntry rt store + QuestionOp.migrate.demand rt store ≤ maxQuestionNumber) :
    ∃ after, QuestionOp.migrate.run rt store = some
        (⟨List.range' (highestEntry rt store + 1) (QuestionOp.migrate.demand rt store), none⟩,
          after) ∧
      (QuestionOp.migrate.demand rt store = 0 → after = store) ∧
      (storeIds rt after).Perm
        ((storeIds rt store).filter (fun id => !id.isLegacy) ++
          (List.range' (highestEntry rt store + 1) (QuestionOp.migrate.demand rt store)).map
            LineId.ofNumber) := by
  let file := OpenQuestionsFile.parse rt.tables (openQuestionsText rt store)
  have hnext : allocateQuestionNumber file = highestEntry rt store + 1 :=
    allocateQuestionNumber_parse rt store
  have hids : file.blocks.filterMap Block.id? = storeIds rt store := ids_parse _ _
  have hcount : (file.blocks.filterMap Block.id?).countP LineId.isLegacy =
      QuestionOp.migrate.demand rt store := by
    rw [hids]
    rfl
  have hfound : migrateBlocks (highestEntry rt store + 1) file.blocks ≠ none := by
    rw [Ne, migrateBlocks_eq_none_iff, hcount]
    omega
  obtain ⟨⟨migrated, renames⟩, hmigrated⟩ := Option.ne_none_iff_exists'.mp hfound
  have hmigrates := fun c => migrateBlocks_some (c := c) (Nat.le_add_left 1 _) hmigrated
  obtain ⟨hperm, hlength, hnames, hsettled⟩ := hmigrates '\n'
  rw [hcount] at hlength
  rw [hids, hlength] at hperm
  have hminted : mintedNumbers renames =
      List.range' (highestEntry rt store + 1) (QuestionOp.migrate.demand rt store) := by
    have hmap : mintedNumbers renames =
        (renames.map MigrationRename.newId).filterMap parseQuestionId := by
      rw [List.filterMap_map]
      rfl
    rw [hmap, hnames, hlength]
    apply filterMap_parse_format
    intro n hn
    have hrange := List.mem_range'_1.mp hn
    omega
  have hrun : QuestionOp.migrate.run rt store = some
      (⟨mintedNumbers renames, none⟩, if renames = [] then store
        else store.writeQuestions { file with blocks := migrated }.format) := by
    unfold allocateQuestionNumber at hnext
    simp only [QuestionOp.run, migrateQuestions, OpenQuestionsFile.migrate]
    rw [hnext, hmigrated]
    simp only [Option.map_some, Bool.or_false, decide_eq_true_eq]
    split_ifs <;> rfl
  rw [hminted] at hrun
  refine ⟨_, hrun, ?_, ?_⟩
  · intro hzero
    rw [if_pos (List.length_eq_zero_iff.mp (hlength.trans hzero))]
  · split_ifs with hnone
    · have hzero : QuestionOp.migrate.demand rt store = 0 := by
        rw [← hlength, hnone]
        rfl
      rw [hzero] at hcount ⊢
      have hkept : (storeIds rt store).filter (fun id => !id.isLegacy) = storeIds rt store := by
        rw [List.filter_eq_self]
        intro id hid
        have hnot := List.countP_eq_zero.mp hcount id (by rwa [hids])
        simpa using hnot
      rw [hkept]
      exact .of_eq (List.append_nil _).symm
    · have hparsed := parse_settled rt.tables (openQuestionsText rt store)
      have hafter : OpenQuestionsFile.Settled '\n' { file with blocks := migrated } :=
        ⟨hparsed.header, hsettled (Or.inl rfl) hparsed.blocks⟩
      have hstable : Stable rt.readText (OpenQuestionsFile.format { file with blocks := migrated }) :=
        format_stable ((parse_settled_of_stable rt.tables
          (openQuestionsText_stable hread store)).imp_right fun hfree =>
            ⟨hfree.header, (hmigrates '\r').2.2.2 (Or.inr rfl) hfree.blocks⟩)
      rw [storeIds_writeQuestions, hstable.read_eq hread, lineIds_format hafter]
      exact hperm

/-- An append that gets as far as a number mints it, within the bound. -/
theorem append_run {rt : Runtime E} {store : Store} {op : QuestionOp} {question : Text}
    (h : op.appends? rt store = some question) :
    op.demand rt store = 1 ∧
      op.run rt store = (composeQuestionEntry (highestEntry rt store + 1) question).map fun entry =>
        (⟨[highestEntry rt store + 1], none⟩,
          store.writeQuestions (insertQuestionEntry (openQuestionsText rt store) entry)) := by
  cases op with
  | flag asked targets resolvedBy today =>
      cases resolvedBy with
      | some ref => cases h
      | none =>
          have hshown := h
          simp only [QuestionOp.appends?, Option.filter_eq_some_iff] at hshown
          obtain ⟨hasked, hopen⟩ := hshown
          have hopen' := Option.isNone_iff_eq_none.mp hopen
          have hfilter : asked.filter (fun q => strip q ≠ []) = some question := by
            simpa [Option.filter_eq_some_iff] using hasked
          refine ⟨by simp [QuestionOp.demand, h], ?_⟩
          simp only [QuestionOp.run, flagQuestion, hfilter, appendQuestion, hopen',
            allocateQuestionNumber_parse, Option.map_map]
          rfl
  | _ => cases h

theorem rejected_run {rt : Runtime E} {store : Store} {question : Text} {asked : Option Text}
    {targets : List Text} {today : Date} (hasked : asked.filter (fun q => strip q ≠ []) = some question)
    (h : (QuestionOp.flag asked targets none today).appends? rt store = none) :
    ∃ rejection, (QuestionOp.flag asked targets none today).run rt store =
      some (⟨[], some rejection⟩, store) := by
  simp only [QuestionOp.appends?, hasked, Option.filter_some] at h
  cases hshort : shortCircuitIfResolved (OpenQuestionsFile.parse rt.tables
      (openQuestionsText rt store)) (targets.map canonicalizeQuestionReference) with
  | none => simp [hshort] at h
  | some rejection =>
      refine ⟨rejection, ?_⟩
      simp only [QuestionOp.run, flagQuestion, hasked, appendQuestion, hshort]
      rfl

/-- An operation that needs no number is quiet. -/
theorem quiet_of_demand_eq_zero {rt : Runtime E} (hread : ReadsText rt.readText) {store : Store}
    {op : QuestionOp} (h : op.demand rt store = 0) : Quiet rt store op := by
  cases op with
  | others decisions => exact ⟨rfl, .refl _⟩
  | decide questionIds decisionNumber today =>
      by_cases hnone : questionIds = []
      · refine quiet_of_unchanged (Or.inr ⟨none, ?_⟩)
        rw [QuestionOp.run, if_pos hnone]
      · have hrun : (QuestionOp.decide questionIds decisionNumber today).run rt store =
            (resolveQuestionsContent rt.tables ((store.readQuestions rt).getD []) questionIds
              decisionNumber today).map fun transition =>
                (⟨[], none⟩, store.writeQuestions transition.content) := by
          rw [QuestionOp.run, if_neg hnone]
        rw [resolveQuestionsContent_eq hnone] at hrun
        cases hresolve : (OpenQuestionsFile.parse rt.tables
            ((store.readQuestions rt).getD [])).resolve questionIds decisionNumber today with
        | none =>
            rw [hresolve] at hrun
            exact quiet_of_unchanged (Or.inl hrun)
        | some result =>
            rw [hresolve] at hrun
            have hstable : Stable rt.readText ((store.readQuestions rt).getD []) := by
              unfold Store.readQuestions
              cases store.questions with
              | none => exact Or.inr List.not_mem_nil
              | some text => exact hread.stable text
            refine quiet_of_written hrun ?_
            rw [storeIds_eq]
            exact lineIds_resolved hread rt.tables hstable hresolve
  | migrate =>
      obtain ⟨after, hrun, hsame, -⟩ := migrate_run_some hread (Or.inl h)
      rw [h, hsame h] at hrun
      exact quiet_of_unchanged (Or.inr ⟨none, hrun⟩)
  | flag question targets resolvedBy today =>
      have happends : (QuestionOp.flag question targets resolvedBy today).appends? rt store = none := by
        rw [QuestionOp.demand] at h
        split_ifs at h with hsome
        · simpa using hsome
        · simp
      cases hasked : question.filter fun q => strip q ≠ [] with
      | none =>
          cases resolvedBy with
          | none =>
              refine quiet_of_unchanged (Or.inr ⟨some .neitherAction, ?_⟩)
              simp only [QuestionOp.run, flagQuestion, hasked]
              rfl
          | some ref =>
              have hresolves : (QuestionOp.flag question targets (some ref) today).run rt store =
                  (resolveFlagged rt store (targets.map canonicalizeQuestionReference) ref
                    today).map fun (result, after) => (result.report, after) := by
                simp only [QuestionOp.run, flagQuestion, hasked]
              exact quiet_resolveFlagged hread hresolves
      | some q =>
          cases resolvedBy with
          | some ref =>
              refine quiet_of_unchanged (Or.inr ⟨some .bothActions, ?_⟩)
              simp only [QuestionOp.run, flagQuestion, hasked]
              rfl
          | none =>
              obtain ⟨rejection, hrun⟩ := rejected_run hasked happends
              exact quiet_of_unchanged (Or.inr ⟨some rejection, hrun⟩)

/-- An append within the bound adds its number and the ids of the question's further lines. -/
theorem append_outcome {rt : Runtime E} (hread : ReadsText rt.readText) {store : Store}
    {op : QuestionOp} {question : Text} (h : op.appends? rt store = some question)
    (hbound : highestEntry rt store + 1 ≤ maxQuestionNumber) :
    op.minted rt store = [highestEntry rt store + 1] ∧
      (storeIds rt (op.after rt store)).Perm (.ofNumber (highestEntry rt store + 1) ::
        (furtherIds rt.readText question ++ storeIds rt store)) := by
  obtain ⟨-, hrun⟩ := append_run h
  obtain ⟨entry, hentry⟩ : ∃ entry,
      composeQuestionEntry (highestEntry rt store + 1) question = some entry := by
    refine ⟨_, if_pos ⟨Nat.le_add_left 1 _, hbound⟩⟩
  rw [hentry, Option.map_some] at hrun
  refine ⟨by rw [QuestionOp.minted, hrun]; rfl, ?_⟩
  have hafter : storeIds rt (op.after rt store) =
      lineIds (rt.readText (insertQuestionEntry (openQuestionsText rt store) entry)) := by
    rw [QuestionOp.after, hrun]
    exact storeIds_writeQuestions rt store _
  have hinsert := lineIds_insertQuestionEntry hread (openQuestionsText_stable hread store) entry
  rw [lineIds_composed hread hentry] at hinsert
  rw [hafter]
  exact hinsert

/-- The names after an append. -/
theorem append_entryIds {rt : Runtime E} (hread : ReadsText rt.readText) {store : Store}
    {op : QuestionOp} {question : Text} (h : op.appends? rt store = some question)
    (hbound : highestEntry rt store + 1 ≤ maxQuestionNumber) :
    (entryIds rt (op.after rt store)).Perm (formatQuestionId (highestEntry rt store + 1) ::
      ((furtherIds rt.readText question).filterMap LineId.entryId? ++ entryIds rt store)) := by
  have hperm := (append_outcome hread h hbound).2.filterMap LineId.entryId?
  have hhead : (LineId.ofNumber (highestEntry rt store + 1)).entryId? =
      some (formatQuestionId (highestEntry rt store + 1)) := rfl
  rwa [List.filterMap_cons_some hhead, List.filterMap_append] at hperm

/-! ## One operation -/

/-- The next number names no entry. -/
theorem next_notMem_entryIds (rt : Runtime E) (store : Store) {n : Nat}
    (h : highestEntry rt store < n) : formatQuestionId n ∉ entryIds rt store := by
  rw [formatQuestionId_mem_entryIds]
  exact fun hin => absurd (le_foldr_max hin) (Nat.not_le.mpr h)

/-- Names added to a list are new and distinct just when none names more than it did, or one. -/
theorem count_cons_append_iff {name : Text} {added before : List Text} (hname : name ∉ before) :
    (∀ id, (name :: (added ++ before)).count id ≤ max 1 (before.count id)) ↔
      added.Nodup ∧ ∀ id ∈ added, id ∉ before ∧ id ≠ name := by
  constructor
  · intro h
    refine ⟨List.nodup_iff_count_le_one.mpr fun id => ?_, fun id hid => ?_⟩
    · have hcount := h id
      rw [List.count_cons, List.count_append] at hcount
      omega
    · have hcount := h id
      have hadded : 0 < added.count id := List.count_pos_iff.mpr hid
      rw [List.count_cons, List.count_append] at hcount
      constructor
      · intro hin
        have hbefore : 0 < before.count id := List.count_pos_iff.mpr hin
        omega
      · rintro rfl
        have hzero : before.count id = 0 := List.count_eq_zero.mpr hname
        simp only [beq_self_eq_true, if_true] at hcount
        omega
  · rintro ⟨hnodup, hnew⟩ id
    have hone := List.nodup_iff_count_le_one.mp hnodup id
    rw [List.count_cons, List.count_append]
    by_cases hid : id ∈ added
    · obtain ⟨hnot, hne⟩ := hnew id hid
      have hzero : before.count id = 0 := List.count_eq_zero.mpr hnot
      rw [if_neg (by simpa using Ne.symm hne)]
      omega
    · have hadded : added.count id = 0 := List.count_eq_zero.mpr hid
      by_cases heq : name = id
      · subst heq
        have hzero : before.count name = 0 := List.count_eq_zero.mpr hname
        rw [if_pos (by simp)]
        omega
      · rw [if_neg (by simpa using heq)]
        omega

/-- What needs a number is a migration or an append. -/
theorem demand_pos {rt : Runtime E} {store : Store} {op : QuestionOp}
    (h : 0 < op.demand rt store) :
    op = .migrate ∨ ∃ question, op.appends? rt store = some question := by
  cases op with
  | migrate => exact Or.inl rfl
  | flag question targets resolvedBy today =>
      right
      rw [QuestionOp.demand] at h
      · split_ifs at h with hsome
        · exact Option.isSome_iff_exists.mp hsome
        · exact absurd h (lt_irrefl 0)
      · simp
  | _ => exact absurd h (lt_irrefl 0)

/-- Past the bound the operation raises. -/
theorem run_eq_none {rt : Runtime E} {store : Store} {op : QuestionOp}
    (hdemand : 0 < op.demand rt store)
    (h : maxQuestionNumber < highestEntry rt store + op.demand rt store) :
    op.run rt store = none := by
  rcases demand_pos hdemand with rfl | ⟨question, happend⟩
  · exact migrate_run_none hdemand h
  · obtain ⟨hone, hrun⟩ := append_run happend
    rw [hrun, composeQuestionEntry, if_neg (by omega)]
    rfl

/-- Within the bound the numbers minted start one past the highest entry. -/
theorem next_minted {rt : Runtime E} (hread : ReadsText rt.readText) {store : Store}
    {op : QuestionOp} (hdemand : 0 < op.demand rt store)
    (hbound : highestEntry rt store + op.demand rt store ≤ maxQuestionNumber) :
    op.minted rt store = List.range' (highestEntry rt store + 1) (op.demand rt store) := by
  rcases demand_pos hdemand with rfl | ⟨question, happend⟩
  · obtain ⟨after, hrun, -⟩ := migrate_run_some hread (Or.inr hbound)
    rw [QuestionOp.minted, hrun]
    rfl
  · obtain ⟨hone, -⟩ := append_run happend
    rw [hone] at hbound ⊢
    exact (append_outcome hread happend hbound).1

/-- Migration makes no name more frequent, or gives it to the one entry it numbers. -/
theorem migrate_single {rt : Runtime E} (hread : ReadsText rt.readText) {store : Store}
    (hbound : highestEntry rt store + QuestionOp.migrate.demand rt store ≤ maxQuestionNumber)
    (id : Text) :
    (entryIds rt (QuestionOp.migrate.after rt store)).count id ≤
      max 1 ((entryIds rt store).count id) := by
  obtain ⟨after, hrun, -, hids⟩ := migrate_run_some hread (Or.inr hbound)
  have hafter : QuestionOp.migrate.after rt store = after := by
    rw [QuestionOp.after, hrun]
    rfl
  let numbers := List.range' (highestEntry rt store + 1) (QuestionOp.migrate.demand rt store)
  have hnames : ((numbers.map LineId.ofNumber).filterMap LineId.entryId?) =
      numbers.map formatQuestionId := by
    have hname : LineId.entryId? ∘ LineId.ofNumber = some ∘ formatQuestionId := rfl
    rw [List.filterMap_map, hname, List.filterMap_eq_map]
  have hperm : (entryIds rt after).Perm
      (((storeIds rt store).filter (fun id => !id.isLegacy)).filterMap LineId.entryId? ++
        numbers.map formatQuestionId) := by
    rw [← hnames, ← List.filterMap_append]
    exact hids.filterMap _
  have hkept : (((storeIds rt store).filter (fun id => !id.isLegacy)).filterMap
      LineId.entryId?).count id ≤ (entryIds rt store).count id :=
    List.Sublist.count_le _ (List.filter_sublist.filterMap _)
  rw [hafter, hperm.count_eq, List.count_append]
  by_cases hin : id ∈ numbers.map formatQuestionId
  · obtain ⟨n, hn, rfl⟩ := List.mem_map.mp hin
    have hnext : highestEntry rt store < n := by
      have hrange := List.mem_range'_1.mp hn
      omega
    have hzero : (entryIds rt store).count (formatQuestionId n) = 0 :=
      List.count_eq_zero.mpr (next_notMem_entryIds rt store hnext)
    have hone : (numbers.map formatQuestionId).count (formatQuestionId n) ≤ 1 :=
      List.nodup_iff_count_le_one.mp (List.Nodup.map formatQuestionId_injective List.nodup_range') _
    omega
  · have hzero : (numbers.map formatQuestionId).count id = 0 := List.count_eq_zero.mpr hin
    omega

/-- One operation keeps the ids just when it mints safely. -/
theorem opKeepsIds_iff {rt : Runtime E} (hread : ReadsText rt.readText) {store : Store}
    {op : QuestionOp} : OpKeepsIds rt store op ↔ OpMintsSafely rt store op := by
  rcases Nat.eq_zero_or_pos (op.demand rt store) with hzero | hdemand
  · have hquiet := quiet_of_demand_eq_zero hread hzero
    have happends : op.appends? rt store = none := by
      rw [Option.eq_none_iff_forall_ne_some]
      intro question happend
      rw [(append_run happend).1] at hzero
      exact absurd hzero (Nat.succ_ne_zero 0)
    constructor
    · intro _
      refine ⟨by omega, by omega, ?_⟩
      rw [happends]
      exact fun _ h => by cases h
    · intro _
      refine ⟨?_, ?_, by omega⟩
      · rw [hquiet.minted]
        exact fun _ h => by cases h
      · intro id
        have hcount : (entryIds rt (op.after rt store)).count id = (entryIds rt store).count id :=
          (hquiet.ids.filterMap LineId.entryId?).count_eq id
        omega
  · constructor
    · intro h
      have hbound : highestEntry rt store + op.demand rt store ≤ maxQuestionNumber := by
        by_contra hpast
        obtain ⟨rejection, hrun⟩ := h.exhausted hdemand
          (by have hle := highestEntry_le_highestUsed rt store; omega)
        rw [run_eq_none hdemand (by omega)] at hrun
        cases hrun
      refine ⟨fun _ n hn => ?_, fun _ => hbound, fun question happend => ?_⟩
      · have hminted : highestEntry rt store + 1 ∈ op.minted rt store := by
          rw [next_minted hread hdemand hbound, List.mem_range'_1]
          omega
        have hlt := h.fresh _ hminted n (mem_usedNumbers.mpr (Or.inr hn))
        omega
      · have hone := (append_run happend).1
        rw [hone] at hbound
        have hnext := next_notMem_entryIds rt store (Nat.lt_succ_self _)
        obtain ⟨hdistinct, hunused⟩ := (count_cons_append_iff hnext).mp fun id => by
          rw [← (append_entryIds hread happend hbound).count_eq]
          exact h.single id
        exact ⟨hdistinct, hunused⟩
    · intro h
      have hbound := h.bound hdemand
      have hused := le_highestEntry (h.headings hdemand)
      refine ⟨?_, ?_, ?_⟩
      · intro n hn m hm
        rw [next_minted hread hdemand hbound, List.mem_range'_1] at hn
        have hle := hused m hm
        omega
      · intro id
        rcases demand_pos hdemand with rfl | ⟨question, happend⟩
        · exact migrate_single hread hbound id
        · rw [(append_run happend).1] at hbound
          obtain ⟨hdistinct, hunused⟩ := h.further question happend
          rw [(append_entryIds hread happend hbound).count_eq]
          exact (count_cons_append_iff (next_notMem_entryIds rt store
            (Nat.lt_succ_self _))).mpr ⟨hdistinct, hunused⟩ id
      · intro _ hpast
        have hle : highestUsed rt store ≤ highestEntry rt store := foldr_max_le hused
        omega

/-! ## Runs -/

/-- The store after a run of operations. -/
def runOps (rt : Runtime E) (store : Store) : List QuestionOp → Store
  | [] => store
  | op :: ops => runOps rt (op.after rt store) ops

/-- The numbers that a run mints, in order. -/
def runMinted (rt : Runtime E) (store : Store) : List QuestionOp → List Nat
  | [] => []
  | op :: ops => op.minted rt store ++ runMinted rt (op.after rt store) ops

/-- Every operation of a run keeps the ids of the store it finds. -/
def RunKeepsIds (rt : Runtime E) (store : Store) : List QuestionOp → Prop
  | [] => True
  | op :: ops => OpKeepsIds rt store op ∧ RunKeepsIds rt (op.after rt store) ops

/-- Every operation of a run mints safely from the store it finds. -/
def RunMintsSafely (rt : Runtime E) (store : Store) : List QuestionOp → Prop
  | [] => True
  | op :: ops => OpMintsSafely rt store op ∧ RunMintsSafely rt (op.after rt store) ops

instance decidableRunMintsSafely (rt : Runtime E) (store : Store) :
    (ops : List QuestionOp) → Decidable (RunMintsSafely rt store ops)
  | [] => inferInstanceAs (Decidable True)
  | op :: ops =>
      have := decidableRunMintsSafely rt (op.after rt store) ops
      inferInstanceAs (Decidable (OpMintsSafely rt store op ∧
        RunMintsSafely rt (op.after rt store) ops))

/-- No number of a run is reused: the numbers it mints grow, they are above all in use before,
and no id comes to name a second entry. -/
structure NeverReused (rt : Runtime E) (store : Store) (ops : List QuestionOp) : Prop where
  growing : (runMinted rt store ops).Pairwise (· < ·)
  fresh : ∀ n ∈ runMinted rt store ops, ∀ m ∈ usedNumbers rt store, m < n
  single : ∀ id, (entryIds rt (runOps rt store ops)).count id ≤ max 1 ((entryIds rt store).count id)

/-- A number in use stays in use, and a number that is minted is in use from then on. -/
theorem usedNumbers_after {rt : Runtime E} (hread : ReadsText rt.readText) {store : Store}
    {op : QuestionOp} (h : OpMintsSafely rt store op) :
    ∀ n, n ∈ usedNumbers rt store ∨ n ∈ op.minted rt store → n ∈ usedNumbers rt (op.after rt store) := by
  intro n hn
  rcases Nat.eq_zero_or_pos (op.demand rt store) with hzero | hdemand
  · have hquiet := quiet_of_demand_eq_zero hread hzero
    rw [hquiet.minted] at hn
    have hused : n ∈ usedNumbers rt store := by simpa using hn
    exact ((hquiet.ids.filterMap LineId.number?).mem_iff).mpr hused
  · have hbound := h.bound hdemand
    rw [next_minted hread hdemand hbound] at hn
    rcases demand_pos hdemand with rfl | ⟨question, happend⟩
    · obtain ⟨after, hrun, -, hids⟩ := migrate_run_some hread (Or.inr hbound)
      have hafter : QuestionOp.migrate.after rt store = after := by
        rw [QuestionOp.after, hrun]
        rfl
      rw [hafter, usedNumbers, List.mem_filterMap]
      rcases hn with hused | hminted
      · obtain ⟨id, hid, hnumber⟩ := List.mem_filterMap.mp hused
        refine ⟨id, hids.mem_iff.mpr (List.mem_append_left _ (List.mem_filter.mpr ⟨hid, ?_⟩)), hnumber⟩
        cases id with
        | heading embeddedId => rfl
        | entry key =>
            cases key with
            | num m source => rfl
            | timestamp stamp => cases hnumber
      · exact ⟨LineId.ofNumber n,
          hids.mem_iff.mpr (List.mem_append_right _ (List.mem_map_of_mem hminted)), rfl⟩
    · have hone := (append_run happend).1
      rw [hone] at hbound hn
      have hids := (append_outcome hread happend hbound).2
      rw [usedNumbers, List.mem_filterMap]
      rcases hn with hused | hminted
      · obtain ⟨id, hid, hnumber⟩ := List.mem_filterMap.mp hused
        exact ⟨id, hids.mem_iff.mpr (List.mem_cons_of_mem _ (List.mem_append_right _ hid)), hnumber⟩
      · have hn : n = highestEntry rt store + 1 := by
          have hrange := List.mem_range'_1.mp hminted
          omega
        subst hn
        exact ⟨LineId.ofNumber _, hids.mem_iff.mpr (List.mem_cons_self ..), rfl⟩

/-- The numbers of one operation grow. -/
theorem minted_growing {rt : Runtime E} (hread : ReadsText rt.readText) {store : Store}
    {op : QuestionOp} (h : OpMintsSafely rt store op) : (op.minted rt store).Pairwise (· < ·) := by
  rcases Nat.eq_zero_or_pos (op.demand rt store) with hzero | hdemand
  · rw [(quiet_of_demand_eq_zero hread hzero).minted]
    exact List.Pairwise.nil
  · rw [next_minted hread hdemand (h.bound hdemand)]
    exact List.pairwise_lt_range'

/-- A run that mints safely never reuses a number. -/
theorem neverReused_of_mintsSafely {rt : Runtime E} (hread : ReadsText rt.readText)
    {store : Store} {ops : List QuestionOp} (h : RunMintsSafely rt store ops) :
    NeverReused rt store ops := by
  induction ops generalizing store with
  | nil => exact ⟨List.Pairwise.nil, by simp [runMinted], fun id => le_max_right _ _⟩
  | cons op ops ih =>
      obtain ⟨hop, hops⟩ := h
      have hkeeps := (opKeepsIds_iff hread).mpr hop
      have hused := usedNumbers_after hread hop
      obtain ⟨hgrowing, hfresh, hsingle⟩ := ih hops
      refine ⟨?_, ?_, ?_⟩
      · rw [runMinted, List.pairwise_append]
        refine ⟨minted_growing hread hop, hgrowing, ?_⟩
        exact fun m hm n hn => hfresh n hn m (hused m (Or.inr hm))
      · intro n hn m hm
        rcases List.mem_append.mp hn with hin | hin
        · exact hkeeps.fresh n hin m hm
        · exact hfresh n hin m (hused m (Or.inl hm))
      · intro id
        have hstep := hkeeps.single id
        have hrest := hsingle id
        rw [runOps]
        omega

/-- Over every run of flags, resolutions and migrations, each operation mints numbers above
every number in use, makes no id ambiguous and is rejected when the numbers have run out, just
when each operation mints safely; then no number of the run is reused. -/
theorem question_numbers_never_reused {rt : Runtime E} (hread : ReadsText rt.readText)
    (store : Store) (ops : List QuestionOp) :
    (RunKeepsIds rt store ops ↔ RunMintsSafely rt store ops) ∧
      (RunMintsSafely rt store ops → NeverReused rt store ops) := by
  refine ⟨?_, neverReused_of_mintsSafely hread⟩
  induction ops generalizing store with
  | nil => exact Iff.rfl
  | cons op ops ih => exact and_congr (opKeepsIds_iff hread) (ih (op.after rt store))

/-! ## Files that do and do not mint safely -/

def mintingDay : Date := ⟨2026, 5, 1, by decide⟩

/-- A store that holds only a questions file. -/
def questionsStore (text : String) : Store :=
  ⟨Table.empty, some text.toList, []⟩

/-- A flag without targets. -/
def plainFlag (question : String) : QuestionOp :=
  .flag (some question.toList) [] none mintingDay

/-- Two flags on a file whose heading number is below its entries. -/
theorem two_flags_never_reuse :
    NeverReused (Runtime.plain mintingDay)
      (questionsStore "# Open Questions\n\n### [Q2] Queue\n- [Q3] Which queue?\n")
      [plainFlag "How large?", plainFlag "How many?"] :=
  (question_numbers_never_reused (Or.inr rfl) _ _).2 (by decide +kernel)

/-- A flag mints a number below the heading of the file, and past the last number it raises. -/
theorem flag_reuses_heading_number :
    ¬ RunKeepsIds (Runtime.plain mintingDay) (questionsStore "# Open Questions\n\n### [Q5] Queue\n")
        [plainFlag "How large?"] ∧
      (plainFlag "How large?").run (Runtime.plain mintingDay)
        (questionsStore "# Open Questions\n\n- [Q999999999999999999] Which queue?\n") = none := by
  refine ⟨?_, Option.isNone_iff_eq_none.mp (by decide +kernel)⟩
  intro h
  have hbelow : 5 < 1 := h.1.fresh 1 (by decide +kernel) 5 (by decide +kernel)
  exact absurd hbelow (by decide)

end Questions
end Core
end Nauro
