import Nauro.Core.Questions
import Nauro.Foundation.Effect
import Nauro.Sync.DecisionFile
import Nauro.Sync.SyncPaths

/-!
# The decision store as one sync run sees it
-/

namespace Nauro
namespace Sync

open Foundation Core

/-! ## The store -/

/-- What stands under one name in `decisions/`; a file without content cannot be read. -/
inductive DirEntry where
  | regular (content : Option (List UInt8))
  | irregular
deriving DecidableEq

/-- What stands at `open-questions.md`. -/
inductive QuestionsFile where
  | absent
  | unusable
  | regular (content : Option (List UInt8))
deriving DecidableEq

/-- The longest name a file system takes. -/
def nameMax : Nat := 255

/-- The entries of `decisions/` in the order of their names, and the open questions. -/
@[ext] structure DecisionStore where
  entries : List (Text × DirEntry)
  questions : QuestionsFile
  distinct : (entries.map Prod.fst).Nodup
  short : ∀ name ∈ entries.map Prod.fst, name.length ≤ nameMax

/-- A regular decision file with the number of its name. -/
structure CorpusFile where
  name : Text
  number : Nat
  content : Option (List UInt8)
deriving DecidableEq

/-- What a scan makes of an entry. -/
inductive Listed where
  | file (file : CorpusFile)
  | irregular (number : Option Nat)
  | ignored
deriving DecidableEq

def decisionSuffix : Text := ".md".toList

/-- One turn of the loop of `DecisionCorpus.scan`. -/
def listEntry (tables : SyncTables) (name : Text) (entry : DirEntry) : Listed :=
  let number := extractDecisionNumber tables.toUnicodeTables name
  match classifySyncPath tables (decisionsDir ++ '/' :: name) with
  | .unsafePath _ => .irregular number
  | _ =>
      if !decisionSuffix.isSuffixOf (casefold tables name) then .ignored
      else
        match entry with
        | .irregular => .irregular number
        | .regular content =>
            if !decisionSuffix.isSuffixOf name then .irregular number
            else
              match number with
              | none => .ignored
              | some number => .file ⟨name, number, content⟩

/-- `corpus.files`. -/
def DecisionStore.files (tables : SyncTables) (store : DecisionStore) : List CorpusFile :=
  store.entries.filterMap fun entry =>
    match listEntry tables entry.1 entry.2 with
    | .file file => some file
    | _ => none

/-- The numbers that entries claim which are never read. -/
def DecisionStore.irregularNumbers (tables : SyncTables) (store : DecisionStore) : List Nat :=
  store.entries.filterMap fun entry =>
    match listEntry tables entry.1 entry.2 with
    | .irregular number => number
    | _ => none

/-- The bytes of a regular file. -/
def DecisionStore.content? (store : DecisionStore) (name : Text) : Option (List UInt8) :=
  (store.entries.find? fun entry => entry.1 == name).bind fun entry =>
    match entry.2 with
    | .regular content => content
    | .irregular => none

/-- One entry after a file was written. -/
def writeEntry (name : Text) (bytes : List UInt8) (entry : Text × DirEntry) : Text × DirEntry :=
  if entry.1 = name then (entry.1, .regular (some bytes)) else entry

@[simp] theorem writeEntry_fst (name : Text) (bytes : List UInt8) (entry : Text × DirEntry) :
    (writeEntry name bytes entry).1 = entry.1 := by
  rw [writeEntry]
  split <;> rfl

theorem map_writeEntry_fst (name : Text) (bytes : List UInt8) (entries : List (Text × DirEntry)) :
    (entries.map (writeEntry name bytes)).map Prod.fst = entries.map Prod.fst := by
  rw [List.map_map]
  exact List.map_congr_left fun entry _ => writeEntry_fst name bytes entry

/-- `atomic_write_text` of a listed file. -/
def DecisionStore.write (store : DecisionStore) (name : Text) (bytes : List UInt8) :
    DecisionStore where
  entries := store.entries.map (writeEntry name bytes)
  questions := store.questions
  distinct := by
    rw [map_writeEntry_fst]
    exact store.distinct
  short := by
    rw [map_writeEntry_fst]
    exact store.short

/-! ## The parsed view -/

/-- Why a sync run stops with an exception. -/
inductive SyncError where
  /-- `int` refuses the digits of a heading. -/
  | digitLimit
  /-- The YAML loader raises what is neither a `ValueError` nor a `TypeError`. -/
  | loader
deriving DecidableEq

/-- One decision file's parse. -/
inductive Parsed (E : Type) where
  | failed
  | decision (d : Decision E)

/-- Whether the exception is one of `PARSE_FAILURES`. -/
def isParseFailure : ParseError → Bool
  | .yamlRaised isValueError => isValueError
  | _ => true

variable {E : Type} (tables : SyncTables) (yaml : Yaml E)

/-- `DecisionFile.parsed`. -/
def CorpusFile.parsed (file : CorpusFile) : Except SyncError (Parsed E) :=
  match file.content with
  | none => .ok .failed
  | some bytes =>
      match parseDecision tables.toUnicodeTables yaml (readTextLenient bytes) file.name with
      | .ok d => .ok (.decision d)
      | .error error => if isParseFailure error then .ok .failed else .error .loader

/-- The numbers a parsed file refers to. -/
def Parsed.refs : Parsed E → List Nat
  | .failed => []
  | .decision d => [d.supersedes, d.supersededBy].filterMap fun ref => ref.bind number?

def Parsed.isFailed : Parsed E → Bool
  | .failed => true
  | .decision _ => false

/-- Every place a decision number is named. -/
structure ReferenceIndex where
  allParsed : Bool
  supersessionRefs : List Nat
  questionRefs : List Nat
  questionsReadable : Bool
deriving DecidableEq

/-- True when every record that could name a number could be read. -/
def ReferenceIndex.verifiable (index : ReferenceIndex) : Bool :=
  index.allParsed && index.questionsReadable

/-- `_read_question_references`. -/
def questionReferences : QuestionsFile → List Nat × Bool
  | .absent => ([], true)
  | .unusable => ([], false)
  | .regular none => ([], false)
  | .regular (some bytes) =>
      ((Questions.OpenQuestionsFile.parse tables.toUnicodeTables
          (readTextLenient bytes)).entries.filterMap
        fun entry => entry.resolvedBy.map Questions.ResolvedRef.decisionNum, true)

/-- `DecisionCorpus.references`. -/
def references (store : DecisionStore) : Except SyncError ReferenceIndex := do
  let parsed ← (store.files tables).mapM (CorpusFile.parsed tables yaml)
  let (questionRefs, readable) := questionReferences tables store.questions
  .ok ⟨parsed.all fun p => !p.isFailed, parsed.flatMap Parsed.refs, questionRefs, readable⟩

/-! ## Isolation -/

/-- Why a file is not isolated. -/
inductive IsolationDefect where
  | unparseableCollider
  | storeUnverifiable
  | referenced
  | questionReference
deriving DecidableEq

/-- `_isolation_defect`. -/
def isolationDefect (store : DecisionStore) (candidate : CorpusFile) (numbers : List Nat) :
    Except SyncError (Option IsolationDefect) := do
  match ← candidate.parsed tables yaml with
  | .failed => .ok (some .unparseableCollider)
  | .decision d =>
      let index ← references tables yaml store
      if !index.verifiable then .ok (some .storeUnverifiable)
      else if d.supersedes.isSome || d.supersededBy.isSome then .ok (some .referenced)
      else if numbers.any index.supersessionRefs.contains then .ok (some .referenced)
      else if numbers.any index.questionRefs.contains then .ok (some .questionReference)
      else .ok none

/-! ## The listing -/

variable {tables yaml}

/-- Only a regular entry is listed, under its own name and number. -/
theorem listEntry_file {name : Text} {entry : DirEntry} {file : CorpusFile}
    (h : listEntry tables name entry = .file file) :
    file.name = name ∧ entry = .regular file.content ∧
      extractDecisionNumber tables.toUnicodeTables name = some file.number := by
  unfold listEntry at h
  simp only at h
  split at h
  · cases h
  · split at h
    · cases h
    · split at h
      · cases h
      · split at h
        · cases h
        · split at h
          · cases h
          · next number hnumber =>
              cases h
              exact ⟨rfl, rfl, hnumber⟩

theorem mem_files_iff {store : DecisionStore} {file : CorpusFile} :
    file ∈ store.files tables ↔
      ∃ entry ∈ store.entries, listEntry tables entry.1 entry.2 = .file file := by
  rw [DecisionStore.files, List.mem_filterMap]
  constructor
  · rintro ⟨entry, hin, hlisted⟩
    refine ⟨entry, hin, ?_⟩
    split at hlisted
    · next found hfound => rw [hfound, Option.some.inj hlisted]
    · cases hlisted
  · rintro ⟨entry, hin, hlisted⟩
    exact ⟨entry, hin, by rw [hlisted]⟩

theorem mem_files {store : DecisionStore} {file : CorpusFile} (h : file ∈ store.files tables) :
    (file.name, .regular file.content) ∈ store.entries ∧
      extractDecisionNumber tables.toUnicodeTables file.name = some file.number ∧
      listEntry tables file.name (.regular file.content) = .file file := by
  obtain ⟨⟨name, entry⟩, hin, hlisted⟩ := mem_files_iff.mp h
  obtain ⟨hname, hentry, hnumber⟩ := listEntry_file hlisted
  cases hname
  cases hentry
  exact ⟨hin, hnumber, hlisted⟩

theorem content?_of_mem {store : DecisionStore} {name : Text} {content : Option (List UInt8)}
    (h : (name, .regular content) ∈ store.entries) : store.content? name = content := by
  have hfound : store.entries.find? (fun entry => entry.1 == name) =
      some (name, .regular content) := by
    have hdistinct := store.distinct
    revert h hdistinct
    induction store.entries with
    | nil => exact fun h => absurd h List.not_mem_nil
    | cons entry entries ih =>
        intro h hdistinct
        obtain ⟨hfirst, hrest⟩ := List.nodup_cons.mp hdistinct
        rcases List.mem_cons.mp h with rfl | hin
        · exact List.find?_cons_of_pos (beq_self_eq_true name)
        · have hne : entry.1 ≠ name := by
            rintro rfl
            exact hfirst (List.mem_map.mpr ⟨_, hin, rfl⟩)
          rw [List.find?_cons_of_neg (by simpa using hne), ih hin hrest]
  rw [DecisionStore.content?, hfound]
  rfl

theorem content?_of_file {store : DecisionStore} {file : CorpusFile}
    (h : file ∈ store.files tables) : store.content? file.name = file.content :=
  content?_of_mem (mem_files h).1

/-- Distinct names make distinct files. -/
theorem file_eq_of_name {store : DecisionStore} {file other : CorpusFile}
    (hfile : file ∈ store.files tables) (hother : other ∈ store.files tables)
    (hname : file.name = other.name) : file = other := by
  obtain ⟨-, hnumber, -⟩ := mem_files hfile
  obtain ⟨-, hnumber', -⟩ := mem_files hother
  have hcontent := content?_of_file hfile
  rw [hname, content?_of_file hother] at hcontent
  rw [hname, hnumber'] at hnumber
  obtain ⟨name, number, content⟩ := file
  obtain ⟨name', number', content'⟩ := other
  cases hname
  cases hcontent
  cases hnumber
  rfl

theorem files_nodup (store : DecisionStore) : (store.files tables).Nodup := by
  refine List.Nodup.filterMap ?_ (List.Nodup.of_map _ store.distinct)
  rintro ⟨name, entry⟩ ⟨name', entry'⟩ file hfile hfile'
  have regular {name : Text} {entry : DirEntry}
      (h : file ∈ (match listEntry tables name entry with
        | .file file => some file
        | _ => none : Option CorpusFile)) : (name, entry) = (file.name, .regular file.content) := by
    split at h
    · next found hfound =>
        cases h
        obtain ⟨hname, hentry, -⟩ := listEntry_file hfound
        rw [hname, hentry]
    · cases h
  rw [regular hfile, regular hfile']

theorem files_names_nodup (store : DecisionStore) :
    ((store.files tables).map CorpusFile.name).Nodup :=
  List.Nodup.map_on (fun _ hfile _ hother hname => file_eq_of_name hfile hother hname)
    (files_nodup store)

/-! ## A written file -/

/-- A listed file after a file was written. -/
def CorpusFile.afterWrite (name : Text) (bytes : List UInt8) (file : CorpusFile) : CorpusFile :=
  if file.name = name then { file with content := some bytes } else file

@[simp] theorem CorpusFile.afterWrite_name (name : Text) (bytes : List UInt8) (file : CorpusFile) :
    (file.afterWrite name bytes).name = file.name := by
  rw [CorpusFile.afterWrite]
  split <;> rfl

@[simp] theorem CorpusFile.afterWrite_number (name : Text) (bytes : List UInt8)
    (file : CorpusFile) : (file.afterWrite name bytes).number = file.number := by
  rw [CorpusFile.afterWrite]
  split <;> rfl

theorem CorpusFile.afterWrite_of_ne {name : Text} {bytes : List UInt8} {file : CorpusFile}
    (h : file.name ≠ name) : file.afterWrite name bytes = file :=
  if_neg h

/-- What an entry is listed as does not depend on its bytes. -/
theorem listEntry_regular (name : Text) (content content' : Option (List UInt8)) :
    listEntry tables name (.regular content') =
      match listEntry tables name (.regular content) with
      | .file file => .file { file with content := content' }
      | listed => listed := by
  unfold listEntry
  simp only
  split
  · rfl
  · split
    · rfl
    · split
      · rfl
      · split <;> rfl

theorem listEntry_write {store : DecisionStore} {file : CorpusFile}
    (h : file ∈ store.files tables) (bytes : List UInt8) {entry : Text × DirEntry}
    (hin : entry ∈ store.entries) :
    listEntry tables (writeEntry file.name bytes entry).1 (writeEntry file.name bytes entry).2 =
      match listEntry tables entry.1 entry.2 with
      | .file other => .file (other.afterWrite file.name bytes)
      | listed => listed := by
  obtain ⟨hregular, -, -⟩ := mem_files h
  rw [writeEntry]
  by_cases hname : entry.1 = file.name
  · have hentry : entry = (file.name, .regular file.content) :=
      List.inj_on_of_nodup_map store.distinct hin hregular hname
    rw [if_pos hname, hentry, listEntry_regular file.name file.content (some bytes)]
    cases hlisted : listEntry tables file.name (.regular file.content) with
    | file other =>
        obtain ⟨hother, -, -⟩ := listEntry_file hlisted
        simp only [CorpusFile.afterWrite, if_pos hother]
    | irregular number => rfl
    | ignored => rfl
  · rw [if_neg hname]
    cases hlisted : listEntry tables entry.1 entry.2 with
    | file other =>
        obtain ⟨hother, -, -⟩ := listEntry_file hlisted
        have hne : other.name ≠ file.name := by rwa [hother]
        simp only [CorpusFile.afterWrite_of_ne hne]
    | irregular number => rfl
    | ignored => rfl

theorem files_write {store : DecisionStore} {file : CorpusFile} (h : file ∈ store.files tables)
    (bytes : List UInt8) :
    (store.write file.name bytes).files tables =
      (store.files tables).map (CorpusFile.afterWrite file.name bytes) := by
  rw [DecisionStore.files, DecisionStore.files, DecisionStore.write, List.filterMap_map,
    List.map_filterMap]
  refine List.filterMap_congr fun entry hin => ?_
  rw [Function.comp_apply, listEntry_write h bytes hin]
  cases listEntry tables entry.1 entry.2 <;> rfl

theorem irregularNumbers_write {store : DecisionStore} {file : CorpusFile}
    (h : file ∈ store.files tables) (bytes : List UInt8) :
    (store.write file.name bytes).irregularNumbers tables = store.irregularNumbers tables := by
  rw [DecisionStore.irregularNumbers, DecisionStore.irregularNumbers, DecisionStore.write,
    List.filterMap_map]
  refine List.filterMap_congr fun entry hin => ?_
  rw [Function.comp_apply, listEntry_write h bytes hin]
  cases listEntry tables entry.1 entry.2 <;> rfl

theorem mem_files_write_of_ne {store : DecisionStore} {file other : CorpusFile}
    (h : file ∈ store.files tables) (bytes : List UInt8) (hne : other.name ≠ file.name) :
    other ∈ (store.write file.name bytes).files tables ↔ other ∈ store.files tables := by
  rw [files_write h, List.mem_map]
  constructor
  · rintro ⟨found, hfound, rfl⟩
    rw [CorpusFile.afterWrite_name] at hne
    rwa [CorpusFile.afterWrite_of_ne hne]
  · exact fun hin => ⟨other, hin, CorpusFile.afterWrite_of_ne hne⟩

/-! ## Isolated files -/

/-- `_isolation_defect` finds nothing. -/
def Isolated (tables : SyncTables) (yaml : Yaml E) (store : DecisionStore) (file : CorpusFile)
    (numbers : List Nat) : Prop :=
  isolationDefect tables yaml store file numbers = .ok none

/-- The numbers and the readability of the questions say nothing against a renumber. -/
def UnnamedInQuestions (tables : SyncTables) (questions : QuestionsFile) (numbers : List Nat) :
    Prop :=
  (questionReferences tables questions).2 = true ∧
    ∀ number ∈ numbers, number ∉ (questionReferences tables questions).1

/-- A file parses and names none of the numbers. -/
def Unnaming (tables : SyncTables) (yaml : Yaml E) (numbers : List Nat) (file : CorpusFile) :
    Prop :=
  ∃ d, file.parsed tables yaml = .ok (.decision d) ∧
    ∀ number ∈ numbers, number ∉ (Parsed.decision d).refs

theorem Parsed.not_isFailed_iff {p : Parsed E} :
    (!p.isFailed) = true ↔ ∃ d, p = .decision d := by
  cases p with
  | failed => simp [Parsed.isFailed]
  | decision d => simp [Parsed.isFailed]

/-- The records of a store that can be read name none of the numbers. -/
theorem unnaming_iff {store : DecisionStore} {numbers : List Nat} :
    (∀ other ∈ store.files tables, Unnaming tables yaml numbers other) ↔
      ∃ parsed, (store.files tables).mapM (CorpusFile.parsed tables yaml) = .ok parsed ∧
        (parsed.all fun p => !p.isFailed) = true ∧
        ∀ number ∈ numbers, number ∉ parsed.flatMap Parsed.refs := by
  constructor
  · intro h
    obtain ⟨parsed, hall⟩ := exists_mapM_ok fun other hin => by
      obtain ⟨d, hd, -⟩ := h other hin
      exact ⟨_, hd⟩
    obtain ⟨-, hcame⟩ := mem_of_mapM_ok hall
    refine ⟨parsed, hall, List.all_eq_true.mpr fun p hp => ?_, fun number hnumber hin => ?_⟩
    · obtain ⟨other, hother, hp⟩ := hcame p hp
      obtain ⟨d, hd, -⟩ := h other hother
      rw [hp] at hd
      exact Parsed.not_isFailed_iff.mpr ⟨d, Except.ok.inj hd⟩
    · obtain ⟨p, hp, href⟩ := List.mem_flatMap.mp hin
      obtain ⟨other, hother, hp⟩ := hcame p hp
      obtain ⟨d, hd, hnot⟩ := h other hother
      rw [hp] at hd
      rw [Except.ok.inj hd] at href
      exact hnot number hnumber href
  · rintro ⟨parsed, hall, hparsed, hnot⟩ other hother
    obtain ⟨hread, -⟩ := mem_of_mapM_ok hall
    obtain ⟨p, hp, hparse⟩ := hread other hother
    obtain ⟨d, rfl⟩ := Parsed.not_isFailed_iff.mp (List.all_eq_true.mp hparsed p hp)
    refine ⟨d, hparse, fun number hnumber href => ?_⟩
    exact hnot number hnumber (List.mem_flatMap.mpr ⟨_, hp, href⟩)

theorem not_any_contains_iff {numbers refs : List Nat} :
    numbers.any refs.contains = false ↔ ∀ number ∈ numbers, number ∉ refs := by
  rw [List.any_eq_false]
  refine forall_congr' fun number => forall_congr' fun _ => ?_
  rw [List.contains_iff_mem]

theorem passes_check_iff {failed : Bool} {defect : IsolationDefect}
    {later : Except SyncError (Option IsolationDefect)} :
    (if failed = true then .ok (some defect) else later) = .ok none ↔
      failed = false ∧ later = .ok none := by
  cases failed <;> simp

/-- What an isolated file and its store look like. -/
theorem isolated_iff {store : DecisionStore} {file : CorpusFile} {numbers : List Nat} :
    Isolated tables yaml store file numbers ↔
      (∃ d, file.parsed tables yaml = .ok (.decision d) ∧ d.supersedes = none ∧
        d.supersededBy = none) ∧
      (∀ other ∈ store.files tables, Unnaming tables yaml numbers other) ∧
      UnnamedInQuestions tables store.questions numbers := by
  rw [Isolated, isolationDefect, unnaming_iff, UnnamedInQuestions]
  cases hparsed : file.parsed tables yaml with
  | error e => simp [bind, Except.bind]
  | ok p =>
      cases p with
      | failed => simp [bind, Except.bind]
      | decision d =>
          cases hall : (store.files tables).mapM (CorpusFile.parsed tables yaml) with
          | error e => simp [references, hall, bind, Except.bind]
          | ok parsed =>
              simp only [references, hall, bind, Except.bind, ReferenceIndex.verifiable,
                ← not_any_contains_iff, passes_check_iff, Bool.not_eq_false', Bool.and_eq_true,
                Bool.or_eq_false_iff, Option.isSome_eq_false_iff, Option.isNone_iff_eq_none]
              constructor
              · rintro ⟨⟨hfine, hread⟩, ⟨hold, hnew⟩, hrefs, hasked, -⟩
                exact ⟨⟨d, rfl, hold, hnew⟩, ⟨parsed, rfl, hfine, hrefs⟩, hread, hasked⟩
              · rintro ⟨⟨d', hd, hold, hnew⟩, ⟨parsed', hparsed', hfine, hrefs⟩, hread, hasked⟩
                cases hd
                cases hparsed'
                exact ⟨⟨hfine, hread⟩, ⟨hold, hnew⟩, hrefs, hasked, trivial⟩

/-- A write of an isolated file isolates no other one. -/
theorem Isolated.of_write {store : DecisionStore} {file other : CorpusFile}
    {numbers numbers' : List Nat} {bytes : List UInt8} (hfile : file ∈ store.files tables)
    (hisolated : Isolated tables yaml store file numbers)
    (h : Isolated tables yaml (store.write file.name bytes) other numbers') :
    Isolated tables yaml store other numbers' := by
  obtain ⟨⟨d, hparsed, hold, hnew⟩, -, -⟩ := isolated_iff.mp hisolated
  obtain ⟨hother, hfiles, hquestions⟩ := isolated_iff.mp h
  refine isolated_iff.mpr ⟨hother, fun listed hlisted => ?_, hquestions⟩
  by_cases hname : listed.name = file.name
  · -- an isolated file names no other
    rw [file_eq_of_name hlisted hfile hname]
    refine ⟨d, hparsed, fun number _ hin => ?_⟩
    rw [Parsed.refs, hold, hnew] at hin
    exact absurd hin List.not_mem_nil
  · exact hfiles listed ((mem_files_write_of_ne hfile bytes hname).mpr hlisted)

end Sync
end Nauro
