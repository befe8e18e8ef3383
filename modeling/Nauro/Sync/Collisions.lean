import Nauro.Sync.CompletionPass
import Nauro.Sync.DecisionNames
import Nauro.Sync.Merge
import Nauro.Sync.SyncState

/-!
# Decisions that a pull is about to write

Every remote decision that is not tracked is judged against `decisions/` as it stands, and then
installed, adopted, or held back; a local file that is in its way may be renamed or renumbered.
-/

namespace Nauro
namespace Sync

open Foundation Core
open EscapedUtf8 (utf8)

/-- What the decisions of a pull ask of the Unicode database. -/
structure PullTables extends SyncTables, FilenameTables

structure PullTables.Lawful (tables : PullTables) : Prop where
  paths : tables.toSyncTables.Lawful
  names : tables.toFilenameTables.Lawful

/-- The tables on ASCII. -/
def PullTables.ascii : PullTables where
  toSyncTables := .ascii
  upperChar c := [c.toUpper]
  isDigit c := c.isDigit

theorem PullTables.ascii_lawful : PullTables.ascii.Lawful where
  paths := SyncTables.ascii_lawful
  names := FilenameTables.ascii_lawful

/-! ## The directory -/

/-- What stands under a name. -/
def DecisionStore.entryAt? (store : DecisionStore) (name : Text) : Option DirEntry :=
  store.entries.lookup name

/-- Entries without the one of a name. -/
def withoutName (name : Text) (entries : List (Text × DirEntry)) : List (Text × DirEntry) :=
  entries.filter fun entry => entry.1 != name

/-- Entries with one more, in the order of the names. -/
def insertEntry (name : Text) (entry : DirEntry) (entries : List (Text × DirEntry)) :
    List (Text × DirEntry) :=
  (entries.takeWhile fun other => decide (other.1 < name)) ++
    (name, entry) :: entries.dropWhile fun other => decide (other.1 < name)

theorem perm_insertEntry (name : Text) (entry : DirEntry) (entries : List (Text × DirEntry)) :
    (insertEntry name entry entries).Perm ((name, entry) :: entries) := by
  have hsplit := List.takeWhile_append_dropWhile (p := fun other => decide (other.1 < name))
    (l := entries)
  conv_rhs => rw [← hsplit]
  exact List.perm_middle

theorem nodup_insertEntry {entries : List (Text × DirEntry)}
    (h : (entries.map Prod.fst).Nodup) (name : Text) (entry : DirEntry) :
    ((insertEntry name entry (withoutName name entries)).map Prod.fst).Nodup := by
  refine ((perm_insertEntry name entry _).map Prod.fst).nodup_iff.mpr ?_
  refine List.nodup_cons.mpr ⟨fun hin => ?_, h.sublist (List.filter_sublist.map _)⟩
  obtain ⟨other, hother, hname⟩ := List.mem_map.mp hin
  exact bne_iff_ne.mp (List.mem_filter.mp hother).2 hname

theorem short_insertEntry {entries : List (Text × DirEntry)}
    (h : ∀ name ∈ entries.map Prod.fst, name.length ≤ nameMax) {name : Text}
    (hshort : name.length ≤ nameMax) (entry : DirEntry) :
    ∀ other ∈ (insertEntry name entry (withoutName name entries)).map Prod.fst,
      other.length ≤ nameMax := by
  intro other hin
  rw [((perm_insertEntry name entry _).map Prod.fst).mem_iff, List.map_cons, List.mem_cons] at hin
  rcases hin with rfl | hin
  · exact hshort
  · exact h other ((List.filter_sublist.map _).subset hin)

/-- The directory with an entry put under a name; a name that is too long is refused. -/
def DecisionStore.place? (store : DecisionStore) (name : Text) (entry : DirEntry) :
    Option DecisionStore :=
  if hshort : name.length ≤ nameMax then
    some
      { entries := insertEntry name entry (withoutName name store.entries)
        questions := store.questions
        distinct := nodup_insertEntry store.distinct name entry
        short := short_insertEntry store.short hshort entry }
  else none

/-- The directory without the entry of a name. -/
def DecisionStore.remove (store : DecisionStore) (name : Text) : DecisionStore where
  entries := withoutName name store.entries
  questions := store.questions
  distinct := store.distinct.sublist (List.filter_sublist.map _)
  short name' hin := store.short name' ((List.filter_sublist.map _).subset hin)

/-- `os.rename` inside the directory. -/
def DecisionStore.rename? (store : DecisionStore) (old new : Text) : Option DecisionStore :=
  (store.entryAt? old).bind fun entry => (store.remove old).place? new entry

/-! ## The corpus -/

/-- What a run remembers of a regular decision file; a text that was not recorded is read from the
disk when it is asked for. -/
structure CachedFile where
  number : Nat
  recorded : Option Text
deriving DecidableEq

/-- `DecisionCorpus`: the directory as one run sees it. -/
structure Corpus where
  files : Table Text CachedFile
  irregular : List (Text × Option Nat)
  names : List Text

/-- A name that a scan lists as one of a decision, whatever stands under it. -/
def isListedName (tables : SyncTables) (name : Text) : Bool :=
  match classifySyncPath tables (Core.decisionsDir ++ '/' :: name) with
  | .unsafePath _ => false
  | _ => decisionSuffix.isSuffixOf (casefold tables name)

/-- `DecisionCorpus.scan`. -/
def Corpus.scan (tables : SyncTables) (store : DecisionStore) : Corpus where
  files := Table.ofPairs ((store.files tables).map fun file => (file.name, ⟨file.number, none⟩))
  irregular := store.entries.filterMap fun entry =>
    match listEntry tables entry.1 entry.2 with
    | .irregular number => some (entry.1, number)
    | _ => none
  names := (store.entries.map Prod.fst).filter (isListedName tables)

variable {E : Type} (tables : PullTables) (yaml : Yaml E)

def Corpus.hasName (corpus : Corpus) (name : Text) : Bool :=
  corpus.names.contains name

def Corpus.isIrregular (corpus : Corpus) (name : Text) : Bool :=
  corpus.irregular.any fun entry => entry.1 == name

/-- `corpus.holders`, by their names. -/
def Corpus.holders (corpus : Corpus) (number : Nat) : List Text :=
  (corpus.files.entries.filter fun entry => entry.2.number == number).map Prod.fst

/-- `corpus.irregular_holders`, by their names. -/
def Corpus.irregularHolders (corpus : Corpus) (number : Nat) : List Text :=
  (corpus.irregular.filter fun entry => entry.2 == some number).map Prod.fst

def Corpus.claimedNumbers (corpus : Corpus) : List Nat :=
  (corpus.files.entries.map fun entry => entry.2.number) ++ corpus.irregular.filterMap Prod.snd

/-- `corpus.case_variant`; the names are sorted. -/
def Corpus.caseVariant (corpus : Corpus) (name : Text) : Option Text :=
  if corpus.hasName name then none
  else
    (corpus.names.mergeSort fun a b => decide (a ≤ b)).find? fun listed =>
      lower tables.toUnicodeTables listed == lower tables.toUnicodeTables name

/-- `DecisionFile.text`. -/
def CachedFile.text (store : DecisionStore) (name : Text) (file : CachedFile) : Option Text :=
  match file.recorded with
  | some text => some text
  | none => (store.content? name).map readTextLenient

/-- `_parse`. -/
def parseText (name : Text) : Option Text → Except SyncError (Parsed E)
  | none => .ok .failed
  | some text =>
      match parseDecision tables.toUnicodeTables yaml text name with
      | .ok d => .ok (.decision d)
      | .error error => if isParseFailure error then .ok .failed else .error .loader

/-- `DecisionCorpus.references`. -/
def Corpus.references (store : DecisionStore) (corpus : Corpus) :
    Except SyncError ReferenceIndex := do
  let parsed ← corpus.files.entries.mapM fun entry =>
    parseText tables yaml entry.1 (entry.2.text store entry.1)
  let (questionRefs, readable) := questionReferences tables.toSyncTables store.questions
  .ok ⟨parsed.all fun p => !p.isFailed, parsed.flatMap Parsed.refs, questionRefs, readable⟩

/-- `_isolation_defect`. -/
def Corpus.isolationDefect (store : DecisionStore) (corpus : Corpus) (name : Text)
    (candidate : CachedFile) (numbers : List Nat) : Except SyncError (Option IsolationDefect) := do
  match ← parseText tables yaml name (candidate.text store name) with
  | .failed => .ok (some .unparseableCollider)
  | .decision d =>
      let index ← corpus.references tables yaml store
      if !index.verifiable then .ok (some .storeUnverifiable)
      else if d.supersedes.isSome || d.supersededBy.isSome then .ok (some .referenced)
      else if numbers.any index.supersessionRefs.contains then .ok (some .referenced)
      else if numbers.any index.questionRefs.contains then .ok (some .questionReference)
      else .ok none

/-- `_replace`. -/
def Corpus.replace (corpus : Corpus) (name text : Text) : Corpus :=
  match extractDecisionNumber tables.toUnicodeTables name with
  | none => corpus
  | some number => { corpus with files := corpus.files.put name ⟨number, some text⟩ }

/-- `record_added`. -/
def Corpus.recordAdded (corpus : Corpus) (name text : Text) : Corpus :=
  { corpus with names := name :: corpus.names }.replace tables name text

/-- `record_renamed`. -/
def Corpus.recordRenamed (corpus : Corpus) (old new text : Text) : Corpus :=
  { corpus with
    files := corpus.files.erase old
    names := new :: corpus.names.filter (· != old) }.replace tables new text

/-- `record_rewritten`. -/
def Corpus.recordRewritten (corpus : Corpus) (name text : Text) : Corpus :=
  corpus.replace tables name text

/-! ## Classification -/

inductive QuarantineReason where
  | trackedLocally
  | publishedRemotely
  | ambiguousColliders
  | unparseableCollider
  | storeUnverifiable
  | referenced
  | questionReference
  | headingNotRewritable
  | irregularEntry
  | nonCanonicalPath
  | caseVariantPresent
  | destinationOccupied
deriving DecidableEq

def IsolationDefect.reason : IsolationDefect → QuarantineReason
  | .unparseableCollider => .unparseableCollider
  | .storeUnverifiable => .storeUnverifiable
  | .referenced => .referenced
  | .questionReference => .questionReference

/-- `DecisionVerdict`, with the names of the local files it is about. -/
inductive Verdict where
  | install
  | adopt (collider : Text)
  | resolveConflict (collider : Text)
  | canonicalize (collider : Text)
  | renumberLocal (collider : Text)
  | quarantine (colliders : List Text) (reason : QuarantineReason)
deriving DecidableEq

/-- A remote decision that was fetched. -/
structure RemoteDecision where
  rel : Text
  etag : Text
  content : Bytes

/-- What a pull knows of all that the server holds. -/
structure RemoteManifest where
  paths : List Text
  decisionNumbers : List Nat

/-- `f"{DECISIONS_DIR}/{name}"`. -/
def relativePath (name : Text) : Text :=
  decisionsDir ++ '/' :: name

/-- The file name of a path in the one spelling that the store reads and writes. -/
def canonicalName? (rel : Text) : Option Text :=
  match rel.splitOn '/' with
  | [directory, filename] =>
      if directory = decisionsDir ∧ isCanonicalFilename tables.toFilenameTables filename = true then
        some filename
      else none
  | _ => none

/-- `_classify_collider`. -/
def classifyCollider (store : DecisionStore) (corpus : Corpus) (state : SyncState)
    (manifest : RemoteManifest) (name : Text) (collider : CachedFile) (number : Nat)
    (remote : Bytes) : Except SyncError Verdict :=
  if (state.files.get? (relativePath name)).isSome then .ok (.quarantine [name] .trackedLocally)
  else if relativePath name ∈ manifest.paths then .ok (.quarantine [name] .publishedRemotely)
  else
    match store.content? name with
    | none => .ok (.quarantine [name] .storeUnverifiable)
    | some bytes =>
        if bytes = remote then .ok (.canonicalize name)
        else
          match corpus.isolationDefect tables yaml store name collider [number] with
          | .error error => .error error
          | .ok (some defect) => .ok (.quarantine [name] defect.reason)
          | .ok none =>
              if (collider.text store name).any fun text => hasRewritableHeading text number then
                .ok (.renumberLocal name)
              else .ok (.quarantine [name] .headingNotRewritable)

/-- How the verdict on the one other holder of a file's number is taken for the file itself. -/
def siblingVerdict (sibling : Text) : Verdict → Verdict
  | .renumberLocal name => .renumberLocal name
  | .canonicalize name => .quarantine [name] .destinationOccupied
  | .quarantine names reason => .quarantine names reason
  | _ => .quarantine [sibling] .ambiguousColliders

/-- `_sibling_defect`. -/
def siblingDefect (store : DecisionStore) (corpus : Corpus) (state : SyncState)
    (manifest : RemoteManifest) (name : Text) (entry : CachedFile) (remote : Bytes) :
    Except SyncError (Option Verdict) :=
  let siblings := (corpus.holders entry.number).filter (· != name)
  if corpus.irregularHolders entry.number ≠ [] then .ok (some (.quarantine [name] .irregularEntry))
  else
    match siblings with
    | [] => .ok none
    | [sibling] =>
        match corpus.files.get? sibling with
        | none => .ok none
        | some collider =>
            (classifyCollider tables yaml store corpus state manifest sibling collider entry.number
              remote).map fun verdict => some (siblingVerdict sibling verdict)
    | siblings => .ok (some (.quarantine siblings .ambiguousColliders))

/-- `_classify_same_path`. -/
def classifySamePath (store : DecisionStore) (corpus : Corpus) (state : SyncState)
    (manifest : RemoteManifest) (name : Text) (remote : Bytes) : Except SyncError Verdict :=
  if corpus.isIrregular name then .ok (.quarantine [name] .irregularEntry)
  else
    let defect : Except SyncError (Option Verdict) :=
      match corpus.files.get? name with
      | none => .ok none
      | some entry => siblingDefect tables yaml store corpus state manifest name entry remote
    match defect with
    | .error error => .error error
    | .ok (some verdict) => .ok verdict
    | .ok none =>
        match store.content? name with
        | none => .ok (.quarantine [name] .storeUnverifiable)
        | some bytes => .ok (if bytes = remote then .adopt name else .resolveConflict name)

/-- `_classify_number`. -/
def classifyNumber (store : DecisionStore) (corpus : Corpus) (state : SyncState)
    (manifest : RemoteManifest) (name : Text) (remote : Bytes) : Except SyncError Verdict :=
  if refusesDigits tables.toUnicodeTables name then .error .digitLimit
  else
    match extractDecisionNumber tables.toUnicodeTables name with
    | none => .ok .install
    | some number =>
        match corpus.irregularHolders number, corpus.holders number with
        | first :: _, _ => .ok (.quarantine [first] .irregularEntry)
        | [], [] => .ok .install
        | [], [holder] =>
            match corpus.files.get? holder with
            | none => .ok .install
            | some collider =>
                classifyCollider tables yaml store corpus state manifest holder collider number remote
        | [], holders => .ok (.quarantine holders .ambiguousColliders)

/-- `classify_decision`. -/
def classifyDecision (store : DecisionStore) (corpus : Corpus) (state : SyncState)
    (manifest : RemoteManifest) (row : RemoteDecision) : Except SyncError Verdict :=
  match canonicalName? tables row.rel with
  | none => .ok (.quarantine [] .nonCanonicalPath)
  | some name =>
      if corpus.hasName name then
        classifySamePath tables yaml store corpus state manifest name row.content
      else
        match corpus.caseVariant tables name with
        | some variant => .ok (.quarantine [variant] .caseVariantPresent)
        | none => classifyNumber tables yaml store corpus state manifest name row.content

/-! ## What is done about a verdict -/

/-- What the file system answers while one decision is dealt with: whether each kind of operation
goes through, and whether the destination is admitted. -/
structure FileAnswers where
  renames : Bool
  rewrites : Bool
  indexes : Bool
  admits : Bool
  writes : Bool
  digests : Bool
  backups : Bool

/-- What a pull takes from outside: the digest of bytes, and the time. -/
structure PullClock where
  sha256 : Bytes → Text
  now : Text

structure BatchRun where
  store : DecisionStore
  corpus : Corpus
  state : SyncState

inductive RowOutcome where
  | installed
  | adopted
  | canonicalized
  | resolved
  | quarantined (reason : QuarantineReason)
  /-- The destination is not admitted. -/
  | skipped
  /-- A file system error. -/
  | refused
  /-- Another exception, which ends the run. -/
  | raised (error : SyncError)
deriving DecidableEq

inductive RenumberResult where
  | done (run : BatchRun)
  /-- Nothing was touched, for a reason that is reported. -/
  | rejected (reason : QuarantineReason)
  | failed (run : BatchRun)
  | raised (error : SyncError)

/-- `max`, of numbers. -/
def largestNumber (numbers : List Nat) : Nat :=
  numbers.foldr max 0

/-- The number a local file is moved to: above every one that the store or the server holds. -/
def nextNumber (corpus : Corpus) (manifest : RemoteManifest) : Nat :=
  largestNumber (corpus.claimedNumbers ++ manifest.decisionNumbers) + 1

/-- `apply_renumber`; the hash index is not part of it. -/
def applyRenumber (answers : FileAnswers) (manifest : RemoteManifest) (collider : Text)
    (number : Nat) (run : BatchRun) : RenumberResult :=
  let newNum := nextNumber run.corpus manifest
  let destination := renumberedName tables.toFilenameTables newNum collider
  -- a number with more digits than `int` reads cannot be written either
  if intMaxStrDigits < (padNumber 3 newNum).length then .raised .digitLimit
  else if run.corpus.hasName destination then .rejected .destinationOccupied
  else
    match run.store.content? collider with
    | none => .failed run
    | some bytes =>
        match headingNumber (rewriteDecisionHeading (readTextLenient bytes) number newNum) with
        | .error _ => .raised .digitLimit
        | .ok heading =>
            if heading ≠ some newNum then .rejected .headingNotRewritable
            else if !answers.renames then .failed run
            else
              match run.store.rename? collider destination with
              | none => .failed run
              | some renamed =>
                  let corpus := run.corpus.recordRenamed tables collider destination
                    (readTextLenient bytes)
                  if !answers.rewrites then .failed { run with store := renamed, corpus }
                  else
                    let rewritten := rewriteDecisionHeading (readTextLenient bytes) number newNum
                    let after : BatchRun :=
                      { run with
                        store := renamed.write destination (utf8 rewritten)
                        corpus := corpus.recordRewritten tables destination rewritten }
                    if !answers.indexes then .failed after else .done after

/-- `_quarantine`. -/
def quarantineRow (answers : FileAnswers) (reason : QuarantineReason) (run : BatchRun) :
    BatchRun × RowOutcome :=
  (run, if answers.backups then .quarantined reason else .refused)

/-- The state with a path recorded under the digest of some bytes. -/
def BatchRun.recorded (clock : PullClock) (row : RemoteDecision) (bytes : Bytes) (run : BatchRun) :
    BatchRun :=
  { run with state := run.state.updateFile row.rel (clock.sha256 bytes) row.etag clock.now }

/-- What `_apply_decision` does about a verdict other than a first renumber; a second renumber is
taken as a quarantine. -/
def settle (clock : PullClock) (answers : FileAnswers) (row : RemoteDecision) (run : BatchRun) :
    Verdict → BatchRun × RowOutcome
  | .quarantine _ reason => quarantineRow answers reason run
  | .renumberLocal _ => quarantineRow answers .ambiguousColliders run
  | .adopt collider =>
      match run.store.content? collider with
      | none => (run, .refused)
      | some bytes =>
          if !answers.digests then (run, .refused) else (run.recorded clock row bytes, .adopted)
  | .canonicalize collider =>
      let name := (canonicalName? tables row.rel).getD []
      match run.store.content? collider with
      | none => (run, .refused)
      | some bytes =>
          if !answers.renames then (run, .refused)
          else
            match run.store.rename? collider name with
            | none => (run, .refused)
            | some renamed =>
                let after : BatchRun :=
                  { run with
                    store := renamed
                    corpus := run.corpus.recordRenamed tables collider name (readTextLenient bytes) }
                if !answers.indexes || !answers.digests then (after, .refused)
                else (after.recorded clock row bytes, .canonicalized)
  | .resolveConflict collider =>
      if !answers.admits then (run, .skipped)
      else
        match run.store.content? collider with
        | none => (run, .refused)
        | some bytes =>
            let resolution := Merge.resolveConflict bytes row.content (String.ofList row.rel) .localSide
            if (resolution.backup.isSome && !answers.backups) || !answers.writes then (run, .refused)
            else
              let after : BatchRun :=
                { run with store := run.store.write collider resolution.content }
              if !answers.digests then (after, .refused)
              else (after.recorded clock row resolution.content, .resolved)
  | .install =>
      let name := (canonicalName? tables row.rel).getD []
      if !answers.admits then (run, .skipped)
      else if !answers.writes then (run, .refused)
      else
        match run.store.place? name (.regular (some row.content)) with
        | none => (run, .refused)
        | some placed =>
            let after : BatchRun :=
              { run with
                store := placed
                corpus := run.corpus.recordAdded tables name (LossyUtf8.decode row.content) }
            if !answers.digests then (after, .refused)
            else (after.recorded clock row row.content, .installed)

/-- `_decision_name`. -/
def decisionName (rel : Text) : Text :=
  (rel.dropWhile (· ≠ '/')).drop 1

/-- `_apply_decision`. -/
def applyDecision (clock : PullClock) (answers : FileAnswers) (manifest : RemoteManifest)
    (row : RemoteDecision) (run : BatchRun) : BatchRun × RowOutcome :=
  match classifyDecision tables yaml run.store run.corpus run.state manifest row with
  | .error error => (run, .raised error)
  | .ok (.renumberLocal collider) =>
      let number := (extractDecisionNumber tables.toUnicodeTables (decisionName row.rel)).getD 0
      match applyRenumber tables answers manifest collider number run with
      | .rejected reason => quarantineRow answers reason run
      | .failed after => (after, .refused)
      | .raised error => (run, .raised error)
      | .done after =>
          match classifyDecision tables yaml after.store after.corpus after.state manifest row with
          | .error error => (after, .raised error)
          | .ok verdict => settle tables clock answers row after verdict
  | .ok verdict => settle tables clock answers row run verdict

/-- The decisions of a pull in their order; an exception that is no file system error ends it. -/
def runBatch (clock : PullClock) (manifest : RemoteManifest) :
    List (RemoteDecision × FileAnswers) → BatchRun → BatchRun
  | [], run => run
  | (row, answers) :: rest, run =>
      match applyDecision tables yaml clock answers manifest row run with
      | (after, .raised _) => after
      | (after, _) => runBatch clock manifest rest after

end Sync
end Nauro
