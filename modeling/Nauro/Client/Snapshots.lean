import Mathlib.Data.List.Dedup
import Mathlib.Data.List.Sort
import Nauro.Core.ProtectedMembership
import Nauro.Foundation.Calendar
import Nauro.Foundation.Json
import Nauro.Foundation.Retention
import Nauro.Foundation.Table

/-!
# Snapshots of a store

A capture writes the members of a store to a numbered file in the directory of snapshots, and then
prunes the directory with a spacing that grows with the age of the snapshots. The directory is
given by what the text of each of its files reads as.
-/

namespace Nauro
namespace Client
namespace Snapshots

open Foundation Foundation.Json Nauro.Core

/-! ## Headers -/

/-- A moment with a time zone: what it is in UTC, and the fields that it is spelled with. -/
structure Stamp where
  utc : Moment
  shown : Moment
deriving DecidableEq

def Stamp.ofUtc (m : Moment) : Stamp :=
  ⟨m, m⟩

inductive Datetime where
  | naive (fields : Moment)
  | aware (stamp : Stamp)

inductive ReadError where
  /-- One of `_CORRUPT_SNAPSHOT_ERRORS`. -/
  | corrupt
  /-- Another exception: nesting too deep for the reader, or an infinite number as an integer. -/
  | escaping
deriving DecidableEq

/-- How the standard library reads and spells values. -/
structure Readings where
  /-- `str(value)` of a value that is no string. -/
  strOf : Value → Str
  /-- `int(value)` of a number with a fraction or an exponent. -/
  intOfFloat : List Char → Except ReadError Int
  floatIsZero : List Char → Bool
  /-- `int(text)`; none is a `ValueError`. -/
  intOfText : Str → Option Int
  /-- `datetime.fromisoformat`; none is a `ValueError`. -/
  fromisoformat : Str → Option Datetime
  /-- `moment.isoformat()` of a moment in UTC. -/
  isoformat : Moment → Str
  fromisoformat_isoformat : ∀ m, fromisoformat (isoformat m) = some (.aware (.ofUtc m))

variable (readings : Readings)

/-- `_parse_timestamp`. -/
def parseTimestamp (raw : Str) : Option Stamp :=
  match readings.fromisoformat raw with
  | some (.aware stamp) => some stamp
  | _ => none

structure SnapshotMeta where
  path : Text
  version : Nat
  rawTimestamp : Str
  timestamp : Option Stamp
  trigger : Str
  triggerDetail : Str
  tokenCount : Int

def key (text : String) : Str :=
  ofText text.toList

/-- `str(value)`. -/
def toStr : Value → Str
  | .string s => s
  | v => readings.strOf v

/-- Whether `value or 0` is the zero. -/
def isFalsy : Value → Bool
  | .null | .bool false | .string [] | .array [] | .object [] => true
  | .int n => n = 0
  | .float lexeme => readings.floatIsZero lexeme
  | _ => false

/-- `int(value)`. -/
def toInt : Value → Except ReadError Int
  | .int n => .ok n
  | .bool b => .ok (if b then 1 else 0)
  | .float lexeme => readings.intOfFloat lexeme
  | .string s =>
      match readings.intOfText s with
      | some n => .ok n
      | none => .error .corrupt
  | _ => .error .corrupt

/-- What a file of the directory reads as. -/
abbrev Body := Except ReadError Value

abbrev Directory := Table Text Body

/-- The header of one file. -/
def readMeta (path : Text) (body : Body) : Except ReadError SnapshotMeta := do
  match ← body with
  | .object data =>
      match data.lookup (key "version") with
      | some (.int version) =>
          if version < 1 then .error .corrupt
          else
            match data.lookup (key "timestamp") with
            | none => .error .corrupt
            | some timestamp => do
                let rawTimestamp := toStr readings timestamp
                let tokenCount := (data.lookup (key "token_count")).getD .null
                let tokenCount ←
                  if isFalsy readings tokenCount then .ok 0 else toInt readings tokenCount
                return {
                  path
                  version := version.toNat
                  rawTimestamp
                  timestamp := parseTimestamp readings rawTimestamp
                  trigger := toStr readings ((data.lookup (key "trigger")).getD (.string []))
                  triggerDetail :=
                    toStr readings ((data.lookup (key "trigger_detail")).getD (.string []))
                  tokenCount }
      | _ => .error .corrupt
  | _ => .error .corrupt

/-! ## The scan -/

def jsonExtension : Text := ".json".toList

/-- `f"v{version:03d}.json"`. -/
def canonicalName (version : Nat) : Text :=
  'v' :: (padNumber 3 version ++ jsonExtension)

/-- The names that match `v*.json`. -/
def isSnapshotName : Text → Bool
  | 'v' :: rest => jsonExtension.isSuffixOf rest
  | _ => false

/-- What the scan makes of one file: its header, when it is readable and has its own name. -/
def scanFile (file : Text × Body) : Except ReadError (Option SnapshotMeta) :=
  if isSnapshotName file.1 then
    match readMeta readings file.1 file.2 with
    | .error .corrupt => .ok none
    | .error .escaping => .error .escaping
    | .ok found => .ok (if file.1 = canonicalName found.version then some found else none)
  else .ok none

/-- `_scan_snapshots`. -/
def scanSnapshots (directory : Directory) : Except ReadError (List SnapshotMeta) := do
  let found ← directory.entries.mapM (scanFile readings)
  return (found.filterMap id).insertionSort fun m m' => m.version ≤ m'.version

/-! ## The prune -/

def pruneKeepAllDays : Nat := 7
def pruneDailyDays : Nat := 30
def pruneWeeklyDays : Nat := 180

/-- The day, the week or the month of a snapshot that is one of several. -/
inductive Bucket where
  | day (year : Int) (month day : Nat)
  | week (year : Int) (week : Nat)
  | month (year : Int) (month : Nat)
deriving DecidableEq

/-- The bucket of a time stamp; none for one that is recent. -/
def bucketOf (now : Moment) (stamp : Stamp) : Option Bucket :=
  if now.minusDays pruneKeepAllDays ≤ stamp.utc then none
  else if now.minusDays pruneDailyDays ≤ stamp.utc then
    some (.day stamp.shown.year stamp.shown.month stamp.shown.day)
  else if now.minusDays pruneWeeklyDays ≤ stamp.utc then
    some (.week stamp.shown.year stamp.shown.weekOfYear)
  else some (.month stamp.shown.year stamp.shown.month)

/-- The snapshots with a time stamp. -/
def dated (metas : List SnapshotMeta) : List (Stamp × SnapshotMeta) :=
  metas.filterMap fun m => m.timestamp.map fun stamp => (stamp, m)

/-- The newest version, and the newest one that has a time stamp. -/
def pinned (metas : List SnapshotMeta) : List Text :=
  ((Retention.newest SnapshotMeta.version metas).toList.map SnapshotMeta.path) ++
    (Retention.newest (fun p => p.2.version) (dated metas)).toList.map fun p => p.2.path

/-- The files that a prune keeps, of those with a time stamp. -/
def keptPaths (metas : List SnapshotMeta) (now : Moment) : List Text :=
  let rest := (dated metas).filter fun p => !(pinned metas).contains p.2.path
  let recent := rest.filter fun p => bucketOf now p.1 = none
  let buckets := (rest.filterMap fun p => bucketOf now p.1).dedup
  let newest := buckets.filterMap fun b =>
    Retention.newest (fun p => p.1.utc) (rest.filter fun p => bucketOf now p.1 = some b)
  pinned metas ++ recent.map (fun p => p.2.path) ++ newest.map fun p => p.2.path

/-- The files that a prune removes. -/
def prunedPaths (metas : List SnapshotMeta) (now : Moment) : List Text :=
  if metas.length ≤ 1 then []
  else
    ((dated metas).filter fun p => !(keptPaths metas now).contains p.2.path).map fun p => p.2.path

/-- `_prune_snapshots`. -/
def pruneSnapshots (metas : List SnapshotMeta) (now : Moment) (directory : Directory) : Directory :=
  (prunedPaths metas now).foldl Table.erase directory

/-! ## The capture -/

/-- `is_hosted_snapshot_content_member`. -/
def isHostedSnapshotContentMember (path : Text) : Bool :=
  isCanonicalPath path &&
    ((topLevelMembers.filter fun member => member ≠ questionsProvenanceJson).contains path ||
      isDecisionMember path)

def snapshotSchemaVersion : Int := 1
def charsPerToken : Nat := 4

/-- The number of tokens of some files. -/
def tokenCountOf (files : List (Text × Str)) : Nat :=
  (files.map fun file => file.2.length).sum / charsPerToken

/-- `serialize_snapshot`. -/
def serializeSnapshot (timestamp trigger triggerDetail : Str) (files : List (Text × Str))
    (version : Nat) : Value :=
  .object
    [(key "schema_version", .int snapshotSchemaVersion), (key "version", .int version),
      (key "timestamp", .string timestamp), (key "trigger", .string trigger),
      (key "trigger_detail", .string triggerDetail), (key "token_count", .int (tokenCountOf files)),
      (key "files", .object (files.map fun file => (ofText file.1, .string file.2)))]

/-- What one capture is given: the Markdown files of the store and of its decisions with their
texts, what triggered it, and the two readings of the clock. -/
structure Capture where
  store : List (Text × Str)
  trigger : Str
  triggerDetail : Str
  taken : Moment
  pruned : Moment

/-- `capture_snapshot`: the directory after it, and the new version. -/
def captureSnapshot (directory : Directory) (capture : Capture) :
    Except ReadError (Directory × Nat) := do
  let metas ← scanSnapshots readings directory
  let nextVersion := (metas.map SnapshotMeta.version).foldr max 0 + 1
  let files := capture.store.filter fun file => isHostedSnapshotContentMember file.1
  let timestamp := readings.isoformat capture.taken
  let snapshot :=
    serializeSnapshot timestamp capture.trigger capture.triggerDetail files nextVersion
  let path := canonicalName nextVersion
  let newMeta : SnapshotMeta := {
    path
    version := nextVersion
    rawTimestamp := timestamp
    timestamp := some (.ofUtc capture.taken)
    trigger := capture.trigger
    triggerDetail := capture.triggerDetail
    tokenCount := tokenCountOf files }
  return (pruneSnapshots (metas ++ [newMeta]) capture.pruned (directory.put path (.ok snapshot)),
    nextVersion)

/-- One capture of a sequence: the directory before and after it, and its version. -/
structure Step where
  before : Directory
  capture : Capture
  version : Nat
  after : Directory

/-- A sequence of captures on a directory. -/
def captureAll (directory : Directory) : List Capture → Except ReadError (List Step)
  | [] => .ok []
  | capture :: rest => do
      let (after, version) ← captureSnapshot readings directory capture
      let steps ← captureAll after rest
      return { before := directory, capture, version, after } :: steps

/-! ## Readings of moments in UTC -/

/-- The text of a year with its sign. -/
def yearText (year : Int) : Text :=
  if year < 0 then '-' :: padNumber 4 year.natAbs else padNumber 4 year.natAbs

/-- The fraction of a second, when there is one. -/
def fractionText (microsecond : Nat) : Text :=
  if microsecond = 0 then [] else '.' :: padNumber 6 microsecond

/-- `moment.isoformat()` in UTC. -/
def isoformatUtc (m : Moment) : Text :=
  let second := m.microsecond / 1000000
  yearText m.year ++ '-' :: (padNumber 2 m.month ++ '-' :: (padNumber 2 m.day ++ 'T' ::
    (padNumber 2 (second / 3600) ++ ':' :: (padNumber 2 (second / 60 % 60) ++ ':' ::
      (padNumber 2 (second % 60) ++ (fractionText (m.microsecond % 1000000) ++ "+00:00".toList))))))

/-- Digits end where something else begins. -/
theorem digits_append_inj {digits digits' rest rest' : Text}
    (hdigits : ∀ c ∈ digits, c.isDigit = true) (hdigits' : ∀ c ∈ digits', c.isDigit = true)
    (hrest : ∀ c ∈ rest.head?, c.isDigit = false) (hrest' : ∀ c ∈ rest'.head?, c.isDigit = false)
    (h : digits ++ rest = digits' ++ rest') : digits = digits' ∧ rest = rest' := by
  have hnil : ∀ text : Text, (∀ c ∈ text.head?, c.isDigit = false) →
      text.takeWhile Char.isDigit = [] := by
    intro text htext
    cases text with
    | nil => rfl
    | cons c text =>
        refine List.takeWhile_cons_of_neg ?_
        rw [htext c rfl]
        exact Bool.false_ne_true
  have htake := congrArg (List.takeWhile Char.isDigit) h
  rw [List.takeWhile_append_of_pos hdigits, List.takeWhile_append_of_pos hdigits', hnil rest hrest,
    hnil rest' hrest', List.append_nil, List.append_nil] at htake
  subst htake
  exact ⟨rfl, List.append_cancel_left h⟩

theorem padNumber_append_inj {width n n' : Nat} {rest rest' : Text}
    (hrest : ∀ c ∈ rest.head?, c.isDigit = false) (hrest' : ∀ c ∈ rest'.head?, c.isDigit = false)
    (h : padNumber width n ++ rest = padNumber width n' ++ rest') : n = n' ∧ rest = rest' := by
  obtain ⟨hnumber, htail⟩ := digits_append_inj (fun _ hc => isDigit_of_mem_padNumber hc)
    (fun _ hc => isDigit_of_mem_padNumber hc) hrest hrest' h
  exact ⟨padNumber_injective width hnumber, htail⟩

theorem yearText_append_inj {year year' : Int} {rest rest' : Text}
    (hrest : ∀ c ∈ rest.head?, c.isDigit = false) (hrest' : ∀ c ∈ rest'.head?, c.isDigit = false)
    (h : yearText year ++ rest = yearText year' ++ rest') : year = year' ∧ rest = rest' := by
  have hsign : ∀ (n : Nat) (front back : Text), padNumber 4 n ++ front ≠ '-' :: back := by
    intro n front back heq
    obtain ⟨c, digits, hdigits⟩ := List.exists_cons_of_ne_nil (padNumber_ne_nil 4 n)
    have hc : c.isDigit = true := isDigit_of_mem_padNumber (hdigits ▸ List.mem_cons_self)
    rw [hdigits] at heq
    rw [(List.cons.inj heq).1] at hc
    cases hc
  unfold yearText at h
  split_ifs at h with hneg hneg' hneg'
  · obtain ⟨habs, htail⟩ := padNumber_append_inj hrest hrest' (List.cons.inj h).2
    exact ⟨by omega, htail⟩
  · exact absurd h.symm (hsign _ _ _)
  · exact absurd h (hsign _ _ _)
  · obtain ⟨habs, htail⟩ := padNumber_append_inj hrest hrest' h
    exact ⟨by omega, htail⟩

theorem fractionText_append_inj {n n' : Nat}
    (h : fractionText n ++ "+00:00".toList = fractionText n' ++ "+00:00".toList) : n = n' := by
  unfold fractionText at h
  have hplus : ∀ c ∈ ("+00:00".toList).head?, c.isDigit = false := by
    rintro c ⟨⟩
    rfl
  split_ifs at h with hzero hzero' hzero'
  · exact hzero.trans hzero'.symm
  · cases h
  · cases h
  · exact (padNumber_append_inj hplus hplus (List.cons.inj h).2).1

theorem isoformatUtc_injective : Function.Injective isoformatUtc := by
  have hmark : ∀ (mark : Char) (rest : Text), mark.isDigit = false →
      ∀ c ∈ (mark :: rest).head?, c.isDigit = false := by
    rintro mark rest hmark c ⟨⟩
    exact hmark
  have hfraction : ∀ n : Nat, ∀ c ∈ (fractionText n ++ "+00:00".toList).head?,
      c.isDigit = false := by
    intro n c hc
    unfold fractionText at hc
    split_ifs at hc
    · cases hc
      rfl
    · cases hc
      rfl
  intro m m' h
  unfold isoformatUtc at h
  obtain ⟨hyear, h⟩ := yearText_append_inj (hmark '-' _ rfl) (hmark '-' _ rfl) h
  obtain ⟨hmonth, h⟩ := padNumber_append_inj (hmark '-' _ rfl) (hmark '-' _ rfl) (List.cons.inj h).2
  obtain ⟨hday, h⟩ := padNumber_append_inj (hmark 'T' _ rfl) (hmark 'T' _ rfl) (List.cons.inj h).2
  obtain ⟨hhour, h⟩ := padNumber_append_inj (hmark ':' _ rfl) (hmark ':' _ rfl) (List.cons.inj h).2
  obtain ⟨hminute, h⟩ := padNumber_append_inj (hmark ':' _ rfl) (hmark ':' _ rfl)
    (List.cons.inj h).2
  obtain ⟨hsecond, h⟩ := padNumber_append_inj (hfraction _) (hfraction _) (List.cons.inj h).2
  have hrest := fractionText_append_inj h
  have hmicro : m.microsecond = m'.microsecond := by omega
  cases m
  cases m'
  simp only at hyear hmonth hday hmicro
  rw [hyear, hmonth, hday, hmicro]

open Classical in
/-- Readings that know the moments in UTC, and no integer in a text or in a float. -/
noncomputable def utcReadings : Readings where
  strOf _ := []
  intOfFloat _ := .error .corrupt
  floatIsZero _ := false
  intOfText _ := none
  fromisoformat s :=
    if h : ∃ m, ofText (isoformatUtc m) = s then some (.aware (.ofUtc h.choose)) else none
  isoformat m := ofText (isoformatUtc m)
  fromisoformat_isoformat m := by
    have hex : ∃ m', ofText (isoformatUtc m') = ofText (isoformatUtc m) := ⟨m, rfl⟩
    have hinj : Function.Injective ofText := List.map_injective_iff.mpr fun c c' h => by
      cases h
      rfl
    rw [dif_pos hex, isoformatUtc_injective (hinj hex.choose_spec)]

end Snapshots
end Client
end Nauro
