import Nauro.Core.Provenance
import Nauro.Foundation.EscapedUtf8

/-!
# Files of submission records

A record is kept in a file of its own, as JSON next to the digest of its JSON. A file is read
back under the same checks it was written with: its size, its shape, the record's own rules,
the digest and the spelling.

* `readRecord_of_encodeRecord` — what was written is read as it was.
-/

namespace Nauro
namespace Sync

open Foundation Nauro.Core

abbrev Bytes := List UInt8

/-- How records are spelled in files: their digest, the JSON of a record next to a digest, and
the strict reader of such files. -/
structure RecordFormat (Record File : Type) where
  digest : Record → Text
  dump : Record → Text → File
  load? : File → Option (Record × Text)
  size : File → Nat

/-- The reader of files undoes the writer. -/
structure RecordFormat.Lawful {Record File : Type} (format : RecordFormat Record File) :
    Prop where
  load?_dump : ∀ record digest, format.load? (format.dump record digest) = some (record, digest)

def maxRecordBytes : Nat := 2 * 1024 * 1024

/-- What is wrong with a file. -/
inductive FileFault where
  | oversized
  | malformed
  | respelled
deriving DecidableEq

variable {Record File : Type} [DecidableEq File]

/-- The record of a present file. -/
def readEncoded (format : RecordFormat Record File) (check : Record → Bool) (encoded : File) :
    Except FileFault Record :=
  if maxRecordBytes < format.size encoded then .error .oversized
  else
    match format.load? encoded with
    | none => .error .malformed
    | some (record, digest) =>
        if !check record || format.digest record != digest then .error .malformed
        else if format.dump record digest != encoded then .error .respelled
        else .ok record

/-- Distinguish a missing record from unreadable or corrupt evidence. -/
def readRecord (format : RecordFormat Record File) (check : Record → Bool) :
    Option File → Except FileFault (Option Record)
  | none => .ok none
  | some encoded => (readEncoded format check encoded).map some

/-- The file of a record; a record that breaks its own rules has none. -/
def encodeRecord (format : RecordFormat Record File) (check : Record → Bool) (record : Record) :
    Except FileFault File :=
  if !check record then .error .malformed
  else
    let encoded := format.dump record (format.digest record)
    if maxRecordBytes < format.size encoded then .error .oversized else .ok encoded

/-- A file that was written is read as the record it was written for. -/
theorem readRecord_of_encodeRecord {format : RecordFormat Record File} (hformat : format.Lawful)
    {check : Record → Bool} {record : Record} {file : File}
    (h : encodeRecord format check record = .ok file) :
    readRecord format check (some file) = .ok (some record) := by
  unfold encodeRecord at h
  cases hcheck : check record with
  | false =>
      rw [hcheck] at h
      cases h
  | true =>
      rw [hcheck] at h
      by_cases hsize : maxRecordBytes < format.size (format.dump record (format.digest record))
      · simp only [Bool.not_true, Bool.false_eq_true, if_false, if_pos hsize] at h
        cases h
      · simp only [Bool.not_true, Bool.false_eq_true, if_false, if_neg hsize] at h
        cases h
        have hread : readEncoded format check (format.dump record (format.digest record)) =
            .ok record := by
          simp [readEncoded, hsize, hformat.load?_dump, hcheck]
        show (readEncoded format check _).map some = _
        rw [hread]
        rfl

/-- A record that is read passes its own rules. -/
theorem check_of_readEncoded {format : RecordFormat Record File} {check : Record → Bool}
    {encoded : File} {record : Record} (h : readEncoded format check encoded = .ok record) :
    check record = true := by
  unfold readEncoded at h
  split at h
  · cases h
  · split at h
    · cases h
    · split at h
      · cases h
      · rename_i hrules
        split at h
        · cases h
        · cases h
          rw [Bool.or_eq_true, not_or, Bool.not_eq_true'] at hrules
          simpa using hrules.1

theorem check_of_readRecord {format : RecordFormat Record File} {check : Record → Bool}
    {file : Option File} {record : Record}
    (h : readRecord format check file = .ok (some record)) : check record = true := by
  cases file with
  | none => cases h
  | some encoded =>
      cases hread : readEncoded format check encoded with
      | error fault =>
          simp only [readRecord, hread] at h
          cases h
      | ok found =>
          simp only [readRecord, hread] at h
          cases h
          exact check_of_readEncoded hread

/-! ## Shared pieces of records -/

/-- A pattern of 64 lowercase hexadecimal digits. -/
def isDigest (value : Text) : Bool :=
  value.length == 64 && value.all isLowerHex

/-- The phases of a saved submission, in the order it goes through them. -/
inductive Phase where
  | prepared
  | uncertain
  | resolved
deriving DecidableEq

def Phase.rank : Phase → Nat
  | .prepared => 0
  | .uncertain => 1
  | .resolved => 2

/-- A point in time: microseconds since the beginning of year 1. -/
abbrev Instant := Int

def daysBeforeYear (year : Nat) : Nat :=
  let y := year - 1
  y * 365 + y / 4 - y / 100 + y / 400

def daysBeforeMonth (year month : Nat) : Nat :=
  (List.range (month - 1)).foldl (fun days m => days + daysInMonth year (m + 1)) 0

/-- `datetime.fromisoformat` of a timestamp `YYYY-MM-DDTHH:MM:SS.ffffffZ`. -/
def instantOf (timestamp : Text) : Instant :=
  let number (start length : Nat) : Nat := (sliceNumber? timestamp start length).getD 0
  let year := number 0 4
  let month := number 5 2
  let days := daysBeforeYear year + daysBeforeMonth year month + number 8 2
  let seconds := ((days * 24 + number 11 2) * 60 + number 14 2) * 60 + number 17 2
  ((seconds * 1000000 + number 20 6 : Nat) : Int)

/-- Twenty-four hours from the creation of a record, during which it may be sent. -/
def inRetryWindow (createdAt : Text) (now : Instant) : Bool :=
  let elapsed := now - instantOf createdAt
  0 ≤ elapsed && elapsed ≤ 24 * 3600 * 1000000

end Sync
end Nauro
