import Nauro.Core.Text

/-!
# Dates, identifiers and approval provenance
-/

namespace Nauro
namespace Core

/-! ## Dates -/

def isLeapYear (year : Nat) : Bool :=
  year % 4 == 0 && (year % 100 != 0 || year % 400 == 0)

def daysInMonth (year month : Nat) : Nat :=
  if month = 2 then (if isLeapYear year then 29 else 28)
  else if month = 4 ∨ month = 6 ∨ month = 9 ∨ month = 11 then 30
  else 31

/-- Whether three numbers are a calendar date. -/
def isCalendarDate (year month day : Nat) : Bool :=
  1 ≤ year && year ≤ 9999 && 1 ≤ month && month ≤ 12 && 1 ≤ day &&
    day ≤ daysInMonth year month

/-- `datetime.date`. -/
structure Date where
  year : Nat
  month : Nat
  day : Nat
  valid : isCalendarDate year month day = true
deriving DecidableEq

/-- `date.isoformat()`. -/
def Date.isoformat (date : Date) : Text :=
  padNumber 4 date.year ++ ['-'] ++ padNumber 2 date.month ++ ['-'] ++ padNumber 2 date.day

/-! ## Identifiers -/

/-- The letters and digits of Crockford's base 32. -/
def isCrockford (c : Char) : Bool :=
  c.isDigit || (c.isUpper && c != 'I' && c != 'L' && c != 'O' && c != 'U')

/-- `[0-7][0-9A-HJKMNP-TV-Z]{25}`. -/
def isUlid (value : Text) : Bool :=
  value.length == 26 && value.head?.any (fun c => '0' ≤ c && c ≤ '7') &&
    value.all isCrockford

/-- `[\x20-\x7e]{1,128}`. -/
def isOperationId (value : Text) : Bool :=
  1 ≤ value.length && value.length ≤ 128 &&
    value.all (fun c => 0x20 ≤ c.toNat && c.toNat ≤ 0x7e)

def isLowerHex (c : Char) : Bool :=
  c.isDigit || ('a' ≤ c && c ≤ 'f')

/-- A lowercase SHA-1 or SHA-256 commit name. -/
def isCommitSha (value : Text) : Bool :=
  (value.length == 40 || value.length == 64) && value.all isLowerHex

/-- The number in a slice of a text, when it is all ASCII digits. -/
def sliceNumber? (text : Text) (start length : Nat) : Option Nat :=
  number? ((text.drop start).take length)

/-- Exactly `YYYY-MM-DDTHH:MM:SS.ffffffZ`; `strftime` does not pad a year below 1000. -/
def isUtcTimestamp (value : Text) : Bool :=
  value.length == 27 &&
    (value.drop 4).head? == some '-' && (value.drop 7).head? == some '-' &&
    (value.drop 10).head? == some 'T' && (value.drop 13).head? == some ':' &&
    (value.drop 16).head? == some ':' && (value.drop 19).head? == some '.' &&
    (value.drop 26).head? == some 'Z' &&
    match sliceNumber? value 0 4, sliceNumber? value 5 2, sliceNumber? value 8 2,
        sliceNumber? value 11 2, sliceNumber? value 14 2, sliceNumber? value 17 2,
        sliceNumber? value 20 6 with
    | some year, some month, some day, some hour, some minute, some second, some _ =>
        1000 ≤ year && isCalendarDate year month day && hour < 24 && minute < 60 && second < 60
    | _, _, _, _, _, _, _ => false

/-- The current-version approval of a decision. -/
structure ApprovalProvenance where
  proposedBy : Text
  approvedBy : Text
  approvedAt : Text
  proposalId : Text
  proposedBaseCommit : Option Text
deriving DecidableEq

end Core
end Nauro
