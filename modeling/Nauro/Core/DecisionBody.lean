import Nauro.Core.Text

/-!
# The Markdown body of a decision file

The body is free Markdown whose structure is recovered by scanning its lines.
-/

namespace Nauro
namespace Core

open Foundation

/-! ## The title heading -/

/-- `\s+(.+)$` after the em dash: the title, when the pattern matches here. -/
def titleAfterDash (after : Text) : Option Text :=
  let spaces := after.takeWhile isSpace
  let rest := after.dropWhile isSpace
  if spaces = [] then none
  else if rest ≠ [] then some (strip (rest.takeWhile (· != '\n')))
  -- nothing but white space follows: `.+` then takes the last blank that is no newline
  else if (spaces.drop 1).any (· != '\n') then some []
  else none

/-- `_H1_PATTERN` at the start of a line, followed by the rest of the body. -/
def h1At (text : Text) : Option Text :=
  match text with
  | '#' :: rest =>
      let number := rest.dropWhile isSpace
      let afterNumber := number.dropWhile Char.isDigit
      match afterNumber.dropWhile isSpace with
      | '—' :: after =>
          if rest.head?.any isSpace && number.head?.any Char.isDigit &&
              afterNumber.head?.any isSpace then
            titleAfterDash after
          else none
      | _ => none
  | _ => none

/-- The rest of a text after each of its newlines. -/
def afterNewlines : Text → List Text
  | [] => []
  | c :: rest => if c = '\n' then rest :: afterNewlines rest else afterNewlines rest

/-- `_H1_PATTERN.search(body)`: the title of the leftmost match. -/
def searchH1 (body : Text) : Option Text :=
  (body :: afterNewlines body).findSome? h1At

/-! ## Rationale and rejected section -/

def decisionAnchor : Text := "## Decision".toList
def rejectedAnchor : Text := "## Rejected Alternatives".toList

/-- The marker of a fence line. -/
def leadingFenceMarker (line : Text) : Option Char :=
  if "```".toList.isPrefixOf (strip line) then some '\x60'
  else if "~~~".toList.isPrefixOf (strip line) then some '~'
  else none

/-- The open fence after a fence line: only a bare run of the same marker closes one. -/
def toggleFence (fence : Option Char) (marker : Char) (line : Text) : Option Char :=
  match fence with
  | none => some marker
  | some open_ => if marker = open_ ∧ (strip line).all (· == open_) then none else some open_

/-- The loop variables of `_split_decision_body`. -/
structure BodyScan where
  fence : Option Char
  decisionIdx : Option Nat
  rejectedIdx : Option Nat
deriving DecidableEq

/-- One pass of the loop, for the line `line` at index `i`. -/
def scanLine (scan : BodyScan) : Text × Nat → BodyScan
  | (line, i) =>
      match leadingFenceMarker line with
      | some marker => { scan with fence := toggleFence scan.fence marker line }
      | none =>
          if scan.fence.isSome then scan
          else if scan.decisionIdx.isNone then
            if rstrip line = decisionAnchor then { scan with decisionIdx := some i } else scan
          else if rstrip line = rejectedAnchor then { scan with rejectedIdx := some i }
          else scan

/-- The rationale, and the rejected section when there is one; `none` without a
`## Decision` heading. -/
def splitDecisionBody (body : Text) : Option (Text × Option Text) :=
  let lines := splitLines body
  let scan := lines.zipIdx.foldl scanLine ⟨none, none, none⟩
  match scan.decisionIdx, scan.rejectedIdx with
  | none, _ => none
  | some decisionIdx, none => some (strip (joinLines (lines.drop (decisionIdx + 1))), none)
  | some decisionIdx, some rejectedIdx =>
      some (strip (joinLines ((lines.take rejectedIdx).drop (decisionIdx + 1))),
        some (strip (joinLines (lines.drop (rejectedIdx + 1)))))

/-! ## Rejected alternatives -/

/-- A rejected alternative with its reason; the name is never empty. -/
structure RejectedAlternative where
  name : Text
  reason : Option Text
  name_ne_nil : name ≠ []
deriving DecidableEq

def RejectedAlternative.make? (name : Text) (reason : Option Text) : Option RejectedAlternative :=
  if h : name ≠ [] then some ⟨name, reason, h⟩ else none

/-- What follows `###` on a line, when white space or the line end does. -/
def headingRest? : Text → Option Text
  | '#' :: '#' :: '#' :: rest => if rest.head?.all isSpace then some rest else none
  | _ => none

def isBlank (line : Text) : Bool :=
  line.all isSpace

/-- Whether the blank text after a final `###` still has a character for `(.+?)`. -/
def blankName (pending : List Text) : Bool :=
  ((joinLines pending).drop 4).any (· != '\n')

/-- `_SUBSECTION_SPLIT.split` on lines: the preamble, then each name with the lines under it.
`\s+` runs over line ends, so a bare `###` takes the next line that is not blank as its name;
`pending` is the bare heading and the blank lines since, while that line is awaited. -/
def subsections : Option (List Text) → List Text → List Text × List (Text × List Text)
  | none, [] => ([], [])
  | none, line :: rest =>
      match headingRest? line with
      | none =>
          let (preamble, chunks) := subsections none rest
          (line :: preamble, chunks)
      | some name =>
          if isBlank name then subsections (some [line]) rest
          else
            let (body, chunks) := subsections none rest
            ([], (strip name, body) :: chunks)
  | some pending, [] => if blankName pending then ([], [([], [])]) else (pending, [])
  | some pending, line :: rest =>
      if isBlank line then subsections (some (pending ++ [line])) rest
      else
        let (body, chunks) := subsections none rest
        ([], (strip line, body) :: chunks)

/-- `reason_raw or None` of the text under a heading. -/
def reasonOf (body : List Text) : Option Text :=
  let reason := strip (joinLines body)
  if reason = [] then none else some reason

/-- `_parse_rejected_subsections`; `none` is the validation error of an empty name. -/
def parseRejectedSubsections (sectionText : Text) : Option (List RejectedAlternative) :=
  if strip sectionText = [] then some []
  else
    (subsections none (splitLines sectionText)).2.mapM fun (name, body) =>
      RejectedAlternative.make? (strip name) (reasonOf body)

end Core
end Nauro
