import Nauro.Core.Frontmatter
import Nauro.Core.Parsing

/-!
# The open-questions file

`open-questions.md` is a flat list of blocks, one block for each run of lines the grammar
keeps together. An entry is identified by its `[Q###]` prefix, or by a legacy timestamp.
-/

namespace Nauro
namespace Core
namespace Questions

/-! ## Identifiers -/

def maxQuestionNumber : Nat := 10 ^ 18 - 1

/-- The canonical unpadded Q-form. -/
def formatQuestionId (number : Nat) : Text :=
  'Q' :: Nat.toDigits 10 number

/-- The number of a Q-form input, leading zeros allowed. -/
def parseQuestionId (value : Text) : Option Nat :=
  match value with
  | 'Q' :: digits =>
      (number? digits).filter fun number => 1 ≤ number && number ≤ maxQuestionNumber
  | _ => none

/-- An exact calendar-valid `YYYY-MM-DD HH:MM UTC`; `strftime` does not pad a year below
1000. -/
def isLegacyQuestionId (value : Text) : Bool :=
  value.length == 20 &&
    (value.drop 4).head? == some '-' && (value.drop 7).head? == some '-' &&
    (value.drop 10).head? == some ' ' && (value.drop 13).head? == some ':' &&
    value.drop 16 == " UTC".toList &&
    match sliceNumber? value 0 4, sliceNumber? value 5 2, sliceNumber? value 8 2,
        sliceNumber? value 11 2, sliceNumber? value 14 2 with
    | some year, some month, some day, some hour, some minute =>
        1000 ≤ year && isCalendarDate year month day && hour < 24 && minute < 60
    | _, _, _, _, _ => false

/-! ## Entries and blocks -/

/-- Pointer to the decision that resolved a question. -/
structure ResolvedRef where
  decisionNum : Nat
  date : Date
  positive : 1 ≤ decisionNum
deriving DecidableEq

/-- Exactly one of a number and a legacy timestamp; `source` is the number as it is spelled. -/
inductive QuestionKey where
  | num (n : Nat) (source : Text)
  | timestamp (stamp : Text)
deriving DecidableEq

structure QuestionEntry where
  key : QuestionKey
  body : Text
  continuation : List Text
  resolvedBy : Option ResolvedRef
deriving DecidableEq

def QuestionEntry.num (e : QuestionEntry) : Option Nat :=
  match e.key with
  | .num n _ => some n
  | .timestamp _ => none

def QuestionEntry.id (e : QuestionEntry) : Text :=
  match e.key with
  | .num n _ => formatQuestionId n
  | .timestamp stamp => stamp

/-- `_source_question_id`. -/
def QuestionEntry.sourceQuestionId (e : QuestionEntry) : Option Text :=
  match e.key with
  | .num _ source => some source
  | .timestamp _ => none

def QuestionEntry.renderId (e : QuestionEntry) : Text :=
  e.sourceQuestionId.getD e.id

def resolvedHeader : Text := "## Resolved".toList
def defaultHeader : Text := "# Open Questions".toList
def resolvedPrefixToken : Text := "Resolved by D".toList
def resolvedPrefixSep : Text := " on ".toList

/-- The head line of an entry. -/
def QuestionEntry.head (e : QuestionEntry) : Text :=
  match e.resolvedBy with
  | some ref =>
      "- [".toList ++ resolvedPrefixToken ++ Nat.toDigits 10 ref.decisionNum ++
        resolvedPrefixSep ++ ref.date.isoformat ++ "] [".toList ++ e.renderId ++ "] ".toList ++
        e.body
  | none => "- [".toList ++ e.renderId ++ "] ".toList ++ e.body

def QuestionEntry.render (e : QuestionEntry) : List Text :=
  e.head :: e.continuation

inductive Block where
  /-- A `##` section header line. -/
  | header (text : Text) (isResolvedDivider : Bool)
  /-- A run of free-form prose and blank lines. -/
  | prose (lines : List Text)
  | entry (e : QuestionEntry)
  /-- A `###` topic header with its body lines. -/
  | tripleHash (lines : List Text) (embeddedId : Option Text)
  /-- A `- [` line that is no entry. -/
  | unparsable (line : Text)
deriving DecidableEq

def Block.renderLines : Block → List Text
  | .header text _ => [text]
  | .prose lines => lines
  | .entry e => e.render
  | .tripleHash lines _ => lines
  | .unparsable line => [line]

def Block.entry? : Block → Option QuestionEntry
  | .entry e => some e
  | _ => none

def Block.isHeader : Block → Bool
  | .header _ _ => true
  | _ => false

def Block.isResolvedDivider : Block → Bool
  | .header _ divider => divider
  | _ => false

/-- A prose block of blank lines. -/
def Block.isBlankProse : Block → Bool
  | .prose lines => lines.all fun line => (strip line).isEmpty
  | _ => false

structure OpenQuestionsFile where
  header : Text
  blocks : List Block
deriving DecidableEq

/-! ## Parsing -/

/-- `_parse_header`: the file-level header and the lines after it. -/
def parseHeader : List Text → Text × List Text
  | [] => (defaultHeader, [])
  | line :: rest =>
      if (strip line).isEmpty then parseHeader rest
      else if "# ".toList.isPrefixOf line then (rstrip line, rest)
      else (defaultHeader, line :: rest)

/-- `text[: text.find(sep)]` and what follows the separator. -/
def splitAtText (sep : Text) (text : Text) : Option (Text × Text) :=
  partitionAt? sep text

/-- `date.fromisoformat` on `YYYY-MM-DD`. -/
def parseIsoDate (text : Text) : Option Date :=
  if text.length = 10 ∧ (text.drop 4).head? = some '-' ∧ (text.drop 7).head? = some '-' then
    match sliceNumber? text 0 4, sliceNumber? text 5 2, sliceNumber? text 8 2 with
    | some year, some month, some day =>
        if h : isCalendarDate year month day = true then some ⟨year, month, day, h⟩ else none
    | _, _, _ => none
  else none

/-- `Resolved by Dnn on YYYY-MM-DD`. -/
def parseResolvedPrefix (text : Text) : Option ResolvedRef :=
  if resolvedPrefixToken.isPrefixOf text then
    match splitAtText resolvedPrefixSep (text.drop resolvedPrefixToken.length) with
    | some (digits, after) =>
        match number? digits, parseIsoDate (strip after) with
        | some n, some date => if h : 1 ≤ n then some ⟨n, date, h⟩ else none
        | _, _ => none
    | none => none
  else none

/-- The text inside a leading bracket, not empty, and what follows the bracket. -/
def bracketed (text : Text) : Option (Text × Text) :=
  match text with
  | '[' :: rest => (splitAtText [']'] rest).map fun (inside, after) =>
      (inside, after.dropWhile isSpace)
  | _ => none

def questionKey? (idText : Text) : Option QuestionKey :=
  match parseQuestionId idText with
  | some n => some (.num n idText)
  | none => if isLegacyQuestionId idText then some (.timestamp idText) else none

/-- The head line of `_parse_entry`. -/
def parseEntryHead (line : Text) : Option QuestionEntry :=
  match bracketed (line.drop 2) with
  | none => none
  | some (firstInside, afterFirst) =>
      if resolvedPrefixToken.isPrefixOf firstInside then
        match parseResolvedPrefix firstInside, bracketed afterFirst with
        | some ref, some (idText, body) =>
            (questionKey? idText).map fun key => ⟨key, body, [], some ref⟩
        | _, _ => none
      else (questionKey? firstInside).map fun key => ⟨key, afterFirst, [], none⟩

/-- `_extract_embedded_id`: the first bracketed id in a line, each `[` searched after the
`]` of the one before. -/
def extractEmbeddedId : Nat → Text → Option Text
  | 0, _ => none
  | fuel + 1, text =>
      match splitAtText ['['] text with
      | none => none
      | some (_, afterOpen) =>
          match splitAtText [']'] afterOpen with
          | none => none
          | some (candidate, afterClose) =>
              if (questionKey? candidate).isSome then some candidate
              else extractEmbeddedId fuel afterClose

def isSectionLine (line : Text) : Bool :=
  "## ".toList.isPrefixOf line

def isTopicLine (line : Text) : Bool :=
  "### ".toList.isPrefixOf line

def isItemLine (line : Text) : Bool :=
  "- [".toList.isPrefixOf line

/-- The block that the next lines may still join. -/
inductive Pending where
  | none
  | prose (lines : List Text)
  | entry (e : QuestionEntry)
  | topic (lines : List Text) (embeddedId : Option Text)
deriving DecidableEq

def Pending.close : Pending → List Block
  | .none => []
  | .prose lines => [.prose lines]
  | .entry e => [.entry e]
  | .topic lines embeddedId => [.tripleHash lines embeddedId]

/-- A line that opens a block of its own. -/
def opensBlock (line : Text) : Bool :=
  isSectionLine line || isTopicLine line || isItemLine line

/-- The pending block with one more line, when the line joins it: the continuation of an
entry is indented, a topic goes on to a blank line or the next block, prose to the next
block. -/
def Pending.join (pending : Pending) (line : Text) : Option Pending :=
  match pending with
  | .none => Option.none
  | .prose lines => if opensBlock line then Option.none else some (.prose (lines ++ [line]))
  | .entry e =>
      if "  ".toList.isPrefixOf line then
        some (.entry { e with continuation := e.continuation ++ [line] })
      else Option.none
  | .topic lines embeddedId =>
      if (strip line).isEmpty || opensBlock line then Option.none
      else some (.topic (lines ++ [line]) embeddedId)

/-- The loop of `parse`. -/
def parseBlocks (tables : UnicodeTables) : Pending → List Text → List Block
  | pending, [] => pending.close
  | pending, line :: rest =>
      match pending.join line with
      | some joined => parseBlocks tables joined rest
      | none =>
          if isSectionLine line then
            pending.close ++
              .header (rstrip line)
                (containsText "resolved".toList (lower tables (strip line))) ::
                parseBlocks tables .none rest
          else if isTopicLine line then
            pending.close ++
              parseBlocks tables (.topic [line] (extractEmbeddedId line.length line)) rest
          else if isItemLine line then
            match parseEntryHead line with
            | none => pending.close ++ .unparsable line :: parseBlocks tables .none rest
            | some e => pending.close ++ parseBlocks tables (.entry e) rest
          else pending.close ++ parseBlocks tables (.prose [line]) rest

/-- `OpenQuestionsFile.parse`. -/
def OpenQuestionsFile.parse (tables : UnicodeTables) (content : Text) : OpenQuestionsFile :=
  let (header, rest) := parseHeader (splitLines content)
  ⟨header, parseBlocks tables .none rest⟩

/-- `OpenQuestionsFile.format`. -/
def OpenQuestionsFile.format (file : OpenQuestionsFile) : Text :=
  joinLines (file.header :: file.blocks.flatMap Block.renderLines)

/-! ## Ids -/

def OpenQuestionsFile.entries (file : OpenQuestionsFile) : List QuestionEntry :=
  file.blocks.filterMap Block.entry?

/-- The ids one block makes known. -/
def Block.knownIds : Block → List Text
  | .entry e => e.id :: e.sourceQuestionId.toList
  | .tripleHash _ (some embeddedId) =>
      embeddedId :: ((parseQuestionId embeddedId).map formatQuestionId).toList
  | _ => []

/-- `known_question_ids`. -/
def OpenQuestionsFile.knownQuestionIds (file : OpenQuestionsFile) : List Text :=
  file.blocks.flatMap Block.knownIds

/-- The spellings under which an entry's id can be asked for. -/
def QuestionEntry.aliases (e : QuestionEntry) : List Text :=
  e.id :: e.sourceQuestionId.toList

/-- `value in ambiguous_ids`: an alias of an id that several entries carry. -/
def OpenQuestionsFile.isAmbiguous (file : OpenQuestionsFile) (value : Text) : Bool :=
  file.entries.any fun e =>
    e.aliases.contains value && 1 < (file.entries.map QuestionEntry.id).count e.id

/-- `_canonicalize_question_reference`. -/
def canonicalizeQuestionReference (value : Text) : Text :=
  match parseQuestionId value with
  | some n => formatQuestionId n
  | none => value

/-! ## Resolving -/

/-- `dict.fromkeys`: the first occurrences in order. -/
def uniqueInOrder (values : List Text) : List Text :=
  values.foldl (fun seen value => if value ∈ seen then seen else seen ++ [value]) []

structure ResolveResult where
  file : OpenQuestionsFile
  movedIds : List Text
  unknownIds : List Text
  ambiguousIds : List Text

def Block.resolve (requested : List Text) (ref : ResolvedRef) : Block → Block
  | .entry e =>
      if requested.contains e.id && e.resolvedBy.isNone then
        .entry { e with resolvedBy := some ref }
      else .entry e
  | block => block

/-- Whether resolving stamps a block. -/
def Block.flips (requested : List Text) : Block → Bool
  | .entry e => requested.contains e.id && e.resolvedBy.isNone
  | _ => false

/-- The blocks with the requested entries stamped; a file without a divider gets one when an
entry was stamped. -/
def OpenQuestionsFile.stamp (file : OpenQuestionsFile) (requested : List Text)
    (ref : ResolvedRef) : List Block :=
  let blocks := file.blocks.map (Block.resolve requested ref)
  if !file.blocks.any Block.isResolvedDivider && file.blocks.any (Block.flips requested) then
    blocks ++ [.prose [[]], .header resolvedHeader true]
  else blocks

/-- `resolve`: stamp the named entries in place; `none` when the reference is refused. -/
def OpenQuestionsFile.resolve (file : OpenQuestionsFile) (ids : List Text) (decisionNum : Nat)
    (date : Date) : Option ResolveResult :=
  if ids = [] then some ⟨file, [], [], []⟩
  else
    let requested := uniqueInOrder (ids.map canonicalizeQuestionReference)
    let ambiguous := requested.filter file.isAmbiguous
    if ambiguous ≠ [] then some ⟨file, [], [], ambiguous⟩
    else if h : 1 ≤ decisionNum then
      let entryIds := file.entries.map QuestionEntry.id
      some ⟨{ file with blocks := file.stamp requested ⟨decisionNum, date, h⟩ },
        requested.filter entryIds.contains, requested.filter fun id => !entryIds.contains id, []⟩
    else none

/-! ## Normalizing -/

structure NormalizeResult where
  file : OpenQuestionsFile
  relocatedIds : List Text
  skippedProseIds : List Text

/-- Whether only blank prose stands between an entry and the next entry, header or the end. -/
def proseSafe (rest : List Block) : Bool :=
  (rest.dropWhile Block.isBlankProse).head?.all fun next => next.isHeader || next.entry?.isSome

/-- The walk of `normalize` up to the divider: the blocks kept, the entries relocated and the
ids held back. `dropping` is true while the blank prose after a relocated entry is removed. -/
def relocate : Bool → List Block → List Block × List QuestionEntry × List Text
  | _, [] => ([], [], [])
  | dropping, block :: rest =>
      if block.isResolvedDivider then (block :: rest, [], [])
      else if dropping && block.isBlankProse then relocate true rest
      else
        match block with
        | .entry e =>
            if e.resolvedBy.isNone then
              let (kept, moved, skipped) := relocate false rest
              (.entry e :: kept, moved, skipped)
            else if proseSafe rest then
              let (kept, moved, skipped) := relocate true rest
              (kept, e :: moved, skipped)
            else
              let (kept, moved, skipped) := relocate false rest
              (.entry e :: kept, moved, e.id :: skipped)
        | block =>
            let (kept, moved, skipped) := relocate false rest
            (block :: kept, moved, skipped)

/-- Insert the relocated blocks before the first header after the divider. -/
def insertAfterDivider (relocated : List Block) : List Block → List Block
  | [] => relocated
  | block :: rest =>
      if block.isResolvedDivider then
        block :: (rest.takeWhile (fun b => !b.isHeader) ++ relocated ++
          rest.dropWhile fun b => !b.isHeader)
      else block :: insertAfterDivider relocated rest

/-- `normalize`. -/
def OpenQuestionsFile.normalize (file : OpenQuestionsFile) : NormalizeResult :=
  let (kept, moved, skipped) := relocate false file.blocks
  if moved = [] then ⟨file, [], skipped⟩
  else
    let relocated := moved.flatMap fun e => [.prose [[]], .entry e]
    let blocks :=
      if file.blocks.any Block.isResolvedDivider then insertAfterDivider relocated kept
      else kept ++ [.prose [[]], .header resolvedHeader true] ++ relocated
    ⟨{ file with blocks }, moved.map QuestionEntry.id, skipped⟩

/-! ## Migrating -/

/-- One legacy entry's rename. -/
structure MigrationRename where
  oldId : Text
  newId : Text
  logged : Text
deriving DecidableEq

structure MigrationResult where
  file : OpenQuestionsFile
  renames : List MigrationRename

/-- `(logged ...)`. -/
def loggedSuffix (stamp : Text) : Text :=
  "(logged ".toList ++ stamp ++ ")".toList

/-- The body of a migrated entry keeps the time it was logged at. -/
def migratedBody (body stamp : Text) : Text :=
  if body = [] then loggedSuffix stamp else body ++ ' ' :: loggedSuffix stamp

/-- The loop of `migrate`; `none` when a number is past the width bound. -/
def migrateBlocks : Nat → List Block → Option (List Block × List MigrationRename)
  | _, [] => some ([], [])
  | nextNum, block :: rest =>
      match block with
      | .entry ⟨.timestamp stamp, body, continuation, resolvedBy⟩ =>
          if nextNum ≤ maxQuestionNumber then
            (migrateBlocks (nextNum + 1) rest).map fun (blocks, renames) =>
              (.entry ⟨.num nextNum (formatQuestionId nextNum), migratedBody body stamp,
                  continuation, resolvedBy⟩ :: blocks,
                ⟨stamp, formatQuestionId nextNum, loggedSuffix stamp⟩ :: renames)
          else none
      | block =>
          (migrateBlocks nextNum rest).map fun (blocks, renames) => (block :: blocks, renames)

/-- `migrate`: mint a number for every legacy entry, in place; `none` when a number is past
the width bound. -/
def OpenQuestionsFile.migrate (file : OpenQuestionsFile) : Option MigrationResult :=
  let nextNum := (file.entries.filterMap QuestionEntry.num).foldr max 0 + 1
  (migrateBlocks nextNum file.blocks).map fun (blocks, renames) =>
    ⟨{ file with blocks }, renames⟩

/-! ## Appending -/

/-- One past the highest number anywhere in the file. -/
def allocateQuestionNumber (file : OpenQuestionsFile) : Nat :=
  (file.entries.filterMap QuestionEntry.num).foldr max 0 + 1

/-- `f"- [{format_question_id(num)}] {body}"`; `none` past the width bound. -/
def composeQuestionEntry (num : Nat) (body : Text) : Option Text :=
  if 1 ≤ num ∧ num ≤ maxQuestionNumber then
    some ("- [".toList ++ formatQuestionId num ++ "] ".toList ++ body)
  else none

/-- Blank lines and leading HTML comments below the header. -/
def isSkippedLine (line : Text) : Bool :=
  (strip line).isEmpty || "<!--".toList.isPrefixOf line

/-- `insert_question_entry`: after the first `# ` header, else from line two. -/
def insertQuestionEntry (content : Text) (entry : Text) : Text :=
  let lines := splitLines content
  let start := ((lines.findIdx? ("# ".toList.isPrefixOf ·)).getD 0) + 1
  let rest := lines.drop start
  joinLines (lines.take start ++ rest.takeWhile isSkippedLine ++ entry ::
    rest.dropWhile isSkippedLine)

end Questions
end Core
end Nauro
