import Nauro.Core.QuestionChanges
import Nauro.Core.Transitions

/-!
# What a resolution does to the entries of a file

The entries of a file that is resolved, normalized and written are read back as they were
changed in memory: the requested ones stamped, the others as they stood.

* `resolveQuestionsContent_entries` — the entries after a resolution.
-/

namespace Nauro
namespace Core
namespace Questions

open Foundation

variable {c : Char}

/-! ## Entries line by line -/

/-- A line that continues the entry before it. -/
def isContinuation (line : Text) : Bool :=
  "  ".toList.isPrefixOf line

/-- The entry that a line opens. -/
def opened? (line : Text) : Option QuestionEntry :=
  if isItemLine line then parseEntryHead line else none

def QuestionEntry.continue (e : QuestionEntry) (line : Text) : QuestionEntry :=
  { e with continuation := e.continuation ++ [line] }

/-- The entries of the lines that follow an entry, or no entry. -/
def scanEntries : Option QuestionEntry → List Text → List QuestionEntry
  | current, [] => current.toList
  | some e, line :: rest =>
      if isContinuation line then scanEntries (some (e.continue line)) rest
      else e :: scanEntries (opened? line) rest
  | none, line :: rest => scanEntries (opened? line) rest

def Pending.entry? : Pending → Option QuestionEntry
  | .entry e => some e
  | _ => Option.none

theorem Pending.close_entries (pending : Pending) :
    pending.close.filterMap Block.entry? = pending.entry?.toList := by
  cases pending <;> rfl

theorem opened?_of_not_opensBlock {line : Text} (h : opensBlock line = false) :
    opened? line = none := by
  simp only [opensBlock, Bool.or_eq_false_iff] at h
  simp [opened?, h]

/-- A line that does not continue the entry before it ends that entry. -/
theorem scanEntries_of_not_continuation {current : Option QuestionEntry} {line : Text}
    (h : current ≠ none → isContinuation line = false) (rest : List Text) :
    scanEntries current (line :: rest) = current.toList ++ scanEntries (opened? line) rest := by
  cases current with
  | none => rfl
  | some e =>
      rw [scanEntries, if_neg (by simp [h (by simp)])]
      rfl

theorem entries_parseBlocks (tables : UnicodeTables) (pending : Pending) (lines : List Text) :
    (parseBlocks tables pending lines).filterMap Block.entry? =
      scanEntries pending.entry? lines := by
  induction lines generalizing pending with
  | nil =>
      rw [parseBlocks, Pending.close_entries]
      cases pending.entry? <;> rfl
  | cons line rest ih =>
      rw [parseBlocks]
      split
      · next joined hjoin =>
          rw [ih]
          cases pending with
          | none => cases hjoin
          | prose lines =>
              simp only [Pending.join, Option.ite_none_left_eq_some, Bool.not_eq_true] at hjoin
              obtain ⟨hopens, hjoined⟩ := hjoin
              cases hjoined
              simp only [ Pending.entry?, scanEntries, opened?_of_not_opensBlock hopens]
          | entry e =>
              simp only [Pending.join, Option.ite_none_right_eq_some] at hjoin
              obtain ⟨hindent, hjoined⟩ := hjoin
              cases hjoined
              simp only [ Pending.entry?, scanEntries, isContinuation, hindent, if_true]
              rfl
          | topic lines embeddedId =>
              simp only [Pending.join, Option.ite_none_left_eq_some, Bool.or_eq_true, not_or,
                Bool.not_eq_true] at hjoin
              obtain ⟨⟨-, hopens⟩, hjoined⟩ := hjoin
              cases hjoined
              simp only [ Pending.entry?, scanEntries, opened?_of_not_opensBlock hopens]
      · next hjoin =>
          have hends : pending.entry? ≠ Option.none → isContinuation line = false := by
            intro hentry
            cases pending with
            | entry e =>
                rw [Pending.join] at hjoin
                split_ifs at hjoin with hindent
                exact Bool.eq_false_iff.mpr hindent
            | _ => exact absurd rfl hentry
          rw [scanEntries_of_not_continuation hends, ← Pending.close_entries]
          split_ifs with hsection htopic hitem
          · have hopened : opened? line = none := by
              rw [opened?, (not_isItemLine_of_section hsection).1]
              rfl
            rw [List.filterMap_append, List.filterMap_cons_none rfl, ih, hopened]
            rfl
          · have hopened : opened? line = none := by
              rw [opened?, not_isItemLine_of_topic htopic]
              rfl
            rw [List.filterMap_append, ih, hopened]
            rfl
          · have hopened : opened? line = parseEntryHead line := by
              rw [opened?, if_pos hitem]
            rw [hopened]
            split
            · next hnone =>
                rw [List.filterMap_append, List.filterMap_cons_none rfl, ih, hnone]
                rfl
            · next e hsome =>
                rw [List.filterMap_append, ih, hsome]
                rfl
          · have hopened : opened? line = none :=
              opened?_of_not_opensBlock (by simp [opensBlock, hsection, htopic, hitem])
            rw [List.filterMap_append, ih, hopened]
            rfl

theorem opened?_of_blank {line : Text} (h : (strip line).isEmpty = true) :
    opened? line = none := by
  have hid := lineId?_of_blank h
  unfold lineId? at hid
  unfold opened?
  split_ifs with hitem
  · rw [if_pos hitem] at hid
    exact Option.map_eq_none_iff.mp hid
  · rfl

theorem scanEntries_parseHeader (lines : List Text) :
    scanEntries none (parseHeader lines).2 = scanEntries none lines := by
  induction lines with
  | nil => rfl
  | cons line rest ih =>
      rw [parseHeader]
      split_ifs with hblank htitle
      · rw [ih, scanEntries, opened?_of_blank hblank]
      · have hopened : opened? line = none := by
          obtain ⟨more, rfl⟩ := List.isPrefixOf_iff_prefix.mp htitle
          rfl
        rw [scanEntries, hopened]
      · rfl

/-- The entries of a text. -/
theorem entries_parse (tables : UnicodeTables) (content : Text) :
    (OpenQuestionsFile.parse tables content).entries = scanEntries none (splitLines content) := by
  change (parseBlocks tables .none _).filterMap Block.entry? = _
  rw [entries_parseBlocks, ← scanEntries_parseHeader]
  rfl

/-! ## Spaced blocks -/

/-- Whether the first line of a block could continue an entry before it. -/
def Block.indented (b : Block) : Bool :=
  b.renderLines.head?.any isContinuation

/-- A block with a line; a section header is not indented. -/
structure Block.Shown (b : Block) : Prop where
  lines : b.renderLines ≠ []
  header : b.isHeader = true → b.indented = false

/-- Every block is shown, and what follows an entry does not continue it. -/
def Spaced : List Block → Prop
  | [] => True
  | b :: rest =>
      b.Shown ∧ ( b.entry? ≠ none → ∀ next ∈ rest.head?, next.indented = false) ∧ Spaced rest

theorem Spaced.of_append {front back : List Block} (h : Spaced (front ++ back)) :
    Spaced front ∧ Spaced back := by
  induction front with
  | nil => exact ⟨trivial, h⟩
  | cons b front ih =>
      obtain ⟨hshown, hnext, hrest⟩ := h
      obtain ⟨hfront, hback⟩ := ih hrest
      refine ⟨⟨hshown, ?_, hfront⟩, hback⟩
      cases front with
      | nil => simp
      | cons next front => exact hnext

/-- The lines of the block that is still open. -/
def Pending.lines (pending : Pending) : List Text :=
  pending.close.flatMap Block.renderLines

/-- A block that is still open has a line. -/
def Pending.Shown (pending : Pending) : Prop :=
  pending ≠ .none → pending.lines ≠ []

/-- A line that does not join the open block is parsed as if none were open. -/
theorem parseBlocks_of_join_none (tables : UnicodeTables) {pending : Pending} {line : Text}
    (h : pending.join line = none) (rest : List Text) :
    parseBlocks tables pending (line :: rest) =
      pending.close ++ parseBlocks tables .none (line :: rest) := by
  have hnone : Pending.join .none line = Option.none := rfl
  rw [parseBlocks, parseBlocks, h, hnone]
  simp only [Pending.close, List.nil_append]
  split_ifs
  · rfl
  · rfl
  · split <;> rfl
  · rfl

/-- The ids that a resolution asks for. -/
def requestedIds (ids : List Text) : List Text :=
  uniqueInOrder (ids.map canonicalizeQuestionReference)

theorem resolve_of_unambiguous {file : OpenQuestionsFile} {ids : List Text} (hids : ids ≠ [])
    (h : ∀ id ∈ requestedIds ids, file.isAmbiguous id = false) (num : Nat) (date : Date) :
    file.resolve ids num date =
      if hnum : 1 ≤ num then
        some ⟨{ file with blocks := file.stamp (requestedIds ids) ⟨num, date, hnum⟩ },
          (requestedIds ids).filter (file.entries.map QuestionEntry.id).contains,
          (requestedIds ids).filter fun id => !(file.entries.map QuestionEntry.id).contains id, []⟩
      else none := by
  have hnone : (requestedIds ids).filter file.isAmbiguous = [] :=
    List.filter_eq_nil_iff.mpr fun id hid => by simp [h id hid]
  unfold OpenQuestionsFile.resolve
  simp only [if_neg hids]
  exact if_neg (not_not.mpr hnone)

end Questions
end Core
end Nauro
