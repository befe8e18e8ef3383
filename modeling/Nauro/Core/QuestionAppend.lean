import Nauro.Core.QuestionMinting
import Nauro.Core.QuestionRoundTrip

/-!
# Appending a question

An entry that is flagged is inserted as a line below the title. What is parsed around it stays as
it was unless the insertion falls between an entry and its continuation lines, and the entry is
the question as it was asked unless an indented line follows it or the question starts with space.

* `pureInsertion_iff` — when it keeps its promise.
-/

namespace Nauro
namespace Core
namespace Questions

open Foundation

/-! ## Entries around a line -/

/-- An entry takes the indented lines that follow it. -/
theorem scanEntries_some (e : QuestionEntry) (lines : List Text) :
    scanEntries (some e) lines =
      { e with continuation := e.continuation ++ lines.takeWhile isContinuation } ::
        scanEntries none (lines.dropWhile isContinuation) := by
  induction lines generalizing e with
  | nil => simp [scanEntries]
  | cons line rest ih =>
      cases hline : isContinuation line with
      | true =>
          rw [scanEntries, if_pos hline, ih, List.takeWhile_cons_of_pos hline,
            List.dropWhile_cons_of_pos hline]
          simp [QuestionEntry.continue]
      | false =>
          have hnot : ¬ isContinuation line = true := by simp [hline]
          rw [scanEntries, if_neg hnot, List.takeWhile_cons_of_neg hnot,
            List.dropWhile_cons_of_neg hnot, List.append_nil]
          rfl

/-- Lines that start with one that continues no entry are scanned on their own. -/
theorem scanEntries_append (current : Option QuestionEntry) (front : List Text) {back : List Text}
    (h : ∀ line ∈ back.head?, isContinuation line = false) :
    scanEntries current (front ++ back) = scanEntries current front ++ scanEntries none back := by
  induction front generalizing current with
  | nil =>
      cases back with
      | nil => cases current <;> simp [scanEntries]
      | cons line rest =>
          rw [List.nil_append, scanEntries_of_not_continuation fun _ => h line rfl]
          cases current <;> rfl
  | cons line front ih =>
      cases current with
      | none =>
          rw [List.cons_append, scanEntries, scanEntries, ih]
      | some e =>
          rw [List.cons_append, scanEntries, scanEntries]
          split_ifs
          · rw [ih]
          · rw [ih, List.cons_append]

theorem isContinuation_of_isItemLine {line : Text} (h : isItemLine line = true) :
    isContinuation line = false := by
  obtain ⟨more, rfl⟩ := List.isPrefixOf_iff_prefix.mp h
  rfl

/-- The entries of lines with a head line inserted. -/
theorem entries_insert {line : Text} {e : QuestionEntry} (hitem : isItemLine line = true)
    (hhead : parseEntryHead line = some e) (hfresh : e.continuation = []) (front back : List Text) :
    scanEntries none (front ++ line :: back) = scanEntries none front ++
      { e with continuation := back.takeWhile isContinuation } ::
        scanEntries none (back.dropWhile isContinuation) := by
  have hline : ∀ other ∈ (line :: back).head?, isContinuation other = false := by
    rintro other ⟨⟩
    exact isContinuation_of_isItemLine hitem
  rw [scanEntries_append none front hline, scanEntries, opened?, if_pos hitem, hhead,
    scanEntries_some, hfresh, List.nil_append]

/-! ## Blocks around a line -/

theorem opensBlock_of_isItemLine {line : Text} (h : isItemLine line = true) :
    opensBlock line = true := by
  simp [opensBlock, h]

theorem Pending.join_of_opensBlock {pending : Pending} {line : Text} (h : opensBlock line = true) :
    pending.join line = Option.none := by
  cases hjoin : pending.join line with
  | none => rfl
  | some joined =>
      rw [Pending.not_opensBlock_of_join hjoin] at h
      cases h

/-- A line that opens a block starts the blocks of what follows. -/
theorem parseBlocks_append (tables : UnicodeTables) {pending : Pending} {line : Text}
    (h : opensBlock line = true) (front back : List Text) :
    parseBlocks tables pending (front ++ line :: back) =
      parseBlocks tables pending front ++ parseBlocks tables .none (line :: back) := by
  induction front generalizing pending with
  | nil =>
      rw [List.nil_append, parseBlocks_of_join_none tables (Pending.join_of_opensBlock h)]
      rfl
  | cons other front ih =>
      cases hjoin : pending.join other with
      | some joined =>
          rw [List.cons_append, parseBlocks, parseBlocks, hjoin]
          exact ih
      | none =>
          have hfresh : parseBlocks tables .none (other :: (front ++ line :: back)) =
              parseBlocks tables .none (other :: front) ++
                parseBlocks tables .none (line :: back) := by
            have hnone : Pending.join .none other = Option.none := rfl
            rw [parseBlocks, parseBlocks, hnone]
            simp only [Pending.close, List.nil_append]
            split_ifs
            · rw [ih, List.cons_append]
            · rw [ih]
            · split
              · rw [ih, List.cons_append]
              · rw [ih]
            · rw [ih]
          rw [List.cons_append, parseBlocks_of_join_none tables hjoin,
            parseBlocks_of_join_none tables hjoin, hfresh, List.append_assoc]

/-- A section line that is read as the resolved divider. -/
def isDividerLine (tables : UnicodeTables) (line : Text) : Bool :=
  isSectionLine line && containsText "resolved".toList (lower tables (strip line))

theorem isDividerLine_of_not_opensBlock (tables : UnicodeTables) {line : Text}
    (h : opensBlock line = false) : isDividerLine tables line = false := by
  simp only [opensBlock, Bool.or_eq_false_iff] at h
  simp [isDividerLine, h]

theorem Pending.close_divider (pending : Pending) :
    pending.close.any Block.isResolvedDivider = false := by
  cases pending <;> rfl

/-- The dividers of a file are its divider lines. -/
theorem any_divider_parseBlocks (tables : UnicodeTables) (pending : Pending) (lines : List Text) :
    (parseBlocks tables pending lines).any Block.isResolvedDivider =
      lines.any (isDividerLine tables) := by
  induction lines generalizing pending with
  | nil => exact pending.close_divider
  | cons line rest ih =>
      rw [parseBlocks, List.any_cons]
      split
      · next joined hjoin =>
          rw [ih, isDividerLine_of_not_opensBlock tables (Pending.not_opensBlock_of_join hjoin),
            Bool.false_or]
      · split_ifs with hsection htopic hitem
        · rw [List.any_append, Pending.close_divider, List.any_cons, ih]
          simp [Block.isResolvedDivider, isDividerLine, hsection]
        · simp [List.any_append, Pending.close_divider, ih, isDividerLine, hsection]
        · split
          · simp [List.any_append, Pending.close_divider, ih, isDividerLine, hsection,
              Block.isResolvedDivider]
          · simp [List.any_append, Pending.close_divider, ih, isDividerLine, hsection]
        · simp [List.any_append, Pending.close_divider, ih, isDividerLine, hsection]

/-- An entry line and the lines that continue it are one block. -/
theorem parseBlocks_item (tables : UnicodeTables) {line : Text} {e : QuestionEntry}
    (hitem : isItemLine line = true) (hhead : parseEntryHead line = some e) (rest : List Text) :
    parseBlocks tables .none (line :: rest) =
      .entry { e with continuation := e.continuation ++ rest.takeWhile isContinuation } ::
        parseBlocks tables .none (rest.dropWhile isContinuation) := by
  have hentry : ∀ e : QuestionEntry, parseBlocks tables (.entry e) rest =
      .entry { e with continuation := e.continuation ++ rest.takeWhile isContinuation } ::
        parseBlocks tables .none (rest.dropWhile isContinuation) := by
    intro e
    induction rest generalizing e with
    | nil => simp [parseBlocks, Pending.close]
    | cons other rest ih =>
        cases hother : isContinuation other with
        | true =>
            have hjoin : Pending.join (.entry e) other =
                some (.entry { e with continuation := e.continuation ++ [other] }) := if_pos hother
            rw [parseBlocks, hjoin, List.takeWhile_cons_of_pos hother,
              List.dropWhile_cons_of_pos hother]
            simp [ih]
        | false =>
            have hnot : ¬ isContinuation other = true := by simp [hother]
            have hjoin : Pending.join (.entry e) other = Option.none := if_neg hnot
            rw [parseBlocks_of_join_none tables hjoin, List.takeWhile_cons_of_neg hnot,
              List.dropWhile_cons_of_neg hnot, List.append_nil]
            rfl
  have hfresh : parseBlocks tables .none (line :: rest) = parseBlocks tables (.entry e) rest := by
    obtain ⟨more, rfl⟩ := List.isPrefixOf_iff_prefix.mp hitem
    rw [parseBlocks]
    simp only [Pending.join, hhead]
    rfl
  rw [hfresh, hentry]

/-! ## The header -/

/-- The header is read from the lines above an entry line. -/
theorem parseHeader_append {line : Text} (h : isItemLine line = true) (front back : List Text) :
    parseHeader (front ++ line :: back) =
      ((parseHeader front).1, (parseHeader front).2 ++ line :: back) := by
  induction front with
  | nil =>
      obtain ⟨more, rfl⟩ := List.isPrefixOf_iff_prefix.mp h
      have hblank : (strip ("- [".toList ++ more)).isEmpty = false := by
        rw [List.isEmpty_eq_false_iff]
        intro hnil
        exact absurd (Trim.trim_eq_nil_iff.mp hnil '-' List.mem_cons_self) (by decide)
      have hstep : parseHeader (("- [".toList ++ more) :: back) =
          (defaultHeader, ("- [".toList ++ more) :: back) := by
        rw [parseHeader, hblank]
        rfl
      rw [List.nil_append, hstep]
      rfl
  | cons other front ih =>
      rw [List.cons_append, parseHeader, parseHeader]
      split_ifs
      · exact ih
      · rfl
      · rfl

/-- No divider line is taken by the header. -/
theorem any_divider_parseHeader (tables : UnicodeTables) (lines : List Text) :
    (parseHeader lines).2.any (isDividerLine tables) = lines.any (isDividerLine tables) := by
  induction lines with
  | nil => rfl
  | cons line rest ih =>
      rw [parseHeader]
      split_ifs with hblank htitle
      · have hskip : isDividerLine tables line = false := by
          refine isDividerLine_of_not_opensBlock tables ?_
          by_contra hopens
          rw [Bool.not_eq_false] at hopens
          simp only [opensBlock, Bool.or_eq_true] at hopens
          have hspace := Trim.trim_eq_nil_iff.mp (List.isEmpty_iff.mp hblank)
          rcases hopens with (hopens | hopens) | hopens
          all_goals
            obtain ⟨more, rfl⟩ := List.isPrefixOf_iff_prefix.mp hopens
            exact absurd (hspace _ List.mem_cons_self) (by decide)
        rw [ih, List.any_cons, hskip, Bool.false_or]
      · obtain ⟨more, rfl⟩ := List.isPrefixOf_iff_prefix.mp htitle
        rfl
      · rfl

/-! ## The insertion -/

/-- The lines of a text above an insertion: up to the first title, or the first line, and the
blank and comment lines below it. -/
def insertsAbove (content : Text) : List Text :=
  let lines := splitLines content
  let start := ((lines.findIdx? ("# ".toList.isPrefixOf ·)).getD 0) + 1
  lines.take start ++ (lines.drop start).takeWhile isSkippedLine

def insertsBelow (content : Text) : List Text :=
  let lines := splitLines content
  let start := ((lines.findIdx? ("# ".toList.isPrefixOf ·)).getD 0) + 1
  (lines.drop start).dropWhile isSkippedLine

theorem insertsAbove_append (content : Text) :
    insertsAbove content ++ insertsBelow content = splitLines content := by
  rw [insertsAbove, insertsBelow, List.append_assoc, List.takeWhile_append_dropWhile,
    List.take_append_drop]

/-- The entry that a question is to become. -/
def askedEntry (n : Nat) (question : Text) : QuestionEntry :=
  ⟨.num n (formatQuestionId n), question, [], none⟩

/-- The text with the question inserted has the entries it had, in their order, and the question
as one more entry above the resolved divider. -/
def PureInsertion (tables : UnicodeTables) (content question : Text) (n : Nat) (inserted : Text) :
    Prop :=
  (∃ before after, (OpenQuestionsFile.parse tables content).entries = before ++ after ∧
      (OpenQuestionsFile.parse tables inserted).entries =
        before ++ askedEntry n question :: after) ∧
    ∃ above below, (OpenQuestionsFile.parse tables inserted).blocks =
        above ++ .entry (askedEntry n question) :: below ∧
      above.any Block.isResolvedDivider = false

/-- The question starts with no space; the first line below the title that is neither blank nor a
comment is not indented; and no divider line stands above it. -/
structure InsertsCleanly (tables : UnicodeTables) (content question : Text) : Prop where
  question : question.dropWhile isSpace = question
  below : ∀ line ∈ (insertsBelow content).head?, isContinuation line = false
  above : (insertsAbove content).any (isDividerLine tables) = false

theorem parseEntryHead_composed {n : Nat} (hpos : 1 ≤ n) (hmax : n ≤ maxQuestionNumber)
    (question : Text) :
    parseEntryHead ("- [".toList ++ formatQuestionId n ++ "] ".toList ++ question) =
      some (askedEntry n (question.dropWhile isSpace)) := by
  have hbracket : ']' ∉ formatQuestionId n := notMem_formatQuestionId (by decide) (by decide) n
  have hhead : ("- [".toList ++ formatQuestionId n ++ "] ".toList ++ question).drop 2 =
      '[' :: (formatQuestionId n ++ ']' :: (' ' :: question)) := by
    simp
  have hplain : resolvedPrefixToken.isPrefixOf (formatQuestionId n) = false := rfl
  rw [parseEntryHead, hhead, bracketed_append hbracket]
  simp only [hplain, Bool.false_eq_true, if_false, questionKey?_format hpos hmax, Option.map_some]
  rfl

/-- The next number is above every number of the file. -/
theorem num_lt_allocate {file : OpenQuestionsFile} {e : QuestionEntry} (he : e ∈ file.entries)
    {m : Nat} (hm : e.num = some m) : m < allocateQuestionNumber file := by
  have hbound : ∀ numbers : List Nat, m ∈ numbers → m ≤ numbers.foldr max 0 := by
    intro numbers hin
    induction numbers with
    | nil => cases hin
    | cons first rest ih =>
        rw [List.foldr_cons]
        rcases List.mem_cons.mp hin with rfl | hin
        · exact Nat.le_max_left _ _
        · exact (ih hin).trans (Nat.le_max_right _ _)
  exact Nat.lt_succ_of_le (hbound _ (List.mem_filterMap.mpr ⟨e, he, hm⟩))

theorem isItemLine_composed (n : Nat) (question : Text) :
    isItemLine ("- [".toList ++ formatQuestionId n ++ "] ".toList ++ question) = true := by
  rw [isItemLine, List.isPrefixOf_iff_prefix]
  exact ⟨formatQuestionId n ++ "] ".toList ++ question, by simp⟩

theorem newline_notMem_composed {n : Nat} {question : Text} (h : '\n' ∉ question) :
    '\n' ∉ "- [".toList ++ formatQuestionId n ++ "] ".toList ++ question := by
  simp only [List.mem_append, not_or]
  exact ⟨⟨⟨by decide, notMem_formatQuestionId (by decide) (by decide) n⟩, by decide⟩, h⟩

section Insertion

variable (tables : UnicodeTables) (content : Text) {question entry : Text} {n : Nat}

theorem splitLines_insertQuestionEntry (hentry : '\n' ∉ entry) :
    splitLines (insertQuestionEntry content entry) =
      insertsAbove content ++ entry :: insertsBelow content := by
  refine splitLines_joinLines (by simp) ?_
  have hlines : ∀ line ∈ insertsAbove content ++ insertsBelow content, '\n' ∉ line := by
    rw [insertsAbove_append]
    exact fun _ hline => LineText.notMem_of_mem_splitOn hline
  obtain ⟨habove, hbelow⟩ := List.forall_mem_append.mp hlines
  exact List.forall_mem_append.mpr ⟨habove, List.forall_mem_cons.mpr ⟨hentry, hbelow⟩⟩

variable (hpos : 1 ≤ n) (hmax : n ≤ maxQuestionNumber) (hline : '\n' ∉ question)

include hpos hmax hline

/-- What is read of a question that was inserted. -/
theorem entries_insertQuestionEntry :
    (OpenQuestionsFile.parse tables (insertQuestionEntry content
        ("- [".toList ++ formatQuestionId n ++ "] ".toList ++ question))).entries =
      scanEntries none (insertsAbove content) ++
        { askedEntry n (question.dropWhile isSpace) with
          continuation := (insertsBelow content).takeWhile isContinuation } ::
          scanEntries none ((insertsBelow content).dropWhile isContinuation) := by
  rw [entries_parse, splitLines_insertQuestionEntry content (newline_notMem_composed hline),
    entries_insert (isItemLine_composed n question) (parseEntryHead_composed hpos hmax question) rfl]

theorem blocks_insertQuestionEntry :
    (OpenQuestionsFile.parse tables (insertQuestionEntry content
        ("- [".toList ++ formatQuestionId n ++ "] ".toList ++ question))).blocks =
      parseBlocks tables .none (parseHeader (insertsAbove content)).2 ++
        .entry { askedEntry n (question.dropWhile isSpace) with
          continuation := (insertsBelow content).takeWhile isContinuation } ::
          parseBlocks tables .none ((insertsBelow content).dropWhile isContinuation) := by
  have hitem := isItemLine_composed n question
  show parseBlocks tables .none (parseHeader (splitLines _)).2 = _
  rw [splitLines_insertQuestionEntry content (newline_notMem_composed hline), parseHeader_append hitem]
  dsimp only
  rw [parseBlocks_append tables (opensBlock_of_isItemLine hitem),
    parseBlocks_item tables hitem (parseEntryHead_composed hpos hmax question)]
  rfl

end Insertion

/-- An append is a pure insertion exactly when the question and the lines around it let it be. -/
theorem pureInsertion_iff {tables : UnicodeTables} {content question entry : Text}
    (hcompose : composeQuestionEntry (allocateQuestionNumber
      (OpenQuestionsFile.parse tables content)) question = some entry) (hline : '\n' ∉ question) :
    PureInsertion tables content question
        (allocateQuestionNumber (OpenQuestionsFile.parse tables content))
        (insertQuestionEntry content entry) ↔
      InsertsCleanly tables content question := by
  generalize hn : allocateQuestionNumber (OpenQuestionsFile.parse tables content) = n at *
  unfold composeQuestionEntry at hcompose
  split_ifs at hcompose with hbounds
  obtain ⟨hpos, hmax⟩ := hbounds
  cases hcompose
  have hentries := entries_insertQuestionEntry tables content hpos hmax hline
  have hblocks := blocks_insertQuestionEntry tables content hpos hmax hline
  have hfresh : ∀ e ∈ (OpenQuestionsFile.parse tables content).entries, e.num ≠ some n := by
    intro e he hnum
    have hlt := num_lt_allocate he hnum
    omega
  constructor
  · rintro ⟨⟨before, after, hold, hnew⟩, above, below, hplaced, hdivider⟩
    rw [hold] at hfresh
    obtain ⟨hbefore, hafter⟩ := List.forall_mem_append.mp hfresh
    have hother : ∀ e : QuestionEntry, e.num = some n →
        e ∈ before ++ askedEntry n question :: after → e = askedEntry n question := by
      intro e hnum hin
      rcases List.mem_append.mp hin with hin | hin
      · exact absurd hnum (hbefore e hin)
      · rcases List.mem_cons.mp hin with hsame | hin
        · exact hsame
        · exact absurd hnum (hafter e hin)
    -- The entry that is read has the new number, so it is the one that was asked.
    have hread := hother _ rfl (by
      rw [← hnew, hentries]
      exact List.mem_append_right _ List.mem_cons_self)
    have hquestion : question.dropWhile isSpace = question := congrArg QuestionEntry.body hread
    have htake : (insertsBelow content).takeWhile isContinuation = [] :=
      congrArg QuestionEntry.continuation hread
    refine ⟨hquestion, fun line hline => ?_, ?_⟩
    · obtain ⟨rest, hrest⟩ : ∃ rest, insertsBelow content = line :: rest :=
        ⟨_, List.eq_cons_of_mem_head? hline⟩
      rw [hrest] at htake
      by_contra hindent
      rw [Bool.not_eq_false] at hindent
      rw [List.takeWhile_cons_of_pos hindent] at htake
      cases htake
    · rw [hread] at hblocks
      have hsplit := hplaced
      rw [hblocks] at hsplit
      -- It is read once, so the blocks above it are those of the lines above it.
      have honce : above.filterMap Block.entry? ++ askedEntry n question ::
          below.filterMap Block.entry? = before ++ askedEntry n question :: after := by
        rw [← hnew, OpenQuestionsFile.entries, hplaced, List.filterMap_append]
        rfl
      have hnotBefore : askedEntry n question ∉ before := fun hin => hbefore _ hin rfl
      have hnotAfter : askedEntry n question ∉ after := fun hin => hafter _ hin rfl
      obtain ⟨habove, -, hbelow⟩ :=
        (List.append_cons_inj_of_notMem hnotBefore hnotAfter).mp honce.symm
      have hnotAbove : Block.entry (askedEntry n question) ∉ above := fun hin =>
        hnotBefore (habove ▸ List.mem_filterMap.mpr ⟨_, hin, rfl⟩)
      have hnotBelow : Block.entry (askedEntry n question) ∉ below := fun hin =>
        hnotAfter (hbelow ▸ List.mem_filterMap.mpr ⟨_, hin, rfl⟩)
      obtain ⟨hsame, -, -⟩ :=
        (List.append_cons_inj_of_notMem hnotAbove hnotBelow).mp hsplit.symm
      rw [hsame, any_divider_parseBlocks, any_divider_parseHeader] at hdivider
      exact hdivider
  · rintro ⟨hquestion, hbelow, habove⟩
    have htake : (insertsBelow content).takeWhile isContinuation = [] := by
      cases hlines : insertsBelow content with
      | nil => rfl
      | cons line rest =>
          have hfirst := hbelow line (by rw [hlines]; rfl)
          rw [List.takeWhile_cons_of_neg (by simp [hfirst])]
    have hdrop : (insertsBelow content).dropWhile isContinuation = insertsBelow content := by
      have hsplit := List.takeWhile_append_dropWhile (p := isContinuation) (l := insertsBelow content)
      rwa [htake, List.nil_append] at hsplit
    rw [htake, hdrop, hquestion] at hentries hblocks
    refine ⟨⟨_, _, ?_, hentries⟩, _, _, hblocks, ?_⟩
    · rw [entries_parse, ← insertsAbove_append, scanEntries_append none _ hbelow]
    · rw [any_divider_parseBlocks, any_divider_parseHeader, habove]

def titledQuestions : Text := "# Open Questions\n\n- [Q1] First?\n  more about it\n".toList

theorem pureInsertion_titled :
    PureInsertion .ascii titledQuestions "Second?".toList 2
      (insertQuestionEntry titledQuestions "- [Q2] Second?".toList) :=
  (pureInsertion_iff (by decide) (by decide)).mpr ⟨by decide, by decide, by decide⟩

def untitledQuestions : Text := "- [Q1] First?\n  more about it\n".toList

/-- Without a title, the new entry takes the lines of the first one. -/
theorem append_splits_entry :
    composeQuestionEntry (allocateQuestionNumber (OpenQuestionsFile.parse .ascii
        untitledQuestions)) "Second?".toList = some "- [Q2] Second?".toList ∧
      ¬ PureInsertion .ascii untitledQuestions "Second?".toList 2
        (insertQuestionEntry untitledQuestions "- [Q2] Second?".toList) := by
  refine ⟨by decide, ?_⟩
  rintro ⟨⟨before, after, -, hnew⟩, -⟩
  have hin : askedEntry 2 "Second?".toList ∈ before ++ askedEntry 2 "Second?".toList :: after :=
    List.mem_append_right _ List.mem_cons_self
  rw [← hnew] at hin
  exact absurd hin (by decide)

end Questions
end Core
end Nauro
