import Nauro.Core.Questions
import Nauro.Foundation.LineText

/-!
# Question ids line by line

Which ids a questions file uses can be read off its lines one at a time, whatever blocks they
fall into. A rendered entry is read back as the entry it renders, so a file that is parsed,
changed block by block and formatted uses the ids of its blocks.
-/

namespace Nauro
namespace Core
namespace Questions

open Foundation

/-! ## The ids of lines and blocks -/

/-- An id as a line uses it: the key of an entry, or the id embedded in a `### ` heading. -/
inductive LineId where
  | entry (key : QuestionKey)
  | heading (embeddedId : Text)
deriving DecidableEq

/-- The id that a line brings into a file. -/
def lineId? (line : Text) : Option LineId :=
  if isItemLine line then (parseEntryHead line).map fun e => .entry e.key
  else if isTopicLine line then (extractEmbeddedId line.length line).map .heading
  else none

/-- The ids that a text brings in, in the order of its lines. -/
def lineIds (text : Text) : List LineId :=
  (splitLines text).filterMap lineId?

def Block.id? : Block → Option LineId
  | .entry e => some (.entry e.key)
  | .tripleHash _ embeddedId => embeddedId.map .heading
  | _ => none

/-- The ids that a file uses, in file order. -/
def OpenQuestionsFile.ids (file : OpenQuestionsFile) : List LineId :=
  file.blocks.filterMap Block.id?

theorem filterMap_entry_cons (e : QuestionEntry) (rest : List Block) :
    (Block.entry e :: rest).filterMap Block.id? = .entry e.key :: rest.filterMap Block.id? :=
  rfl

/-! ## Lines that bring in no id -/

theorem lineId?_of_not_opensBlock {line : Text} (h : opensBlock line = false) :
    lineId? line = none := by
  simp only [opensBlock, Bool.or_eq_false_iff] at h
  simp [lineId?, h]

theorem lineId?_of_indented {line : Text} (h : "  ".toList.isPrefixOf line = true) :
    lineId? line = none := by
  apply lineId?_of_not_opensBlock
  obtain ⟨rest, rfl⟩ := List.isPrefixOf_iff_prefix.mp h
  rfl

theorem lineId?_of_blank {line : Text} (h : (strip line).isEmpty = true) :
    lineId? line = none := by
  have hspace : ∀ c ∈ line, isSpace c = true :=
    Trim.trim_eq_nil_iff.mp (List.isEmpty_iff.mp h)
  apply lineId?_of_not_opensBlock
  cases line with
  | nil => rfl
  | cons c rest =>
      have hc := hspace c (List.mem_cons_self ..)
      have hhash : c ≠ '#' := by
        rintro rfl
        exact absurd hc (by decide)
      have hdash : c ≠ '-' := by
        rintro rfl
        exact absurd hc (by decide)
      simp [opensBlock, isSectionLine, isTopicLine, isItemLine, List.isPrefixOf, hhash.symm,
        hdash.symm]

theorem lineId?_of_title {line : Text} (h : "# ".toList.isPrefixOf line = true) :
    lineId? line = none := by
  apply lineId?_of_not_opensBlock
  obtain ⟨rest, rfl⟩ := List.isPrefixOf_iff_prefix.mp h
  rfl

theorem not_isItemLine_of_section {line : Text} (h : isSectionLine line = true) :
    isItemLine line = false ∧ isTopicLine line = false := by
  obtain ⟨rest, rfl⟩ := List.isPrefixOf_iff_prefix.mp h
  exact ⟨rfl, rfl⟩

theorem not_isItemLine_of_topic {line : Text} (h : isTopicLine line = true) :
    isItemLine line = false := by
  obtain ⟨rest, rfl⟩ := List.isPrefixOf_iff_prefix.mp h
  rfl

theorem lineId?_of_section {line : Text} (h : isSectionLine line = true) : lineId? line = none := by
  obtain ⟨hitem, htopic⟩ := not_isItemLine_of_section h
  simp [lineId?, hitem, htopic]

/-- A header line that loses its trailing space brings in no id either. -/
theorem lineId?_rstrip_of_hash {line : Text} (h : "#".toList.isPrefixOf line = true)
    (htopic : isTopicLine line = false) : lineId? (rstrip line) = none := by
  have hleading : rstrip line <+: line := List.rdropWhile_prefix _ _
  obtain ⟨rest, rfl⟩ := List.isPrefixOf_iff_prefix.mp h
  have hitem : isItemLine (rstrip ("#".toList ++ rest)) = false := by
    cases hstrip : rstrip ("#".toList ++ rest) with
    | nil => rfl
    | cons c more =>
        rw [hstrip] at hleading
        obtain ⟨after, hafter⟩ := hleading
        rw [← (List.cons.inj hafter).1.symm]
        rfl
  have htopic' : isTopicLine (rstrip ("#".toList ++ rest)) = false := by
    rw [Bool.eq_false_iff]
    intro hin
    have hlong := (List.isPrefixOf_iff_prefix.mp hin).trans hleading
    rw [isTopicLine, List.isPrefixOf_iff_prefix.mpr hlong] at htopic
    cases htopic
  rw [lineId?, hitem, htopic']
  rfl

/-! ## The ids of a parsed file -/

/-- The ids of the block that is still open. -/
def Pending.ids (pending : Pending) : List LineId :=
  pending.close.filterMap Block.id?

/-- A line that joins the pending block brings in no id and leaves the block's own. -/
theorem Pending.join_ids {pending joined : Pending} {line : Text}
    (h : pending.join line = some joined) :
    lineId? line = Option.none ∧ joined.ids = pending.ids := by
  cases pending with
  | none => cases h
  | prose lines =>
      simp only [Pending.join, Option.ite_none_left_eq_some, Bool.not_eq_true] at h
      obtain ⟨hopens, hjoined⟩ := h
      cases hjoined
      exact ⟨lineId?_of_not_opensBlock hopens, rfl⟩
  | entry e =>
      simp only [Pending.join, Option.ite_none_right_eq_some] at h
      obtain ⟨hindent, hjoined⟩ := h
      cases hjoined
      exact ⟨lineId?_of_indented hindent, rfl⟩
  | topic lines embeddedId =>
      simp only [Pending.join, Option.ite_none_left_eq_some, Bool.or_eq_true, not_or,
        Bool.not_eq_true] at h
      obtain ⟨⟨-, hopens⟩, hjoined⟩ := h
      cases hjoined
      exact ⟨lineId?_of_not_opensBlock hopens, rfl⟩

theorem ids_parseBlocks (tables : UnicodeTables) (pending : Pending) (lines : List Text) :
    (parseBlocks tables pending lines).filterMap Block.id? =
      pending.ids ++ lines.filterMap lineId? := by
  induction lines generalizing pending with
  | nil => simp [parseBlocks, Pending.ids]
  | cons line rest ih =>
      rw [parseBlocks]
      split
      · next joined hjoin =>
          obtain ⟨hline, hids⟩ := Pending.join_ids hjoin
          rw [ih, hids, List.filterMap_cons_none hline]
      · split_ifs with hsection htopic hitem
        · rw [List.filterMap_append, List.filterMap_cons_none rfl, ih,
            List.filterMap_cons_none (lineId?_of_section hsection)]
          rfl
        · have hline : lineId? line = (extractEmbeddedId line.length line).map .heading := by
            simp [lineId?, not_isItemLine_of_topic htopic, htopic]
          rw [List.filterMap_append, ih]
          cases hid : extractEmbeddedId line.length line with
          | none =>
              rw [hid] at hline
              rw [List.filterMap_cons_none hline]
              rfl
          | some id =>
              rw [hid] at hline
              rw [List.filterMap_cons_some hline]
              rfl
        · have hline : lineId? line = (parseEntryHead line).map fun e => .entry e.key := by
            simp [lineId?, hitem]
          split
          · next hnone =>
              rw [hnone] at hline
              rw [List.filterMap_append, List.filterMap_cons_none rfl, ih,
                List.filterMap_cons_none hline]
              rfl
          · next e hsome =>
              rw [hsome] at hline
              rw [List.filterMap_append, ih, List.filterMap_cons_some hline]
              rfl
        · have hline : lineId? line = none :=
            lineId?_of_not_opensBlock (by simp [opensBlock, hsection, htopic, hitem])
          rw [List.filterMap_append, ih, List.filterMap_cons_none hline]
          rfl

/-- The lines that the file header takes bring in no id. -/
theorem ids_parseHeader (lines : List Text) :
    (parseHeader lines).2.filterMap lineId? = lines.filterMap lineId? := by
  induction lines with
  | nil => rfl
  | cons line rest ih =>
      rw [parseHeader]
      split_ifs with hblank htitle
      · rw [ih, List.filterMap_cons_none (lineId?_of_blank hblank)]
      · rw [List.filterMap_cons_none (lineId?_of_title htitle)]
      · rfl

/-- The ids of a parsed file are those of its lines. -/
theorem ids_parse (tables : UnicodeTables) (content : Text) :
    (OpenQuestionsFile.parse tables content).ids = lineIds content := by
  change (parseBlocks tables .none _).filterMap Block.id? = _
  rw [ids_parseBlocks, ids_parseHeader]
  rfl

/-! ## Numbers and dates that read back -/

/-- A text splits at the first separator, when the separator's first character is new. -/
theorem splitAtText_append {c : Char} {sep front : Text} (hfront : c ∉ front) (back : Text) :
    splitAtText (c :: sep) (front ++ (c :: sep ++ back)) = some (front, back) := by
  unfold splitAtText
  induction front with
  | nil =>
      have hstart : (c :: sep).isPrefixOf (c :: (sep ++ back)) = true :=
        List.isPrefixOf_iff_prefix.mpr ⟨back, by simp⟩
      simp only [List.nil_append, List.cons_append, partitionAt?]
      rw [if_pos hstart]
      simp
  | cons d front ih =>
      obtain ⟨hd, hrest⟩ := not_or.mp (fun h => hfront (List.mem_cons.mpr h))
      have hstep : ¬ (c :: sep).isPrefixOf (d :: (front ++ (c :: sep ++ back))) = true := by
        simp [List.isPrefixOf, hd]
      rw [List.cons_append, partitionAt?, if_neg hstep, ih hrest]
      rfl

theorem splitAtText_some {c : Char} {text front back : Text}
    (h : splitAtText [c] text = some (front, back)) :
    c ∉ front ∧ text = front ++ c :: back := by
  unfold splitAtText at h
  induction text generalizing front with
  | nil => simp [partitionAt?] at h
  | cons d rest ih =>
      rw [partitionAt?] at h
      split_ifs at h with hstart
      · cases h
        have hd : c = d := by simpa [List.isPrefixOf] using hstart
        subst hd
        exact ⟨List.not_mem_nil, rfl⟩
      · obtain ⟨⟨front', back'⟩, hrest, hpair⟩ := Option.map_eq_some_iff.mp h
        cases hpair
        have hd : c ≠ d := by
          rintro rfl
          exact hstart (by simp [List.isPrefixOf])
        obtain ⟨hnot, htext⟩ := ih hrest
        refine ⟨?_, by rw [htext, List.cons_append]⟩
        rw [List.mem_cons, not_or]
        exact ⟨hd, hnot⟩

theorem parseIsoDate_isoformat (date : Date) : parseIsoDate date.isoformat = some date := by
  have hvalid := date.valid
  simp only [isCalendarDate, Bool.and_eq_true, decide_eq_true_eq] at hvalid
  obtain ⟨⟨⟨⟨⟨-, hyear⟩, -⟩, hmonth⟩, -⟩, hday⟩ := hvalid
  have hmax : daysInMonth date.year date.month ≤ 31 := by
    unfold daysInMonth
    split_ifs <;> omega
  have hyears : (padNumber 4 date.year).length = 4 := length_padNumber (by decide) (by omega)
  have hmonths : (padNumber 2 date.month).length = 2 := length_padNumber (by decide) (by omega)
  have hdays : (padNumber 2 date.day).length = 2 := length_padNumber (by decide) (by omega)
  have hshape : date.isoformat =
      padNumber 4 date.year ++ '-' :: (padNumber 2 date.month ++ '-' :: padNumber 2 date.day) := by
    simp [Date.isoformat]
  have hdrop4 : date.isoformat.drop 4 =
      '-' :: (padNumber 2 date.month ++ '-' :: padNumber 2 date.day) := by
    rw [hshape, List.drop_left' hyears]
  have hdrop5 : date.isoformat.drop 5 =
      padNumber 2 date.month ++ '-' :: padNumber 2 date.day := by
    rw [show 5 = 4 + 1 from rfl, ← List.drop_drop, hdrop4]
    rfl
  have hdrop7 : date.isoformat.drop 7 = '-' :: padNumber 2 date.day := by
    rw [show 7 = 5 + 2 from rfl, ← List.drop_drop, hdrop5, List.drop_left' hmonths]
  have hdrop8 : date.isoformat.drop 8 = padNumber 2 date.day := by
    rw [show 8 = 7 + 1 from rfl, ← List.drop_drop, hdrop7]
    rfl
  have htake4 : (date.isoformat.drop 0).take 4 = padNumber 4 date.year := by
    rw [List.drop_zero, hshape, List.take_left' hyears]
  have htake5 : (date.isoformat.drop 5).take 2 = padNumber 2 date.month := by
    rw [hdrop5, List.take_left' hmonths]
  have htake8 : (date.isoformat.drop 8).take 2 = padNumber 2 date.day := by
    rw [hdrop8, List.take_of_length_le (le_of_eq hdays)]
  have hlength : date.isoformat.length = 10 := by
    rw [hshape]
    simp [hyears, hmonths, hdays]
  rw [parseIsoDate, if_pos ⟨hlength, by rw [hdrop4]; rfl, by rw [hdrop7]; rfl⟩]
  simp only [sliceNumber?, htake4, htake5, htake8, number?_padNumber]
  rw [dif_pos date.valid]

/-- The characters of a printed date are digits and dashes. -/
theorem mem_isoformat {date : Date} {c : Char} (h : c ∈ date.isoformat) :
    c.isDigit = true ∨ c = '-' := by
  simp only [Date.isoformat, List.mem_append, List.mem_singleton] at h
  rcases h with (((h | h) | h) | h) | h
  · exact Or.inl (isDigit_of_mem_padNumber h)
  · exact Or.inr h
  · exact Or.inl (isDigit_of_mem_padNumber h)
  · exact Or.inr h
  · exact Or.inl (isDigit_of_mem_padNumber h)

theorem isSpace_of_isDigit {c : Char} (hc : c.isDigit = true) : isSpace c = false := by
  have hnat : 48 ≤ c.toNat ∧ c.toNat ≤ 57 := by
    simpa [Char.isDigit, UInt32.le_iff_toNat_le] using hc
  simp only [isSpace, Bool.or_eq_false_iff, Bool.and_eq_false_iff, decide_eq_false_iff_not,
    beq_eq_false_iff_ne]
  omega

theorem strip_isoformat (date : Date) : strip date.isoformat = date.isoformat := by
  have hspace : ∀ c ∈ date.isoformat, isSpace c = false := by
    intro c hc
    rcases mem_isoformat hc with hdigit | rfl
    · exact isSpace_of_isDigit hdigit
    · decide
  apply Trim.trim_eq_self
  exact ⟨fun c hc => hspace c (List.mem_of_mem_head? hc),
    fun c hc => hspace c (List.mem_of_mem_getLast? hc)⟩

theorem notMem_toDigits {c : Char} (hc : c.isDigit = false) (n : Nat) : c ∉ Nat.toDigits 10 n := by
  intro hin
  rw [Nat.isDigit_of_mem_toDigits (by decide) (by decide) hin] at hc
  cases hc

/-! ## Entries whose head line reads back -/

/-- The text inside the bracket that a resolution adds. -/
def ResolvedRef.inside (ref : ResolvedRef) : Text :=
  resolvedPrefixToken ++ (Nat.toDigits 10 ref.decisionNum ++
    (resolvedPrefixSep ++ ref.date.isoformat))

theorem parseResolvedPrefix_inside (ref : ResolvedRef) :
    parseResolvedPrefix ref.inside = some ref := by
  have hleading : resolvedPrefixToken.isPrefixOf ref.inside = true :=
    List.isPrefixOf_iff_prefix.mpr (List.prefix_append _ _)
  have hsplit : splitAtText resolvedPrefixSep (ref.inside.drop resolvedPrefixToken.length) =
      some (Nat.toDigits 10 ref.decisionNum, ref.date.isoformat) := by
    rw [ResolvedRef.inside, List.drop_left]
    exact splitAtText_append (notMem_toDigits (by decide) _) _
  rw [parseResolvedPrefix, if_pos hleading, hsplit]
  simp only [number?_toDigits, strip_isoformat, parseIsoDate_isoformat]
  rw [dif_pos ref.positive]

theorem notMem_inside {c : Char} (hdigit : c.isDigit = false) (htoken : c ∉ resolvedPrefixToken)
    (hsep : c ∉ resolvedPrefixSep) (hdash : c ≠ '-') (ref : ResolvedRef) : c ∉ ref.inside := by
  intro hin
  simp only [ResolvedRef.inside, List.mem_append] at hin
  rcases hin with hin | hin | hin | hin
  · exact htoken hin
  · exact notMem_toDigits hdigit _ hin
  · exact hsep hin
  · rcases mem_isoformat hin with h | h
    · rw [hdigit] at h
      cases h
    · exact hdash h

/-- The characters that end a line. -/
def IsLineEnd (c : Char) : Prop :=
  c = '\n' ∨ c = '\r'

theorem IsLineEnd.notMem {c : Char} (hc : IsLineEnd c) {text : Text}
    (h : '\n' ∉ text ∧ '\r' ∉ text) : c ∉ text := by
  rcases hc with rfl | rfl
  · exact h.1
  · exact h.2

theorem IsLineEnd.notMem_inside {c : Char} (hc : IsLineEnd c) (ref : ResolvedRef) :
    c ∉ ref.inside :=
  hc.notMem ⟨Questions.notMem_inside (by decide) (by decide) (by decide) (by decide) ref,
    Questions.notMem_inside (by decide) (by decide) (by decide) (by decide) ref⟩

/-- An entry whose lines are read back as the entry, none of them holding a `c`. -/
structure QuestionEntry.Reads (c : Char) (e : QuestionEntry) : Prop where
  key : questionKey? e.renderId = some e.key
  bracket : ']' ∉ e.renderId
  body : e.body.dropWhile isSpace = e.body
  indented : ∀ line ∈ e.continuation, "  ".toList.isPrefixOf line = true
  free : c ∉ e.renderId ∧ c ∉ e.body ∧ ∀ line ∈ e.continuation, c ∉ line

/-- No id starts like the bracket of a resolution. -/
theorem questionKey?_resolvedPrefix {text : Text} (h : resolvedPrefixToken.isPrefixOf text = true) :
    questionKey? text = none := by
  obtain ⟨rest, rfl⟩ := List.isPrefixOf_iff_prefix.mp h
  have hlegacy : isLegacyQuestionId (resolvedPrefixToken ++ rest) = false := by
    have hfour : (resolvedPrefixToken ++ rest).drop 4 = "lved by D".toList ++ rest := rfl
    simp [isLegacyQuestionId, hfour]
  rw [questionKey?, hlegacy]
  rfl

/-- A bracket at the start of a text, and what follows it. -/
theorem bracketed_append {inside : Text} (h : ']' ∉ inside) (after : Text) :
    bracketed ('[' :: (inside ++ ']' :: after)) = some (inside, after.dropWhile isSpace) := by
  have hsplit : splitAtText [']'] (inside ++ ']' :: after) = some (inside, after) :=
    splitAtText_append h after
  rw [bracketed, hsplit]
  rfl

/-- The head line of an entry is read back. -/
theorem parseEntryHead_head {c : Char} {e : QuestionEntry} (h : e.Reads c) :
    parseEntryHead e.head = some { e with continuation := [] } := by
  have hdrop : (' ' :: e.body).dropWhile isSpace = e.body := by
    rw [List.dropWhile_cons_of_pos (by decide), h.body]
  have hplain : resolvedPrefixToken.isPrefixOf e.renderId = false := by
    rw [Bool.eq_false_iff]
    intro hleading
    have hkey := h.key
    rw [questionKey?_resolvedPrefix hleading] at hkey
    cases hkey
  cases href : e.resolvedBy with
  | none =>
      have hhead : e.head.drop 2 = '[' :: (e.renderId ++ ']' :: (' ' :: e.body)) := by
        simp [QuestionEntry.head, href]
      rw [parseEntryHead, hhead, bracketed_append h.bracket, hdrop]
      simp only [hplain, Bool.false_eq_true, if_false, h.key, Option.map_some]
  | some ref =>
      have hhead : e.head.drop 2 =
          '[' :: (ref.inside ++ ']' :: (" [".toList ++ (e.renderId ++ ']' :: (' ' :: e.body)))) := by
        simp [QuestionEntry.head, href, ResolvedRef.inside]
      have hinside : ']' ∉ ref.inside := notMem_inside (by decide) (by decide) (by decide) (by decide) ref
      have hleading : resolvedPrefixToken.isPrefixOf ref.inside = true :=
        List.isPrefixOf_iff_prefix.mpr (List.prefix_append _ _)
      have hafter : (" [".toList ++ (e.renderId ++ ']' :: (' ' :: e.body))).dropWhile isSpace =
          '[' :: (e.renderId ++ ']' :: (' ' :: e.body)) := by
        rfl
      rw [parseEntryHead, hhead, bracketed_append hinside, hafter]
      simp only [ hleading, if_true, parseResolvedPrefix_inside, bracketed_append h.bracket, hdrop,
        h.key, Option.map_some]

/-- What a leading bracket consists of. -/
theorem bracketed_some {text inside after : Text} (h : bracketed text = some (inside, after)) :
    ']' ∉ inside ∧ ∃ rest, text = '[' :: (inside ++ ']' :: rest) ∧
      after = rest.dropWhile isSpace := by
  unfold bracketed at h
  split at h
  · next rest =>
      obtain ⟨⟨front, back⟩, hsplit, hpair⟩ := Option.map_eq_some_iff.mp h
      cases hpair
      obtain ⟨hnot, htext⟩ := splitAtText_some hsplit
      exact ⟨hnot, back, by rw [htext], rfl⟩
  · cases h

theorem questionKey?_source {text : Text} {key : QuestionKey} (h : questionKey? text = some key)
    {body : Text} {continuation : List Text} {resolvedBy : Option ResolvedRef} :
    (QuestionEntry.mk key body continuation resolvedBy).renderId = text := by
  unfold questionKey? at h
  split at h
  · cases h
    rfl
  · split_ifs at h
    cases h
    rfl

/-- The entry that a head line opens, read off a bracketed id and a body. -/
theorem reads_of_bracketed {text idText body : Text} {key : QuestionKey}
    {resolvedBy : Option ResolvedRef} (hbracket : bracketed text = some (idText, body))
    (hkey : questionKey? idText = some key) {c : Char} (hline : c ∉ text) :
    (QuestionEntry.mk key body [] resolvedBy).Reads c := by
  obtain ⟨hnot, rest, rfl, rfl⟩ := bracketed_some hbracket
  have hrender : (QuestionEntry.mk key (rest.dropWhile isSpace) [] resolvedBy).renderId = idText :=
    questionKey?_source hkey
  have hid : c ∉ idText := fun hin =>
    hline (List.mem_cons_of_mem _ (List.mem_append_left _ hin))
  have hbody : c ∉ rest.dropWhile isSpace := fun hin =>
    hline (List.mem_cons_of_mem _ (List.mem_append_right _ (List.mem_cons_of_mem _
      ((List.dropWhile_sublist _).subset hin))))
  refine ⟨?_, ?_, List.dropWhile_idempotent _ _, by simp, ?_, hbody, by simp⟩
  · rw [hrender]
    exact hkey
  · rw [hrender]
    exact hnot
  · rw [hrender]
    exact hid

/-- The entry that a line opens is read back. -/
theorem parseEntryHead_reads {line : Text} {e : QuestionEntry} (h : parseEntryHead line = some e)
    {c : Char} (hline : c ∉ line) : e.Reads c := by
  have hdrop : c ∉ line.drop 2 := fun hin => hline (List.mem_of_mem_drop hin)
  unfold parseEntryHead at h
  split at h
  · cases h
  · next firstInside afterFirst hfirst =>
      split_ifs at h
      · split at h
        · next ref idText body hleading hsecond =>
            obtain ⟨key, hkey, rfl⟩ := Option.map_eq_some_iff.mp h
            obtain ⟨-, rest, htext, rfl⟩ := bracketed_some hfirst
            apply reads_of_bracketed hsecond hkey
            intro hin
            apply hdrop
            rw [htext]
            exact List.mem_cons_of_mem _ (List.mem_append_right _ (List.mem_cons_of_mem _
              ((List.dropWhile_sublist _).subset hin)))
        · cases h
      · obtain ⟨key, hkey, rfl⟩ := Option.map_eq_some_iff.mp h
        exact reads_of_bracketed hfirst hkey hdrop

theorem QuestionEntry.Reads.continue {c : Char} {e : QuestionEntry} (h : e.Reads c) {line : Text}
    (hindent : "  ".toList.isPrefixOf line = true) (hline : c ∉ line) :
    ({ e with continuation := e.continuation ++ [line] } : QuestionEntry).Reads c where
  key := h.key
  bracket := h.bracket
  body := h.body
  indented := by
    intro other hother
    rcases List.mem_append.mp hother with hin | hin
    · exact h.indented other hin
    · rw [List.mem_singleton.mp hin]
      exact hindent
  free := by
    obtain ⟨hid, hbody, hlines⟩ := h.free
    refine ⟨hid, hbody, ?_⟩
    intro other hother
    rcases List.mem_append.mp hother with hin | hin
    · exact hlines other hin
    · rw [List.mem_singleton.mp hin]
      exact hline

theorem QuestionEntry.Reads.stamp {c : Char} {e : QuestionEntry} (h : e.Reads c)
    (ref : ResolvedRef) : ({ e with resolvedBy := some ref } : QuestionEntry).Reads c :=
  ⟨h.key, h.bracket, h.body, h.indented, h.free⟩

theorem QuestionEntry.Reads.head_free {c : Char} (hc : IsLineEnd c) {e : QuestionEntry}
    (h : e.Reads c) : c ∉ e.head := by
  obtain ⟨hid, hbody, -⟩ := h.free
  intro hin
  cases href : e.resolvedBy with
  | none =>
      simp only [QuestionEntry.head, href, List.mem_append] at hin
      rcases hin with ((hin | hin) | hin) | hin
      · exact hc.notMem (by decide) hin
      · exact hid hin
      · exact hc.notMem (by decide) hin
      · exact hbody hin
  | some ref =>
      have hshape : e.head = "- [".toList ++ (ref.inside ++ ("] [".toList ++ (e.renderId ++
          ("] ".toList ++ e.body)))) := by
        simp [QuestionEntry.head, href, ResolvedRef.inside]
      simp only [hshape, List.mem_append] at hin
      rcases hin with hin | hin | hin | hin | hin | hin
      · exact hc.notMem (by decide) hin
      · exact hc.notMem_inside ref hin
      · exact hc.notMem (by decide) hin
      · exact hid hin
      · exact hc.notMem (by decide) hin
      · exact hbody hin

theorem isItemLine_head (e : QuestionEntry) : isItemLine e.head = true := by
  cases href : e.resolvedBy with
  | none => simp [isItemLine, QuestionEntry.head, href, List.isPrefixOf]
  | some ref => simp [isItemLine, QuestionEntry.head, href, List.isPrefixOf]

/-! ## Settled blocks -/

/-- The lines of a block bring in the id of the block and no other, and hold no `c`. -/
structure Block.Settled (c : Char) (b : Block) : Prop where
  free : ∀ line ∈ b.renderLines, c ∉ line
  ids : b.renderLines.filterMap lineId? = b.id?.toList
  reads : ∀ e ∈ b.entry?, e.Reads c

variable {c : Char}

theorem settled_entry (hc : IsLineEnd c) {e : QuestionEntry} (h : e.Reads c) :
    (Block.entry e).Settled c where
  free := by
    intro line hline
    rcases List.mem_cons.mp hline with rfl | hrest
    · exact h.head_free hc
    · exact h.free.2.2 line hrest
  ids := by
    have hhead : lineId? e.head = some (.entry e.key) := by
      rw [lineId?, if_pos (isItemLine_head e), parseEntryHead_head h]
      rfl
    have hrest : e.continuation.filterMap lineId? = [] :=
      List.filterMap_eq_nil_iff.mpr fun line hline => lineId?_of_indented (h.indented line hline)
    change (e.head :: e.continuation).filterMap lineId? = [.entry e.key]
    rw [List.filterMap_cons_some hhead, hrest]
  reads := by
    intro other hother
    rw [← Option.some.inj hother]
    exact h

/-- Lines that open no block. -/
theorem settled_prose {lines : List Text} (hopens : ∀ line ∈ lines, opensBlock line = false)
    (hfree : ∀ line ∈ lines, c ∉ line) : (Block.prose lines).Settled c :=
  ⟨hfree, List.filterMap_eq_nil_iff.mpr fun line hline =>
    lineId?_of_not_opensBlock (hopens line hline), by simp [ Block.entry?]⟩

theorem settled_blank : (Block.prose [[]]).Settled c :=
  settled_prose (by simp [opensBlock, isSectionLine, isTopicLine, isItemLine]) (by simp)

theorem settled_resolvedHeader (hc : IsLineEnd c) :
    (Block.header resolvedHeader true).Settled c where
  free := by
    intro line hline
    rw [List.mem_singleton.mp hline]
    exact hc.notMem (by decide)
  ids := rfl
  reads := by simp [ Block.entry?]

/-- The block still open is settled; the lines that may join it are known not to open one. -/
inductive Pending.Settled (c : Char) : Pending → Prop
  | none : Pending.Settled c .none
  | prose {lines : List Text} (hopens : ∀ line ∈ lines, opensBlock line = false)
      (hfree : ∀ line ∈ lines, c ∉ line) : Pending.Settled c (.prose lines)
  | entry {e : QuestionEntry} (h : e.Reads c) : Pending.Settled c (.entry e)
  | topic {lines : List Text} {embeddedId : Option Text}
      (h : (Block.tripleHash lines embeddedId).Settled c) :
      Pending.Settled c (.topic lines embeddedId)

theorem Pending.Settled.close (hc : IsLineEnd c) {pending : Pending} (h : pending.Settled c) :
    ∀ b ∈ pending.close, b.Settled c := by
  intro b hb
  cases h with
  | none => cases hb
  | prose hopens hfree =>
      rw [List.mem_singleton.mp hb]
      exact settled_prose hopens hfree
  | entry h =>
      rw [List.mem_singleton.mp hb]
      exact settled_entry hc h
  | topic h =>
      rw [List.mem_singleton.mp hb]
      exact h

theorem Pending.Settled.join {pending joined : Pending} (h : pending.Settled c) {line : Text}
    (hline : c ∉ line) (hjoin : pending.join line = some joined) : joined.Settled c := by
  cases h with
  | none => cases hjoin
  | prose hopens hfree =>
      simp only [Pending.join, Option.ite_none_left_eq_some, Bool.not_eq_true] at hjoin
      obtain ⟨hnot, hjoined⟩ := hjoin
      cases hjoined
      refine .prose ?_ ?_
      · exact List.forall_mem_append.mpr ⟨hopens, by simpa using hnot⟩
      · exact List.forall_mem_append.mpr ⟨hfree, by simpa using hline⟩
  | entry h =>
      simp only [Pending.join, Option.ite_none_right_eq_some] at hjoin
      obtain ⟨hindent, hjoined⟩ := hjoin
      cases hjoined
      exact .entry (h.continue hindent hline)
  | topic h =>
      simp only [Pending.join, Option.ite_none_left_eq_some, Bool.or_eq_true, not_or,
        Bool.not_eq_true] at hjoin
      obtain ⟨⟨-, hnot⟩, hjoined⟩ := hjoin
      cases hjoined
      refine .topic ⟨?_, ?_, by simp [ Block.entry?]⟩
      · exact List.forall_mem_append.mpr ⟨h.free, by simpa using hline⟩
      · have hids := h.ids
        simp only [Block.renderLines, Block.id?] at hids ⊢
        rw [List.filterMap_append, hids, List.filterMap_cons_none (lineId?_of_not_opensBlock hnot),
          List.filterMap_nil, List.append_nil]

theorem parseBlocks_settled (tables : UnicodeTables) (hc : IsLineEnd c) {pending : Pending}
    (hpending : pending.Settled c) {lines : List Text} (hlines : ∀ line ∈ lines, c ∉ line) :
    ∀ b ∈ parseBlocks tables pending lines, b.Settled c := by
  induction lines generalizing pending with
  | nil => exact hpending.close hc
  | cons line rest ih =>
      obtain ⟨hline, hrest⟩ := List.forall_mem_cons.mp hlines
      rw [parseBlocks]
      split
      · next joined hjoin => exact ih (hpending.join hline hjoin) hrest
      · split_ifs with hsection htopic hitem
        · refine List.forall_mem_append.mpr ⟨(hpending.close hc), ?_⟩
          refine List.forall_mem_cons.mpr ⟨⟨?_, ?_, by simp [ Block.entry?]⟩, ih .none hrest⟩
          · intro other hother
            rw [List.mem_singleton.mp hother]
            exact fun hin => hline ((List.rdropWhile_prefix _ _).subset hin)
          · obtain ⟨-, hnotTopic⟩ := not_isItemLine_of_section hsection
            have hhash : "#".toList.isPrefixOf line = true := by
              obtain ⟨more, rfl⟩ := List.isPrefixOf_iff_prefix.mp hsection
              rfl
            exact List.filterMap_cons_none (lineId?_rstrip_of_hash hhash hnotTopic)
        · refine List.forall_mem_append.mpr ⟨(hpending.close hc), ih (.topic ⟨?_, ?_, by simp [ Block.entry?]⟩) hrest⟩
          · simpa [Block.renderLines] using hline
          · simp only [Block.renderLines, Block.id?, List.filterMap_cons, lineId?,
              not_isItemLine_of_topic htopic, Bool.false_eq_true, if_false, htopic, if_true]
            cases extractEmbeddedId line.length line <;> rfl
        · split
          · next hnone =>
              refine List.forall_mem_append.mpr ⟨(hpending.close hc), ?_⟩
              refine List.forall_mem_cons.mpr ⟨⟨?_, ?_, by simp [ Block.entry?]⟩, ih .none hrest⟩
              · simpa [Block.renderLines] using hline
              · apply List.filterMap_cons_none
                simp [lineId?, hitem, hnone]
          · next e hsome =>
              exact List.forall_mem_append.mpr
                ⟨(hpending.close hc), ih (.entry (parseEntryHead_reads hsome hline)) hrest⟩
        · refine List.forall_mem_append.mpr ⟨(hpending.close hc), ih (.prose ?_ ?_) hrest⟩
          · simp [opensBlock, hsection, htopic, hitem]
          · simpa using hline

/-! ## Settled files -/

/-- A file whose text brings in the ids of its blocks and no others, and holds no `c` within a
line. -/
structure OpenQuestionsFile.Settled (c : Char) (file : OpenQuestionsFile) : Prop where
  header : c ∉ file.header ∧ lineId? file.header = none
  blocks : ∀ b ∈ file.blocks, b.Settled c

theorem defaultHeader_settled (hc : IsLineEnd c) :
    c ∉ defaultHeader ∧ lineId? defaultHeader = none :=
  ⟨hc.notMem (by decide), rfl⟩

theorem parseHeader_settled (hc : IsLineEnd c) {lines : List Text}
    (hlines : ∀ line ∈ lines, c ∉ line) :
    c ∉ (parseHeader lines).1 ∧ lineId? (parseHeader lines).1 = none ∧
      ∀ line ∈ (parseHeader lines).2, c ∉ line := by
  induction lines with
  | nil => exact ⟨(defaultHeader_settled hc).1, rfl, by simp [parseHeader]⟩
  | cons line rest ih =>
      obtain ⟨hline, hrest⟩ := List.forall_mem_cons.mp hlines
      rw [parseHeader]
      split_ifs with hblank htitle
      · exact ih hrest
      · refine ⟨fun hin => hline ((List.rdropWhile_prefix _ _).subset hin), ?_, hrest⟩
        obtain ⟨more, rfl⟩ := List.isPrefixOf_iff_prefix.mp htitle
        exact lineId?_rstrip_of_hash rfl rfl
      · exact ⟨(defaultHeader_settled hc).1, rfl, hlines⟩

theorem parse_settled_of (tables : UnicodeTables) (hc : IsLineEnd c) {content : Text}
    (hlines : ∀ line ∈ splitLines content, c ∉ line) :
    (OpenQuestionsFile.parse tables content).Settled c := by
  obtain ⟨hheader, hid, hrest⟩ := parseHeader_settled hc hlines
  exact ⟨⟨hheader, hid⟩, parseBlocks_settled tables hc .none hrest⟩

theorem parse_settled (tables : UnicodeTables) (content : Text) :
    (OpenQuestionsFile.parse tables content).Settled '\n' :=
  parse_settled_of tables (Or.inl rfl) fun _ hline => LineText.notMem_of_mem_splitOn hline

/-- The lines of a settled file bring in the ids of its blocks. -/
theorem lineIds_format {file : OpenQuestionsFile} (h : file.Settled '\n') :
    lineIds file.format = file.ids := by
  have hone : ∀ line ∈ file.header :: file.blocks.flatMap Block.renderLines, '\n' ∉ line := by
    refine List.forall_mem_cons.mpr ⟨h.header.1, ?_⟩
    intro line hline
    obtain ⟨b, hb, hin⟩ := List.mem_flatMap.mp hline
    exact (h.blocks b hb).free line hin
  have hlines : splitLines file.format = file.header :: file.blocks.flatMap Block.renderLines :=
    List.splitOn_intercalate '\n' hone (List.cons_ne_nil _ _)
  have hblocks : ∀ blocks : List Block, (∀ b ∈ blocks, b.Settled '\n') →
      (blocks.flatMap Block.renderLines).filterMap lineId? = blocks.filterMap Block.id? := by
    intro blocks hsettled
    induction blocks with
    | nil => rfl
    | cons b blocks ih =>
        obtain ⟨hb, hrest⟩ := List.forall_mem_cons.mp hsettled
        rw [List.flatMap_cons, List.filterMap_append, ih hrest, hb.ids]
        cases hid : b.id? with
        | none => rw [List.filterMap_cons_none hid]; rfl
        | some id => rw [List.filterMap_cons_some hid]; rfl
  rw [lineIds, hlines, List.filterMap_cons_none h.header.2, hblocks file.blocks h.blocks]
  rfl

end Questions
end Core
end Nauro
