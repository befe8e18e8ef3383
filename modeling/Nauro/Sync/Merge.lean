import Nauro.Foundation.EscapedUtf8
import Nauro.Foundation.DocumentUnion

/-!
# Conflict resolution for cloud sync

When a file changed on both sides since the last sync, the append-only logs are merged by a
section-aware union of their lines; every other file keeps one side and backs the other up.
-/

namespace Nauro
namespace Sync
namespace Merge

open Foundation
open Foundation.EscapedUtf8
open Foundation.KeepFirst
open Foundation.SectionedDocument

/-- A line of a file decoded with escapes for undecodable bytes. -/
abbrev Line := List Point

/-- `"## "`, the start of a section header. -/
def sectionPrefix : Line := "## ".toList.map .scalar

/-- A section starts at any line beginning with `"## "`. -/
def startsSection (line : Line) : Bool :=
  sectionPrefix.isPrefixOf line

/-! ## The section parser -/

/-- The state of the loop over the lines. -/
structure SectionScan where
  preamble : List Line
  sections : List (Line × List Line)
  currentHeader : Option Line
  currentBody : List Line

/-- The finished sections, the open one included. -/
def SectionScan.closed (s : SectionScan) : List (Line × List Line) :=
  match s.currentHeader with
  | none => s.sections
  | some header => s.sections ++ [(header, s.currentBody)]

/-- One turn of the loop. -/
def scanLine (s : SectionScan) (line : Line) : SectionScan :=
  if startsSection line then
    { s with sections := s.closed, currentHeader := some line, currentBody := [] }
  else
    match s.currentHeader with
    | none => { s with preamble := s.preamble ++ [line] }
    | some _ => { s with currentBody := s.currentBody ++ [line] }

/-- Split lines into a preamble and a list of (header, body) sections. -/
def parseSections (lines : List Line) : List Line × List (Line × List Line) :=
  let scan := lines.foldl scanLine
    { preamble := [], sections := [], currentHeader := none, currentBody := [] }
  (scan.preamble, scan.closed)

/-- Drop exact-duplicate non-blank lines, preserving first-occurrence order. -/
def dedupePreserveOrder (lines : List Line) : List Line :=
  keepFirst List.isEmpty lines

/-- Enter one section: a new header goes last, a known one has its body extended. -/
def groupSection (groups : List (Line × List Line)) (s : Line × List Line) :
    List (Line × List Line) :=
  if s.1 ∈ groups.map Prod.fst then
    groups.map fun g => if g.1 = s.1 then (g.1, g.2 ++ s.2) else g
  else
    groups ++ [s]

/-- The bodies by header, in the order the headers were first met. -/
def bodiesByHeader (sections : List (Line × List Line)) : List (Line × List Line) :=
  sections.foldl groupSection []

/-- Whether a text ends with a newline. -/
def endsWithNewline (text : Line) : Bool :=
  text.getLast? = some newline

/-- The lines of a text without the synthetic one after a final newline. -/
def documentLines (text : Line) : List Line :=
  let lines := text.splitOn newline
  if endsWithNewline text ∧ lines.getLast? = some [] then lines.dropLast else lines

/-- The lines of the merge, before they are joined. -/
def mergedLines (localLines remoteLines : List Line) : List Line :=
  let (localPreamble, localSections) := parseSections localLines
  let (remotePreamble, remoteSections) := parseSections remoteLines
  let groups := bodiesByHeader (localSections ++ remoteSections)
  let merged := dedupePreserveOrder (localPreamble ++ remotePreamble) ++
    groups.flatMap fun g => g.1 :: dedupePreserveOrder g.2
  dedupePreserveOrder merged

/-- Section-aware set-union merge of two append-only markdown files. -/
def setUnionMarkdown (localBytes remoteBytes : List UInt8) : List UInt8 :=
  let localText := decode localBytes
  let remoteText := decode remoteBytes
  let deduped := mergedLines (documentLines localText) (documentLines remoteText)
  let result := [newline].intercalate deduped
  encode
    (if endsWithNewline localText ∨ endsWithNewline remoteText then
      result ++ [newline]
    else
      result)

/-! ## Choosing a side -/

/-- Which copy of a file survives on disk when no merge is defined. -/
inductive Side where
  | localSide
  | remoteSide
deriving DecidableEq

/-- The append-only logs where a set-union merge is used. -/
def setUnionPaths : List String :=
  ["open-questions.md", "state_history.md"]

/-- What a conflict leaves behind: the content to install and, where one side loses, the
content saved to the backup directory. -/
structure Resolution where
  content : List UInt8
  backup : Option (List UInt8)
deriving DecidableEq

/-- Resolve a conflict between local and remote versions of a file. -/
def resolveConflict (localContent remoteContent : List UInt8) (relativePath : String)
    (keeps : Side) : Resolution :=
  if relativePath ∈ setUnionPaths then
    { content := setUnionMarkdown localContent remoteContent, backup := none }
  else
    match keeps with
    | .localSide => { content := localContent, backup := some remoteContent }
    | .remoteSide => { content := remoteContent, backup := some localContent }

/-! ## The loops compute the document union -/

theorem foldl_scanLine_open (lines : List Line) (preamble : List Line)
    (sections : List (Line × List Line)) (header : Line) (body : List Line) :
    let scan := lines.foldl scanLine
      { preamble := preamble, sections := sections,
        currentHeader := some header, currentBody := body }
    scan.preamble = preamble ∧
      scan.closed = sections ++ (header, body ++ (cut startsSection lines).preamble) ::
        (cut startsSection lines).sections := by
  induction lines generalizing sections header body with
  | nil => simp [SectionScan.closed, cut]
  | cons line rest ih =>
      cases h : startsSection line with
      | true =>
          have hrest := ih (sections ++ [(header, body)]) line []
          rw [cut_cons_header h]
          simpa [scanLine, h, SectionScan.closed] using hrest
      | false =>
          have hrest := ih sections header (body ++ [line])
          rw [cut_cons_plain h]
          simpa [scanLine, h] using hrest

theorem foldl_scanLine_preamble (lines preamble : List Line) :
    let scan := lines.foldl scanLine
      { preamble := preamble, sections := [], currentHeader := none, currentBody := [] }
    scan.preamble = preamble ++ (cut startsSection lines).preamble ∧
      scan.closed = (cut startsSection lines).sections := by
  induction lines generalizing preamble with
  | nil => simp [SectionScan.closed, cut]
  | cons line rest ih =>
      cases h : startsSection line with
      | true =>
          have hrest := foldl_scanLine_open rest preamble [] line []
          rw [cut_cons_header h]
          simpa [scanLine, h, SectionScan.closed] using hrest
      | false =>
          have hrest := ih (preamble ++ [line])
          rw [cut_cons_plain h]
          simpa [scanLine, h] using hrest

/-- The section loop cuts the lines at the section headers. -/
theorem parseSections_eq_cut (lines : List Line) :
    parseSections lines =
      ((cut startsSection lines).preamble, (cut startsSection lines).sections) := by
  have hscan := foldl_scanLine_preamble lines []
  simp only [List.nil_append] at hscan
  exact Prod.ext hscan.1 hscan.2

theorem bodyUnder_snoc_self (sections : List (Line × List Line)) (s : Line × List Line) :
    bodyUnder s.1 (sections ++ [s]) = bodyUnder s.1 sections ++ s.2 := by
  rw [bodyUnder_append]
  simp [bodyUnder]

theorem bodyUnder_snoc_of_ne {h : Line} (sections : List (Line × List Line))
    {s : Line × List Line} (hne : s.1 ≠ h) :
    bodyUnder h (sections ++ [s]) = bodyUnder h sections := by
  rw [bodyUnder_append]
  simp [bodyUnder, hne]

theorem groupSection_group (sections : List (Line × List Line)) (s : Line × List Line) :
    groupSection (group sections) s = group (sections ++ [s]) := by
  have hheaders : headers (sections ++ [s]) = headers sections ++ [s.1] := by
    simp [headers]
  have hkeys : s.1 ∈ (group sections).map Prod.fst ↔ s.1 ∈ headers sections :=
    mem_headers_group
  have hgroup : group (sections ++ [s]) =
      (keepFirst (fun _ => false) (headers sections) ++
        keepFrom (fun _ => false) (headers sections) [s.1]).map
          fun h => (h, bodyUnder h (sections ++ [s])) := by
    rw [group, hheaders, keepFirst, keepFrom_append, List.nil_append]
    rfl
  rw [hgroup]
  unfold groupSection
  by_cases hmem : s.1 ∈ headers sections
  · rw [if_pos (hkeys.mpr hmem), keepFrom_cons_seen rfl hmem, keepFrom_nil, List.append_nil,
      group, List.map_map]
    apply List.map_congr_left
    intro h _
    by_cases hh : h = s.1
    · subst hh
      simp [bodyUnder_snoc_self]
    · simp [hh, bodyUnder_snoc_of_ne sections (Ne.symm hh)]
  · rw [if_neg (fun h => hmem (hkeys.mp h)), keepFrom_cons_fresh rfl hmem, keepFrom_nil,
      List.map_append, group]
    congr 1
    · apply List.map_congr_left
      intro h hin
      have hold : h ∈ headers sections := mem_keepFirst.mp hin
      have hne : s.1 ≠ h := fun heq => hmem (heq ▸ hold)
      rw [bodyUnder_snoc_of_ne sections hne]
    · simp [bodyUnder_snoc_self, bodyUnder_eq_nil hmem]

/-- The dictionary loop lists each header once, over everything under it. -/
theorem bodiesByHeader_eq_group (sections : List (Line × List Line)) :
    bodiesByHeader sections = group sections := by
  induction sections using List.reverseRecOn with
  | nil => rfl
  | append_singleton sections s ih =>
      unfold bodiesByHeader at ih ⊢
      rw [List.foldl_append, ih]
      exact groupSection_group sections s

theorem startsSection_not_blank (line : Line) (h : startsSection line = true) :
    line.isEmpty = false := by
  cases line with
  | nil => cases h
  | cons p rest => rfl

theorem flatMap_dedupe_eq (seen : List Line) (groups : List (Line × List Line)) :
    keepFrom List.isEmpty seen (groups.flatMap fun g => g.1 :: dedupePreserveOrder g.2) =
      keepFrom List.isEmpty seen (flattenSections groups) := by
  induction groups generalizing seen with
  | nil => rfl
  | cons g rest ih =>
      obtain ⟨h, body⟩ := g
      have hinner : keepFrom List.isEmpty (seen ++ [h]) (dedupePreserveOrder body) =
          keepFrom List.isEmpty (seen ++ [h]) body :=
        keepFrom_keepFrom (by simp) body
      have hseen : keepFrom List.isEmpty (seen ++ [h] ++ dedupePreserveOrder body)
            (flattenSections rest) =
          keepFrom List.isEmpty (seen ++ [h] ++ body) (flattenSections rest) := by
        apply keepFrom_congr
        intro x _ _
        simp only [List.mem_append, dedupePreserveOrder, mem_keepFirst]
      have hleft : (h, body).1 :: dedupePreserveOrder (h, body).2 =
          [h] ++ dedupePreserveOrder body := rfl
      have hright : flattenSections ((h, body) :: rest) =
          [h] ++ (body ++ flattenSections rest) := by simp
      rw [List.flatMap_cons, hleft, hright, List.append_assoc, keepFrom_append,
        keepFrom_append, ih, hinner, hseen, keepFrom_append seen, keepFrom_append (seen ++ [h])]

/-- The passes over the preamble and over each body are absorbed by the last one. -/
theorem dedupe_joined (preamble : List Line) (groups : List (Line × List Line)) :
    dedupePreserveOrder (dedupePreserveOrder preamble ++
        groups.flatMap fun g => g.1 :: dedupePreserveOrder g.2) =
      keepFirst List.isEmpty (preamble ++ flattenSections groups) := by
  have hpreamble : keepFrom List.isEmpty [] (dedupePreserveOrder preamble) =
      keepFrom List.isEmpty [] preamble :=
    keepFrom_keepFrom (by simp) preamble
  have hseen : keepFrom List.isEmpty ([] ++ dedupePreserveOrder preamble)
        (groups.flatMap fun g => g.1 :: dedupePreserveOrder g.2) =
      keepFrom List.isEmpty ([] ++ preamble)
        (groups.flatMap fun g => g.1 :: dedupePreserveOrder g.2) := by
    apply keepFrom_congr
    intro x _ _
    simp only [List.nil_append, dedupePreserveOrder, mem_keepFirst]
  rw [dedupePreserveOrder, keepFirst, keepFrom_append, hpreamble, hseen, flatMap_dedupe_eq,
    keepFirst, keepFrom_append]

/-- Before they are joined, the lines of the merge are those of the document union. -/
theorem mergedLines_eq_unite (localLines remoteLines : List Line) :
    mergedLines localLines remoteLines =
      (unite List.isEmpty (cut startsSection localLines)
        (cut startsSection remoteLines)).flatten := by
  rw [← keepFirst_overlay (cut_wellFormed _ localLines) (cut_wellFormed _ remoteLines)
    startsSection_not_blank]
  simp only [mergedLines, parseSections_eq_cut, bodiesByHeader_eq_group]
  exact dedupe_joined _ _

/-! ## The merge on bytes -/

/-- The lines of a file, as bytes. -/
def byteLines (bytes : List UInt8) : List (List UInt8) :=
  bytes.splitOn newlineByte

/-- Whether a line of bytes begins with `"## "`. -/
def startsByteSection (line : List UInt8) : Bool :=
  [0x23, 0x23, 0x20].isPrefixOf line

/-- A file cut at its section headers, as bytes. -/
def byteDocument (bytes : List UInt8) : Document (List UInt8) :=
  cut startsByteSection (LineText.documentLines newlineByte bytes)

theorem documentLines_eq (text : Line) :
    documentLines text = LineText.documentLines newline text := by
  have hsplit := LineText.splitOn_eq_documentLines newline text
  unfold documentLines endsWithNewline
  by_cases hlast : text.getLast? = some newline
  · rw [if_pos hlast] at hsplit
    simp [hlast, hsplit]
  · rw [if_neg hlast] at hsplit
    simp [hlast, hsplit]

theorem startsSection_decode (line : List UInt8) :
    startsSection (decode line) = startsByteSection line := by
  rw [Bool.eq_iff_iff]
  unfold startsSection startsByteSection
  rw [List.isPrefixOf_iff_prefix, List.isPrefixOf_iff_prefix]
  constructor
  · rintro ⟨rest, hrest⟩
    have hline := congrArg encode hrest
    rw [encode_decode, encode_append] at hline
    exact ⟨encode rest, hline⟩
  · rintro ⟨rest, rfl⟩
    have hascii : ∀ b ∈ [(0x23 : UInt8), 0x23, 0x20], ¬ 0x80 ≤ b := by
      simp [UInt8.le_iff_toNat_le]
    rw [decode_ascii_append hascii]
    exact ⟨decode rest, rfl⟩

theorem startsByteSection_not_blank (line : List UInt8)
    (h : startsByteSection line = true) : line.isEmpty = false := by
  cases line with
  | nil => cases h
  | cons b rest => rfl

theorem isEmpty_decode (line : List UInt8) : (decode line).isEmpty = line.isEmpty := by
  cases line with
  | nil => rfl
  | cons b rest =>
      cases hdecode : decode (b :: rest) with
      | nil =>
          have hbytes := encode_decode (b :: rest)
          rw [hdecode] at hbytes
          cases hbytes
      | cons p points => rfl

theorem byteDocument_wellFormed (bytes : List UInt8) :
    (byteDocument bytes).WellFormed startsByteSection :=
  cut_wellFormed _ _

theorem flatten_byteDocument (bytes : List UInt8) :
    (byteDocument bytes).flatten = LineText.documentLines newlineByte bytes :=
  flatten_cut _ _

theorem cut_documentLines_decode (bytes : List UInt8) :
    cut startsSection (documentLines (decode bytes)) = (byteDocument bytes).map decode := by
  rw [documentLines_eq, documentLines_decode]
  exact cut_map startsSection_decode _

/-- The union of two files, as bytes. -/
def byteUnion (localBytes remoteBytes : List UInt8) : Document (List UInt8) :=
  unite List.isEmpty (byteDocument localBytes) (byteDocument remoteBytes)

theorem byteUnion_wellFormed (localBytes remoteBytes : List UInt8) :
    (byteUnion localBytes remoteBytes).WellFormed startsByteSection :=
  unite_wellFormed (byteDocument_wellFormed _) (byteDocument_wellFormed _)

theorem mem_byteUnion {localBytes remoteBytes line : List UInt8} :
    line ∈ (byteUnion localBytes remoteBytes).flatten ↔
      line ∈ LineText.documentLines newlineByte localBytes ∨
        line ∈ LineText.documentLines newlineByte remoteBytes := by
  rw [← flatten_byteDocument, ← flatten_byteDocument]
  exact mem_flatten_unite (byteDocument_wellFormed _) (byteDocument_wellFormed _)
    startsByteSection_not_blank

theorem byteUnion_ne_nil (localBytes remoteBytes : List UInt8) :
    (byteUnion localBytes remoteBytes).flatten ≠ [] := by
  obtain ⟨line, hline⟩ := List.exists_mem_of_ne_nil _
    (LineText.documentLines_ne_nil newlineByte localBytes)
  exact List.ne_nil_of_mem (mem_byteUnion.mpr (Or.inl hline))

theorem newlineByte_notMem_of_mem_byteUnion {localBytes remoteBytes line : List UInt8}
    (hline : line ∈ (byteUnion localBytes remoteBytes).flatten) : newlineByte ∉ line := by
  rcases mem_byteUnion.mp hline with h | h <;>
    exact LineText.notMem_of_mem_documentLines h

/-- The merge joins the byte lines of the union; no byte is decoded away. -/
theorem setUnionMarkdown_eq (localBytes remoteBytes : List UInt8) :
    setUnionMarkdown localBytes remoteBytes =
      [newlineByte].intercalate (byteUnion localBytes remoteBytes).flatten ++
        if localBytes.getLast? = some newlineByte ∨ remoteBytes.getLast? = some newlineByte then
          [newlineByte]
        else [] := by
  have hlines : mergedLines (documentLines (decode localBytes))
        (documentLines (decode remoteBytes)) =
      (byteUnion localBytes remoteBytes).flatten.map decode := by
    rw [mergedLines_eq_unite, cut_documentLines_decode, cut_documentLines_decode,
      unite_map decode_injective isEmpty_decode, flatten_map]
    rfl
  have hencode : ((byteUnion localBytes remoteBytes).flatten.map decode).map encode =
      (byteUnion localBytes remoteBytes).flatten := by
    rw [List.map_map]
    exact (List.map_congr_left fun line _ => encode_decode line).trans (List.map_id _)
  have hjoin : encode ([newline].intercalate
        ((byteUnion localBytes remoteBytes).flatten.map decode)) =
      [newlineByte].intercalate (byteUnion localBytes remoteBytes).flatten := by
    rw [encode_intercalate, hencode]
  have hends : ∀ bytes, endsWithNewline (decode bytes) = true ↔
      bytes.getLast? = some newlineByte := by
    intro bytes
    rw [endsWithNewline, decide_eq_true_eq, getLast?_decode]
  simp only [setUnionMarkdown, hlines, hends]
  split
  · rw [encode_append, hjoin]
    rfl
  · rw [hjoin, List.append_nil]

/-- The lines of the merged file are those of the union, up to an empty line at the end that
counts as a final newline. -/
theorem documentLines_setUnionMarkdown (localBytes remoteBytes : List UInt8) :
    (byteUnion localBytes remoteBytes).flatten =
        LineText.documentLines newlineByte (setUnionMarkdown localBytes remoteBytes) ∨
      (byteUnion localBytes remoteBytes).flatten =
        LineText.documentLines newlineByte (setUnionMarkdown localBytes remoteBytes) ++ [[]] := by
  have hne := byteUnion_ne_nil localBytes remoteBytes
  have hplain : ∀ line ∈ (byteUnion localBytes remoteBytes).flatten, newlineByte ∉ line :=
    fun _ h => newlineByte_notMem_of_mem_byteUnion h
  rw [setUnionMarkdown_eq]
  split
  · left
    rw [LineText.documentLines_intercalate_append_sep hne hplain]
  · rw [List.append_nil]
    have hsplit := LineText.splitOn_eq_documentLines newlineByte
      ([newlineByte].intercalate (byteUnion localBytes remoteBytes).flatten)
    rw [List.splitOn_intercalate newlineByte hplain hne] at hsplit
    split at hsplit
    · exact Or.inr hsplit
    · left
      rwa [List.append_nil] at hsplit

end Merge
end Sync
end Nauro
