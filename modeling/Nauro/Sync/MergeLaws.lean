import Nauro.Sync.Merge

/-!
# The line law of the set-union merge

What the merge of two append-only logs keeps, and in which order. Lines are byte strings, so
undecodable bytes are covered by every statement here.

* `repeated_header_reorders` — a header that repeats inside one side moves lines.
-/

namespace Nauro
namespace Sync
namespace Merge

open Foundation
open Foundation.EscapedUtf8
open Foundation.KeepFirst
open Foundation.SectionedDocument

/-- The section headers of a file in order. -/
def sectionHeaders (bytes : List UInt8) : List (List UInt8) :=
  headers (byteDocument bytes).sections

/-- Everything under one header of a file. -/
def bodyOf (header bytes : List UInt8) : List (List UInt8) :=
  bodyUnder header (byteDocument bytes).sections

/-- The non-blank lines of a file, each at its first occurrence. -/
def distinctLines (bytes : List UInt8) : List (List UInt8) :=
  keepFirst (fun _ => false) ((byteLines bytes).filter (fun line => !line.isEmpty))

/-- The local lines stand in the merged file in the order they had. -/
def KeepsLocalOrder (localBytes remoteBytes : List UInt8) : Prop :=
  (distinctLines localBytes).Sublist (byteLines (setUnionMarkdown localBytes remoteBytes))

instance (localBytes remoteBytes : List UInt8) :
    Decidable (KeepsLocalOrder localBytes remoteBytes) :=
  inferInstanceAs (Decidable (List.Sublist _ _))

/-- Every non-blank line the two sides share stands, on the remote side, only where the local
side has it too: in the preamble, or under the same header. -/
def SharedLinesAgree (localBytes remoteBytes : List UInt8) : Prop :=
  ∀ line ∈ byteLines localBytes, line ≠ [] →
    (line ∈ (byteDocument remoteBytes).preamble →
      line ∈ (byteDocument localBytes).preamble) ∧
    ∀ header, line ∈ bodyOf header remoteBytes → line ∈ bodyOf header localBytes

/-! ## The merged document -/

theorem mem_byteLines {bytes line : List UInt8} (hline : line ≠ []) :
    line ∈ byteLines bytes ↔ line ∈ (byteDocument bytes).flatten := by
  rw [flatten_byteDocument, LineText.mem_documentLines hline]
  rfl

theorem mem_sectionHeaders {bytes header : List UInt8} :
    header ∈ sectionHeaders bytes ↔
      header ∈ byteLines bytes ∧ startsByteSection header = true := by
  unfold sectionHeaders byteDocument
  rw [mem_headers_cut]
  refine and_congr_left fun hstart => ?_
  have hne : header ≠ [] := by
    rintro rfl
    cases hstart
  exact LineText.mem_documentLines hne

theorem mem_byteLines_setUnionMarkdown {localBytes remoteBytes line : List UInt8}
    (hline : line ≠ []) :
    line ∈ byteLines (setUnionMarkdown localBytes remoteBytes) ↔
      line ∈ byteLines localBytes ∨ line ∈ byteLines remoteBytes := by
  have hunion : line ∈ (byteUnion localBytes remoteBytes).flatten ↔ _ := mem_byteUnion
  rw [LineText.mem_documentLines hline, LineText.mem_documentLines hline] at hunion
  rw [mem_byteLines hline, flatten_byteDocument]
  refine Iff.trans ?_ hunion
  rcases documentLines_setUnionMarkdown localBytes remoteBytes with h | h
  · rw [h]
  · rw [h, List.mem_append, List.mem_singleton]
    simp [hline]

theorem sectionHeaders_setUnionMarkdown (localBytes remoteBytes : List UInt8) :
    sectionHeaders (setUnionMarkdown localBytes remoteBytes) =
      keepFirst (fun _ => false) (sectionHeaders localBytes ++ sectionHeaders remoteBytes) := by
  have hcut : cut startsByteSection (byteUnion localBytes remoteBytes).flatten =
      byteUnion localBytes remoteBytes :=
    cut_flatten (byteUnion_wellFormed localBytes remoteBytes)
  have hunion : headers (byteUnion localBytes remoteBytes).sections =
      keepFirst (fun _ => false) (sectionHeaders localBytes ++ sectionHeaders remoteBytes) :=
    headers_unite
  rw [← hunion, ← hcut]
  rcases documentLines_setUnionMarkdown localBytes remoteBytes with h | h
  · rw [h]
    rfl
  · rw [h, headers_cut_append_plain rfl]
    rfl

theorem preamble_setUnionMarkdown_sublist (localBytes remoteBytes : List UInt8) :
    (byteDocument (setUnionMarkdown localBytes remoteBytes)).preamble.Sublist
      ((byteDocument localBytes).preamble ++ (byteDocument remoteBytes).preamble) := by
  have hcut : cut startsByteSection (byteUnion localBytes remoteBytes).flatten =
      byteUnion localBytes remoteBytes :=
    cut_flatten (byteUnion_wellFormed localBytes remoteBytes)
  have hunion : (byteUnion localBytes remoteBytes).preamble.Sublist
      ((byteDocument localBytes).preamble ++ (byteDocument remoteBytes).preamble) :=
    keepFrom_sublist _ _ _
  refine List.Sublist.trans ?_ hunion
  rw [← hcut]
  rcases documentLines_setUnionMarkdown localBytes remoteBytes with h | h
  · rw [h]
    exact List.Sublist.refl _
  · rw [h]
    have hblank : startsByteSection [] = false := rfl
    rcases preamble_cut_append_plain hblank
      (LineText.documentLines newlineByte (setUnionMarkdown localBytes remoteBytes))
      with hpre | hpre
    · rw [hpre]
      exact List.Sublist.refl _
    · rw [hpre]
      exact List.sublist_append_left _ _

/-- A section of the merged file is, up to a blank line at its end, one of the union. -/
theorem exists_section_byteUnion {localBytes remoteBytes header : List UInt8}
    {body : List (List UInt8)}
    (hmem : (header, body) ∈
      (byteDocument (setUnionMarkdown localBytes remoteBytes)).sections) :
    (header, body) ∈ (byteUnion localBytes remoteBytes).sections ∨
      (header, body ++ [[]]) ∈ (byteUnion localBytes remoteBytes).sections := by
  have hcut : cut startsByteSection (byteUnion localBytes remoteBytes).flatten =
      byteUnion localBytes remoteBytes :=
    cut_flatten (byteUnion_wellFormed localBytes remoteBytes)
  rw [← hcut]
  rcases documentLines_setUnionMarkdown localBytes remoteBytes with h | h
  · rw [h]
    exact Or.inl hmem
  · rw [h]
    exact mem_sections_cut_append_plain rfl hmem

theorem body_setUnionMarkdown_sublist {localBytes remoteBytes header : List UInt8}
    {body : List (List UInt8)}
    (hmem : (header, body) ∈
      (byteDocument (setUnionMarkdown localBytes remoteBytes)).sections) :
    body.Sublist (bodyOf header localBytes ++ bodyOf header remoteBytes) := by
  rcases exists_section_byteUnion hmem with hsame | hblank
  · exact sublist_of_mem_sections_unite hsame
  · exact (List.sublist_append_left body [[]]).trans (sublist_of_mem_sections_unite hblank)

/-! ## The order of the local lines -/

theorem filter_keepFirst_isEmpty (lines : List (List UInt8)) :
    (keepFirst List.isEmpty lines).filter (fun line => !line.isEmpty) =
      keepFirst (fun _ => false) (lines.filter (fun line => !line.isEmpty)) := by
  have hgeneral : ∀ seen : List (List UInt8),
      (keepFrom List.isEmpty seen lines).filter (fun line => !line.isEmpty) =
        keepFrom (fun _ => false) seen (lines.filter (fun line => !line.isEmpty)) := by
    induction lines with
    | nil => intro seen; rfl
    | cons line rest ih =>
        intro seen
        cases hblank : line.isEmpty with
        | true => simp [keepFrom, hblank, ih]
        | false =>
            by_cases hseen : line ∈ seen
            · simp [keepFrom, hblank, hseen, ih]
            · simp [keepFrom, hblank, hseen, ih]
  exact hgeneral []

theorem distinctLines_eq (bytes : List UInt8) :
    distinctLines bytes =
      (keepFirst List.isEmpty (byteDocument bytes).flatten).filter
        (fun line => !line.isEmpty) := by
  have hsplit := LineText.splitOn_eq_documentLines newlineByte bytes
  have hfilter : (byteLines bytes).filter (fun line => !line.isEmpty) =
      (LineText.documentLines newlineByte bytes).filter (fun line => !line.isEmpty) := by
    unfold byteLines
    rw [hsplit]
    split <;> simp
  rw [filter_keepFirst_isEmpty, flatten_byteDocument, distinctLines, hfilter]

theorem keepsLocalOrder_of_sharedLinesAgree {localBytes remoteBytes : List UInt8}
    (hnodup : (sectionHeaders localBytes).Nodup)
    (hagree : SharedLinesAgree localBytes remoteBytes) :
    KeepsLocalOrder localBytes remoteBytes := by
  have hne : ∀ line : List UInt8, line.isEmpty = false → line ≠ [] := by
    rintro line h rfl
    cases h
  have hsublist : (keepFirst List.isEmpty (byteDocument localBytes).flatten).Sublist
      (byteUnion localBytes remoteBytes).flatten := by
    apply keepFirst_sublist_unite (byteDocument_wellFormed _) (byteDocument_wellFormed _)
      startsByteSection_not_blank hnodup
    · intro line hremote hblank hlocal
      have hline := (mem_byteLines (hne line hblank)).mpr hlocal
      exact (hagree line hline (hne line hblank)).1 hremote
    · intro header line hremote hblank hlocal
      have hline := (mem_byteLines (hne line hblank)).mpr hlocal
      exact (hagree line hline (hne line hblank)).2 header hremote
  have hlines : ((byteUnion localBytes remoteBytes).flatten.filter
        (fun line => !line.isEmpty)).Sublist
      (byteLines (setUnionMarkdown localBytes remoteBytes)) := by
    have hmerged : (byteUnion localBytes remoteBytes).flatten.filter
          (fun line => !line.isEmpty) =
        (byteLines (setUnionMarkdown localBytes remoteBytes)).filter
          (fun line => !line.isEmpty) := by
      have hsplit := LineText.splitOn_eq_documentLines newlineByte
        (setUnionMarkdown localBytes remoteBytes)
      unfold byteLines
      rw [hsplit]
      rcases documentLines_setUnionMarkdown localBytes remoteBytes with h | h
      · rw [h]
        split <;> simp
      · rw [h]
        split <;> simp
    rw [hmerged]
    exact List.filter_sublist
  unfold KeepsLocalOrder
  rw [distinctLines_eq]
  exact (hsublist.filter _).trans hlines

/-! ## The law -/

/-- The non-blank lines of the merge are those of the two sides; every section header heads
one section, the local ones first; in the preamble and under each header local lines come
before remote ones, each in order; and where the local headers are distinct and shared lines
stand in the same place, the whole local file keeps its order. -/
theorem set_union_line_law (localBytes remoteBytes : List UInt8) :
    (∀ line, line ≠ [] →
      (line ∈ byteLines (setUnionMarkdown localBytes remoteBytes) ↔
        line ∈ byteLines localBytes ∨ line ∈ byteLines remoteBytes)) ∧
    (∀ header, startsByteSection header = true →
      header ∈ byteLines localBytes ∨ header ∈ byteLines remoteBytes →
        (sectionHeaders (setUnionMarkdown localBytes remoteBytes)).count header = 1) ∧
    sectionHeaders (setUnionMarkdown localBytes remoteBytes) =
      keepFirst (fun _ => false) (sectionHeaders localBytes ++ sectionHeaders remoteBytes) ∧
    (byteDocument (setUnionMarkdown localBytes remoteBytes)).preamble.Sublist
      ((byteDocument localBytes).preamble ++ (byteDocument remoteBytes).preamble) ∧
    (∀ s ∈ (byteDocument (setUnionMarkdown localBytes remoteBytes)).sections,
      s.2.Sublist (bodyOf s.1 localBytes ++ bodyOf s.1 remoteBytes)) ∧
    ((sectionHeaders localBytes).Nodup ∧ SharedLinesAgree localBytes remoteBytes →
      KeepsLocalOrder localBytes remoteBytes) := by
  refine ⟨?_, ?_, ?_, ?_, ?_, ?_⟩
  · intro line hline
    exact mem_byteLines_setUnionMarkdown hline
  · intro header hstart hmem
    have hheaders := sectionHeaders_setUnionMarkdown localBytes remoteBytes
    have hnodup : (sectionHeaders (setUnionMarkdown localBytes remoteBytes)).Nodup := by
      rw [hheaders]
      exact nodup_keepFirst_of_none _
    apply List.count_eq_one_of_mem hnodup
    rw [hheaders, mem_keepFirst, List.mem_append, mem_sectionHeaders, mem_sectionHeaders]
    exact hmem.imp (fun h => ⟨h, hstart⟩) (fun h => ⟨h, hstart⟩)
  · exact sectionHeaders_setUnionMarkdown localBytes remoteBytes
  · exact preamble_setUnionMarkdown_sublist localBytes remoteBytes
  · intro s hs
    exact body_setUnionMarkdown_sublist hs
  · rintro ⟨hnodup, hagree⟩
    exact keepsLocalOrder_of_sharedLinesAgree hnodup hagree

/-- `"## A\nx\n## B\ny\n## A\nz"`: the second `## A` is folded into the first, so `z` moves
ahead of `## B`. -/
theorem repeated_header_reorders :
    ¬ KeepsLocalOrder
      [0x23, 0x23, 0x20, 0x41, 0x0A, 0x78, 0x0A, 0x23, 0x23, 0x20, 0x42, 0x0A, 0x79, 0x0A,
        0x23, 0x23, 0x20, 0x41, 0x0A, 0x7A] [] := by
  unfold KeepsLocalOrder
  rw [setUnionMarkdown_eq]
  decide

end Merge
end Sync
end Nauro
