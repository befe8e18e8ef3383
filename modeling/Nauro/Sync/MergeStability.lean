import Nauro.Foundation.DocumentAbsorb
import Nauro.Sync.MergeLaws

/-!
# The set-union merge under repeated sync

What happens to a merged file that is merged again with one of its two sides. Lines are byte
strings, blank ones are counted apart: the merge passes them through.

* `resync_adds_blank_line` — merging again with the remote side is not the identity.
-/

namespace Nauro
namespace Sync
namespace Merge

open Foundation
open Foundation.EscapedUtf8
open Foundation.KeepFirst
open Foundation.SectionedDocument

/-- The non-blank lines of a file in order. -/
def contentLines (bytes : List UInt8) : List (List UInt8) :=
  (byteLines bytes).filter fun line => !line.isEmpty

/-- How many blank lines a file has; a final newline opens no further line. -/
def blankLines (bytes : List UInt8) : Nat :=
  (LineText.documentLines newlineByte bytes).countP List.isEmpty

/-- Merge a file with further inputs, one after the other. -/
def resync (merged : List UInt8) (inputs : List (List UInt8)) : List UInt8 :=
  inputs.foldl setUnionMarkdown merged

/-- A file whose merge with an input adds no line but blank ones, and no final newline. -/
structure Settled (merged input : List UInt8) : Prop where
  absorbs : Absorbs List.isEmpty (byteDocument merged) (byteDocument input)
  newline : input.getLast? = some newlineByte → merged.getLast? = some newlineByte

/-! ## The size of a file -/

/-- The length of the lines, each with its line end. -/
def weight (lines : List (List UInt8)) : Nat :=
  (lines.map fun line => line.length + 1).sum

theorem length_intercalate {lines : List (List UInt8)} (hne : lines ≠ []) :
    ([newlineByte].intercalate lines).length + 1 = weight lines := by
  obtain ⟨first, others, rfl⟩ := List.exists_cons_of_ne_nil hne
  rw [LineText.intercalate_cons, List.length_append, weight, List.map_cons, List.sum_cons]
  have hothers : (others.flatMap ([newlineByte] ++ ·)).length =
      (others.map fun line => line.length + 1).sum := by
    rw [List.length_flatMap]
    congr 1
  omega

theorem weight_eq (lines : List (List UInt8)) :
    weight lines =
      weight (lines.filter fun line => !line.isEmpty) + lines.countP List.isEmpty := by
  induction lines with
  | nil => rfl
  | cons line rest ih =>
      unfold weight at ih ⊢
      cases hblank : line.isEmpty with
      | true =>
          have hnil : line = [] := List.isEmpty_iff.mp hblank
          rw [List.map_cons, List.sum_cons, ih, List.countP_cons_of_pos hblank,
            List.filter_cons_of_neg (by simp [hblank]), hnil, List.length_nil]
          omega
      | false =>
          rw [List.map_cons, List.sum_cons, ih, List.countP_cons_of_neg (by simp [hblank]),
            List.filter_cons_of_pos (by simp [hblank]), List.map_cons, List.sum_cons]
          omega

/-- The final newline of a file that has one. -/
def finalNewline (bytes : List UInt8) : List UInt8 :=
  if bytes.getLast? = some newlineByte then [newlineByte] else []

theorem intercalate_documentLines (bytes : List UInt8) :
    [newlineByte].intercalate (LineText.documentLines newlineByte bytes) ++ finalNewline bytes =
      bytes := by
  unfold finalNewline
  by_cases hlast : bytes.getLast? = some newlineByte
  · obtain ⟨front, rfl⟩ := List.getLast?_eq_some_iff.mp hlast
    rw [LineText.documentLines_append_sep, if_pos hlast, List.intercalate_splitOn]
  · rw [LineText.documentLines, if_neg hlast, if_neg hlast, List.intercalate_splitOn,
      List.append_nil]

theorem contentLines_eq (bytes : List UInt8) :
    contentLines bytes = (byteDocument bytes).flatten.filter fun line => !line.isEmpty := by
  have hsplit := LineText.splitOn_eq_documentLines newlineByte bytes
  rw [flatten_byteDocument, contentLines, byteLines, hsplit]
  split <;> simp

theorem blankLines_eq (bytes : List UInt8) :
    blankLines bytes = (byteDocument bytes).flatten.countP List.isEmpty := by
  rw [flatten_byteDocument, blankLines]

theorem length_eq (bytes : List UInt8) :
    bytes.length + 1 =
      weight (contentLines bytes) + blankLines bytes + (finalNewline bytes).length := by
  have hjoin := congrArg List.length (intercalate_documentLines bytes)
  have hlines := length_intercalate (LineText.documentLines_ne_nil newlineByte bytes)
  have hweight := weight_eq (LineText.documentLines newlineByte bytes)
  rw [List.length_append] at hjoin
  rw [contentLines_eq, flatten_byteDocument, blankLines]
  omega

/-! ## One more merge -/

theorem solid_byteDocument_setUnionMarkdown (localBytes remoteBytes : List UInt8) :
    (byteDocument (setUnionMarkdown localBytes remoteBytes)).solid List.isEmpty =
      (byteUnion localBytes remoteBytes).solid List.isEmpty := by
  have hcut : cut startsByteSection (byteUnion localBytes remoteBytes).flatten =
      byteUnion localBytes remoteBytes :=
    cut_flatten (byteUnion_wellFormed localBytes remoteBytes)
  rw [← hcut]
  rcases documentLines_setUnionMarkdown localBytes remoteBytes with h | h
  · rw [h]
    rfl
  · rw [h, solid_cut_append rfl rfl]
    rfl

theorem byteUnion_eq_pad {merged input : List UInt8} (h : Settled merged input) :
    byteUnion merged input = pad List.isEmpty (byteDocument merged) (byteDocument input) :=
  unite_eq_pad (byteDocument_wellFormed _) startsByteSection_not_blank h.absorbs

theorem solid_byteDocument_settled {merged input : List UInt8} (h : Settled merged input) :
    (byteDocument (setUnionMarkdown merged input)).solid List.isEmpty =
      (byteDocument merged).solid List.isEmpty := by
  rw [solid_byteDocument_setUnionMarkdown, byteUnion_eq_pad h, solid_pad]

theorem contentLines_eq_solid (bytes : List UInt8) :
    contentLines bytes = ((byteDocument bytes).solid List.isEmpty).flatten := by
  rw [contentLines_eq, flatten_solid]
  exact exempt_header (byteDocument_wellFormed bytes) startsByteSection_not_blank

/-- The final newline of a merge that adds no newline of its own. -/
theorem setUnionMarkdown_eq_settled {merged input : List UInt8} (h : Settled merged input) :
    setUnionMarkdown merged input =
      [newlineByte].intercalate (byteUnion merged input).flatten ++ finalNewline merged := by
  have hflag : merged.getLast? = some newlineByte ∨ input.getLast? = some newlineByte ↔
      merged.getLast? = some newlineByte :=
    ⟨fun hor => hor.elim id h.newline, Or.inl⟩
  rw [setUnionMarkdown_eq, finalNewline]
  simp only [hflag]

/-- A settled file keeps its lines and grows by the blank lines of the input. -/
theorem settled_step {merged input : List UInt8} (h : Settled merged input) :
    contentLines (setUnionMarkdown merged input) = contentLines merged ∧
      (setUnionMarkdown merged input).length = merged.length + blankLines input := by
  have hcontent : contentLines (setUnionMarkdown merged input) = contentLines merged := by
    rw [contentLines_eq_solid, contentLines_eq_solid, solid_byteDocument_settled h]
  have hunion := byteUnion_eq_pad h
  have hheader := exempt_header (byteDocument_wellFormed input) startsByteSection_not_blank
  have hblank := countP_flatten_pad h.absorbs.nodup_headers h.absorbs.header hheader
  have hsolid : (byteUnion merged input).flatten.filter (fun line => !line.isEmpty) =
      contentLines merged := by
    have hwell := byteUnion_wellFormed merged input
    rw [← flatten_solid (exempt_header hwell startsByteSection_not_blank), hunion, solid_pad,
      ← contentLines_eq_solid]
  have hweight := weight_eq (byteUnion merged input).flatten
  have hlines := length_intercalate (byteUnion_ne_nil merged input)
  have hmerged := length_eq merged
  have hresult := congrArg List.length (setUnionMarkdown_eq_settled h)
  rw [List.length_append] at hresult
  rw [hsolid, hunion, hblank, ← blankLines_eq, ← blankLines_eq, ← hunion] at hweight
  exact ⟨hcontent, by omega⟩

/-- Without blank lines in the input, a settled file is a fixed point. -/
theorem settled_eq_self {merged input : List UInt8} (h : Settled merged input)
    (hblank : blankLines input = 0) : setUnionMarkdown merged input = merged := by
  have hnone : ∀ line ∈ (byteDocument input).flatten, line.isEmpty = false := by
    rw [blankLines_eq, List.countP_eq_zero] at hblank
    intro line hline
    simpa using hblank line hline
  rw [setUnionMarkdown_eq_settled h, byteUnion_eq_pad h, pad_eq_self hnone, flatten_byteDocument,
    intercalate_documentLines]

/-- Merging again leaves the file settled for every input it was settled for. -/
theorem settled_setUnionMarkdown {merged input other : List UInt8} (h : Settled merged input)
    (hother : Settled merged other) : Settled (setUnionMarkdown merged input) other := by
  refine ⟨absorbs_congr (solid_byteDocument_settled h).symm hother.absorbs, fun hlast => ?_⟩
  rw [setUnionMarkdown_eq_settled h, finalNewline, if_pos (hother.newline hlast)]
  exact List.getLast?_concat

/-! ## What is settled -/

theorem getLast?_setUnionMarkdown {localBytes remoteBytes : List UInt8}
    (h : localBytes.getLast? = some newlineByte ∨ remoteBytes.getLast? = some newlineByte) :
    (setUnionMarkdown localBytes remoteBytes).getLast? = some newlineByte := by
  rw [setUnionMarkdown_eq, if_pos h]
  exact List.getLast?_concat

/-- A merged file is settled for both of its sides. -/
theorem settled_of_mem {localBytes remoteBytes input : List UInt8}
    (hinput : input ∈ [localBytes, remoteBytes]) :
    Settled (setUnionMarkdown localBytes remoteBytes) input := by
  have hsolid := (solid_byteDocument_setUnionMarkdown localBytes remoteBytes).symm
  have hlocal := byteDocument_wellFormed localBytes
  have hremote := byteDocument_wellFormed remoteBytes
  rcases List.mem_pair.mp hinput with rfl | rfl
  · exact ⟨absorbs_congr hsolid
      (absorbs_unite_left hlocal hremote startsByteSection_not_blank),
      fun h => getLast?_setUnionMarkdown (Or.inl h)⟩
  · exact ⟨absorbs_congr hsolid
      (absorbs_unite_right hlocal hremote startsByteSection_not_blank),
      fun h => getLast?_setUnionMarkdown (Or.inr h)⟩

/-- A file without repeated lines is settled for itself. -/
theorem settled_self {bytes : List UInt8} (hdistinct : (contentLines bytes).Nodup) :
    Settled bytes bytes := by
  rw [contentLines_eq] at hdistinct
  exact ⟨absorbs_self (byteDocument_wellFormed bytes) startsByteSection_not_blank hdistinct, id⟩

/-! ## Repeated sync -/

/-- A run of merges with inputs that the file is settled for. -/
theorem settled_resync {merged : List UInt8} {inputs : List (List UInt8)}
    (h : ∀ input ∈ inputs, Settled merged input) :
    contentLines (resync merged inputs) = contentLines merged ∧
      (resync merged inputs).length = merged.length + (inputs.map blankLines).sum := by
  induction inputs generalizing merged with
  | nil => exact ⟨rfl, rfl⟩
  | cons input inputs ih =>
      obtain ⟨hinput, hinputs⟩ := List.forall_mem_cons.mp h
      obtain ⟨hcontent, hlength⟩ := settled_step hinput
      obtain ⟨hcontents, hlengths⟩ :=
        ih fun other hother => settled_setUnionMarkdown hinput (hinputs other hother)
      refine ⟨hcontents.trans hcontent, ?_⟩
      rw [List.map_cons, List.sum_cons, ← Nat.add_assoc, ← hlength]
      exact hlengths

theorem settled_eq_self_iff {merged input : List UInt8} (h : Settled merged input) :
    setUnionMarkdown merged input = merged ↔ blankLines input = 0 := by
  refine ⟨fun heq => ?_, settled_eq_self h⟩
  have hlength := (settled_step h).2
  rw [heq] at hlength
  omega

/-- Merging a merged file again with its two sides, any number of times and in any order,
leaves its non-blank lines and their order alone and adds the blank lines of each input once
more; a side without blank lines changes nothing. A file without repeated lines, merged with
itself, keeps its lines, and is unchanged when none is blank. -/
theorem set_union_resync_law (localBytes remoteBytes bytes : List UInt8) :
    (∀ inputs : List (List UInt8), inputs ⊆ [localBytes, remoteBytes] →
      contentLines (resync (setUnionMarkdown localBytes remoteBytes) inputs) =
          contentLines (setUnionMarkdown localBytes remoteBytes) ∧
        (resync (setUnionMarkdown localBytes remoteBytes) inputs).length =
          (setUnionMarkdown localBytes remoteBytes).length + (inputs.map blankLines).sum) ∧
    (∀ input ∈ [localBytes, remoteBytes],
      setUnionMarkdown (setUnionMarkdown localBytes remoteBytes) input =
          setUnionMarkdown localBytes remoteBytes ↔ blankLines input = 0) ∧
    ((contentLines bytes).Nodup →
      contentLines (setUnionMarkdown bytes bytes) = contentLines bytes ∧
        (setUnionMarkdown bytes bytes).length = bytes.length + blankLines bytes ∧
        (setUnionMarkdown bytes bytes = bytes ↔ blankLines bytes = 0)) := by
  refine ⟨?_, ?_, ?_⟩
  · intro inputs hinputs
    exact settled_resync fun input hinput => settled_of_mem (hinputs hinput)
  · intro input hinput
    exact settled_eq_self_iff (settled_of_mem hinput)
  · intro hdistinct
    have hself := settled_self hdistinct
    obtain ⟨hcontent, hlength⟩ := settled_step hself
    exact ⟨hcontent, hlength, settled_eq_self_iff hself⟩

/-- `"x\n\ny\n"` merged with itself ends in a blank line, and in one more after the next
merge. -/
theorem resync_adds_blank_line :
    setUnionMarkdown
        (setUnionMarkdown [0x78, 0x0A, 0x0A, 0x79, 0x0A] [0x78, 0x0A, 0x0A, 0x79, 0x0A])
        [0x78, 0x0A, 0x0A, 0x79, 0x0A] ≠
      setUnionMarkdown [0x78, 0x0A, 0x0A, 0x79, 0x0A] [0x78, 0x0A, 0x0A, 0x79, 0x0A] := by
  have hmember : ([0x78, 0x0A, 0x0A, 0x79, 0x0A] : List UInt8) ∈
      [[0x78, 0x0A, 0x0A, 0x79, 0x0A], [0x78, 0x0A, 0x0A, 0x79, 0x0A]] := by simp
  rw [ne_eq, settled_eq_self_iff (settled_of_mem hmember)]
  decide

end Merge
end Sync
end Nauro
