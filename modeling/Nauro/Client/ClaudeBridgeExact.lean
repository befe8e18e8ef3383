import Nauro.Client.ClaudeBridgeRemoval

/-!
# The files whose bridge can be taken away

A removal owes a file everything but the bridge. It pays where the first marker line is ended the way
its body is read, and no byte order mark stands in the way.
-/

namespace Nauro
namespace Client
namespace ClaudeBridge

open Foundation Foundation.EscapedUtf8
open Nauro.Core Nauro.Sync

/-! ## What a removal owes a file -/

/-- What a removal leaves: a text without some of its segments, or nothing where that text is
blank. The byte order mark goes with the first line. -/
inductive Left (bytes : Bytes) (before rest : List PointText) : Entry → Prop
  | stripped :
      Left bytes before rest (.file (encode ((if before = [] then [] else bomOf bytes) ++
        (before.flatten ++ rest.flatten))))
  | removed (hblank : isBlankPoints ((if before = [] then [] else bomOf bytes) ++
        (before.flatten ++ rest.flatten)) = true) :
      Left bytes before rest .absent

/-- A removal takes the bridge and nothing else. -/
structure TakesBridgeOnly (bytes : Bytes) : Prop where
  /-- Without a marker outside fenced code the file stays as it is. -/
  unowned : markerCount (contentOf bytes) = 0 →
    (removeClaudeBridge true (.file bytes)).2 = .file bytes
  /-- Otherwise what goes is the first marker line, and behind it blank lines and one import at
  most, none of them in fenced code. -/
  owned : ∀ before marker after,
    MarkerAt lineOf (segmentsOf (contentOf bytes)) before marker after →
      ∃ others rest, after = others ++ rest ∧
        (∀ other ∈ others, isBlankLine other = true ∨ isImportLine other = true) ∧
        others.countP isImportLine ≤ 1 ∧
        activeLines ((before ++ marker :: others).map lineOf) =
          activeLines (before.map lineOf) ++ (marker :: others).map lineOf ∧
        Left bytes before rest (removeClaudeBridge true (.file bytes)).2
  /-- With one marker only the file is not owned any more. -/
  single : markerCount (contentOf bytes) = 1 →
    ∀ left, (removeClaudeBridge true (.file bytes)).2 = .file left → isOwned (contentOf left) = false

/-- The files whose bridge can be taken away: the first marker line is ended by a newline or a
carriage return, or by the end of the file; a byte order mark stands in front of no other line; and
where the only marker is on the first line, no byte order mark hides another one behind the bridge. -/
structure Removable (bytes : Bytes) : Prop where
  ended : ∀ before marker after,
    MarkerAt lineOf (segmentsOf (contentOf bytes)) before marker after →
      bodyOf marker = bridgeMarkerLine
  unmarked : ∀ before marker after,
    MarkerAt lineOf (segmentsOf (contentOf bytes)) before marker after → before ≠ [] →
      bomOf bytes = []
  unhidden : ∀ marker after, MarkerAt lineOf (segmentsOf (contentOf bytes)) [] marker after →
    markerCount (contentOf bytes) = 1 → ∀ rest, Behind after rest → ∀ text,
      rest.flatten = bom :: text → isOwned text = false

/-! ## Texts read again -/

theorem decoded_contentOf (bytes : Bytes) : Decoded (contentOf bytes) := by
  have hdecoded := decoded_decode bytes
  rw [contentOf]
  cases hpoints : decode bytes with
  | nil => exact rfl
  | cons p rest =>
      rw [hpoints] at hdecoded
      rw [stripBom]
      split
      · exact hdecoded.tail
      · exact hdecoded

theorem head?_contentOf {bytes : Bytes} (h : bomOf bytes = []) : (contentOf bytes).head? ≠ some bom := by
  rw [bomOf] at h
  rw [contentOf]
  cases hpoints : decode bytes with
  | nil => exact fun heq => by cases heq
  | cons p rest =>
      rw [hpoints, List.head?_cons] at h
      have hp : p ≠ bom := by
        rintro rfl
        rw [if_pos rfl] at h
        cases h
      rw [stripBom, if_neg hp]
      exact fun heq => hp (Option.some.inj heq)

theorem stripBom_of_head? {text : PointText} (h : text.head? ≠ some bom) : stripBom text = text := by
  cases text with
  | nil => rfl
  | cons p rest =>
      have hp : p ≠ bom := fun heq => h (congrArg some heq)
      rw [stripBom, if_neg hp]

/-- A decoded text is one without a span that begins a line. -/
theorem decoded_cut {front mid back : PointText} (h : Decoded (front ++ (mid ++ back)))
    (hfront : Ended front) : Decoded (front ++ back) := by
  have hback : Decoded back := h.drop.drop
  rcases hfront with rfl | ⟨inner, p, rfl, hbreak⟩
  · exact hback
  · cases p with
    | escaped b => cases hbreak
    | scalar c =>
        rw [List.append_assoc, List.singleton_append] at h ⊢
        exact decoded_append h.take hback

section Spans

variable {bytes : Bytes} {before after others rest : List PointText} {marker : PointText}

theorem content_eq (h : segmentsOf (contentOf bytes) = before ++ marker :: (others ++ rest)) :
    contentOf bytes = before.flatten ++ ((marker :: others).flatten ++ rest.flatten) := by
  have hflatten : (segmentsOf (contentOf bytes)).flatten = contentOf bytes :=
    LineCuts.flatten_cutAfter _
  rw [← hflatten, h, List.flatten_append, ← List.cons_append, List.flatten_append]

theorem decoded_left (h : segmentsOf (contentOf bytes) = before ++ marker :: (others ++ rest)) :
    Decoded (before.flatten ++ rest.flatten) := by
  have hdecoded := decoded_contentOf bytes
  rw [content_eq h] at hdecoded
  exact decoded_cut hdecoded (ended_flatten h)

/-- The markers of a file are its first one and those behind its bridge. -/
theorem markerCount_eq (h : MarkerAt lineOf (segmentsOf (contentOf bytes)) before marker (others ++ rest))
    (hothers : ∀ other ∈ others, isBlankLine other = true ∨ isImportLine other = true) :
    markerCount (contentOf bytes) = 1 + markerCount (before.flatten ++ rest.flatten) := by
  have hrest : segmentsOf (contentOf bytes) = (before ++ marker :: others) ++ rest := by
    rw [h.segments_eq, List.append_assoc, List.cons_append]
  have hbeforeLines : linesOf before.flatten = before.map lineOf :=
    congrArg (List.map lineOf) (segmentsOf_flatten h.segments_eq).1
  have hrestLines : linesOf rest.flatten = rest.map lineOf :=
    congrArg (List.map lineOf) (segmentsOf_flatten hrest).2
  have hbefore : (activeLines (before.map lineOf)).count bridgeMarkerLine = 0 :=
    List.count_eq_zero.mpr h.first
  have hnotMarker : ((others.map lineOf)).count bridgeMarkerLine = 0 := by
    refine List.count_eq_zero.mpr fun hin => ?_
    obtain ⟨other, hother, hline⟩ := List.mem_map.mp hin
    exact marker_not_taken (hothers other hother) hline
  rw [markerCount_append (ended_flatten h.segments_eq), markerCount, markerCount, hbeforeLines,
    hrestLines, h.outside, linesOf, (activeLines_split h hothers).2, List.map_cons, h.line,
    List.count_append, List.cons_append, List.count_cons_self, List.count_append, hbefore, hnotMarker]
  show 0 + (0 + (activeLines (rest.map lineOf)).count bridgeMarkerLine + 1) = _
  rw [activeLines]
  omega

end Spans

/-! ## The condition is enough -/

/-- Where the file is cut as it should be, what is left is written, or the file goes. -/
theorem remove_of_owned {bytes : Bytes} (howned : isOwned (contentOf bytes) = true) :
    (removeClaudeBridge true (.file bytes)).2 =
      if isBlankPoints (stripBridgeRegion (contentOf bytes)) then .absent
      else .file (encode (stripBridgeRegion (contentOf bytes))) := by
  rw [contentOf] at howned ⊢
  unfold removeClaudeBridge
  dsimp only
  rw [howned]
  simp only [Bool.not_true, Bool.false_eq_true, if_false]
  split
  · rfl
  · rfl

theorem remove_of_unowned {bytes : Bytes} (howned : isOwned (contentOf bytes) = false) :
    (removeClaudeBridge true (.file bytes)).2 = .file bytes := by
  rw [contentOf] at howned
  unfold removeClaudeBridge
  dsimp only
  rw [howned]
  rfl

theorem MarkerAt.isOwned {content : PointText} {before after : List PointText} {marker : PointText}
    (h : MarkerAt lineOf (segmentsOf content) before marker after) : isOwned content = true := by
  rw [isOwned_iff, linesOf, h.segments_eq]
  exact mem_activeLines_of_marker (fenced_lineOf before) h.line h.outside

/-- A file with a marker has a first one. -/
theorem exists_markerAt {content : PointText} (h : isOwned content = true) :
    ∃ before marker after, MarkerAt lineOf (segmentsOf content) before marker after := by
  rcases markerIndex_cases (fenced_lineOf (segmentsOf content)) with
    ⟨-, hnot⟩ | ⟨before, marker, after, hat, -⟩
  · exact absurd (isOwned_iff.mp h) hnot
  · exact ⟨before, marker, after, hat⟩

theorem Removable.bom_eq {bytes : Bytes} {before after : List PointText} {marker : PointText}
    (h : Removable bytes) (hat : MarkerAt lineOf (segmentsOf (contentOf bytes)) before marker after) :
    (if before = [] then [] else bomOf bytes) = [] := by
  split
  · rfl
  · exact h.unmarked before marker after hat ‹_›

theorem Removable.left {bytes : Bytes} {before after : List PointText} {marker : PointText}
    (h : Removable bytes) (hat : MarkerAt lineOf (segmentsOf (contentOf bytes)) before marker after) :
    Left bytes before (behind after) (removeClaudeBridge true (.file bytes)).2 := by
  have hbom := h.bom_eq hat
  rw [remove_of_owned hat.isOwned, stripBridgeRegion_of_ended hat (h.ended before marker after hat)]
  split
  · rename_i hblank
    refine .removed ?_
    rw [hbom]
    exact hblank
  · have hleft : Left bytes before (behind after) (.file (encode
        ((if before = [] then [] else bomOf bytes) ++ (before.flatten ++ (behind after).flatten)))) :=
      .stripped
    rw [hbom] at hleft
    exact hleft

/-- What is left of a file with one marker has none when it is read again. -/
theorem Removable.single {bytes : Bytes} (h : Removable bytes)
    (hone : markerCount (contentOf bytes) = 1) {left : Bytes}
    (hleft : (removeClaudeBridge true (.file bytes)).2 = .file left) :
    isOwned (contentOf left) = false := by
  have howned : isOwned (contentOf bytes) = true := by
    rw [← Bool.not_eq_false, isOwned_eq_false_iff, hone]
    exact Nat.one_ne_zero
  obtain ⟨before, marker, after, hat⟩ := exists_markerAt howned
  obtain ⟨others, hafter, hothers, -⟩ := (behind_spec after).taken
  have hsplit : MarkerAt lineOf (segmentsOf (contentOf bytes)) before marker
      (others ++ behind after) := hafter ▸ hat
  rw [remove_of_owned howned,
    stripBridgeRegion_of_ended hat (h.ended before marker after hat)] at hleft
  have hbytes : encode (before.flatten ++ (behind after).flatten) = left := by
    split at hleft
    · cases hleft
    · exact Entry.file.inj hleft
  have hzero : markerCount (before.flatten ++ (behind after).flatten) = 0 := by
    have hcount := markerCount_eq hsplit hothers
    omega
  have hread : decode left = before.flatten ++ (behind after).flatten := by
    rw [← hbytes]
    exact decoded_left hsplit.segments_eq
  rw [contentOf, hread]
  by_cases hhead : (before.flatten ++ (behind after).flatten).head? = some bom
  · obtain ⟨text, htext⟩ := List.head?_eq_some_iff.mp hhead
    by_cases hbefore : before = []
    · subst hbefore
      rw [htext, stripBom, if_pos rfl]
      exact h.unhidden marker after hat hone _ (behind_spec after) text htext
    · -- The first point is that of the file, which has no byte order mark.
      refine absurd ?_ (head?_contentOf (h.unmarked before marker after hat hbefore))
      rw [content_eq hsplit.segments_eq]
      have hne : before.flatten ≠ [] := by
        obtain ⟨first, more, rfl⟩ := List.exists_cons_of_ne_nil hbefore
        have hin : first ∈ segmentsOf (contentOf bytes) := by
          rw [hat.segments_eq]
          exact List.mem_cons_self ..
        have hfirst : first ≠ [] := LineCuts.ne_nil_of_mem_cutAfter hin
        rw [List.flatten_cons]
        exact List.append_ne_nil_of_left_ne_nil hfirst _
      rwa [List.head?_append_of_ne_nil _ hne] at hhead ⊢
  · rw [stripBom_of_head? hhead]
    exact isOwned_eq_false_iff.mpr hzero

theorem Removable.takesBridgeOnly {bytes : Bytes} (h : Removable bytes) : TakesBridgeOnly bytes := by
  refine ⟨fun hzero => remove_of_unowned (isOwned_eq_false_iff.mpr hzero), ?_,
    fun hone left hleft => h.single hone hleft⟩
  intro before marker after hat
  obtain ⟨others, hafter, hothers, hcount⟩ := (behind_spec after).taken
  have hsplit : MarkerAt lineOf (segmentsOf (contentOf bytes)) before marker
      (others ++ behind after) := hafter ▸ hat
  exact ⟨others, behind after, hafter, hothers, hcount, (activeLines_split hsplit hothers).1,
    h.left hat⟩

/-! ## Markers that only the lines have -/

/-- A marker line whose body is another line. -/
def isExotic (segment : PointText) : Bool :=
  lineOf segment == bridgeMarkerLine && bodyOf segment != bridgeMarkerLine

def exoticCount (content : PointText) : Nat :=
  (segmentsOf content).countP isExotic

theorem not_exotic_of_line {segment : PointText} (h : lineOf segment ≠ bridgeMarkerLine) :
    isExotic segment = false := by
  rw [isExotic, beq_eq_false_iff_ne.mpr h, Bool.false_and]

theorem not_exotic_of_body {segment : PointText} (h : bodyOf segment = bridgeMarkerLine) :
    isExotic segment = false := by
  rw [isExotic, h, bne_self_eq_false, Bool.and_false]

theorem not_exotic_of_taken {segment : PointText}
    (h : isBlankLine segment = true ∨ isImportLine segment = true) : isExotic segment = false :=
  not_exotic_of_line (marker_not_taken h)

/-- A line ended by a carriage return is read in one way. -/
theorem not_exotic_of_return {segment : PointText} {line more : PointText}
    (hshape : ∃ line ending, Segment segment line ending) (heq : segment = line ++ carriageReturn :: more) :
    isExotic segment = false := by
  obtain ⟨line', ending, hsegment⟩ := hshape
  have hlineOf := hsegment.lineOf
  rcases hsegment.bodyOf with hbody | ⟨p, hp, hsplit, -⟩
  · by_cases hline : line' = bridgeMarkerLine
    · exact not_exotic_of_body (hbody.trans hline)
    · exact not_exotic_of_line fun heq => hline (hlineOf.symm.trans heq)
  · -- The only break of the segment is no carriage return.
    have hin : carriageReturn ∈ line' ++ [p] := by
      rw [← hsplit, heq]
      exact List.mem_append_right _ (List.mem_cons_self ..)
    rcases List.mem_append.mp hin with hline | hlast
    · exact absurd (hsegment.line_plain _ hline) (by decide)
    · rw [← List.mem_singleton.mp hlast] at hp
      exact absurd hp (by decide)

theorem countP_exotic_taken {others : List PointText}
    (h : ∀ other ∈ others, isBlankLine other = true ∨ isImportLine other = true) :
    others.countP isExotic = 0 := by
  refine List.countP_eq_zero.mpr fun other hin hexotic => ?_
  exact absurd ((not_exotic_of_taken (h other hin)).symm.trans hexotic) (by decide)

theorem exoticCount_append {front : PointText} (hfront : Ended front) (back : PointText) :
    exoticCount (front ++ back) = exoticCount front + exoticCount back := by
  rcases segmentsOf_append hfront back with hplain | ⟨init, last, rest, hfrontCut, hback, hwhole⟩
  · rw [exoticCount, hplain, List.countP_append]
    rfl
  · have hreturn : isExotic (last ++ [carriageReturn]) = false := by
      have hin : last ++ [carriageReturn] ∈ segmentsOf front := by
        rw [hfrontCut]
        exact List.mem_append_right _ (List.mem_singleton_self _)
      exact not_exotic_of_return (segment_of_mem hin) rfl
    have hpair : isExotic (last ++ [carriageReturn, newline]) = false := by
      have hin : last ++ [carriageReturn, newline] ∈ segmentsOf (front ++ back) := by
        rw [hwhole]
        exact List.mem_append_right _ (List.mem_cons_self ..)
      exact not_exotic_of_return (segment_of_mem hin) rfl
    have hnewline : isExotic [newline] = false := not_exotic_of_line (by decide)
    simp only [exoticCount, hfrontCut, hback, hwhole, List.countP_append, List.countP_cons,
      List.countP_nil, hreturn, hpair, hnewline]
    simp only [Bool.false_eq_true, if_false, Nat.add_zero]

/-- A byte order mark makes no marker. -/
theorem exoticCount_bom (text : PointText) : exoticCount (bom :: text) ≤ exoticCount text := by
  have hnot : ∀ p ∈ [bom], ∀ next, endsPointLine p next = false := by
    refine List.forall_mem_singleton.mpr fun next => ?_
    exact Bool.and_eq_false_iff.mpr (Or.inl (by decide))
  have hcut : segmentsOf (bom :: text) =
      (bom :: (segmentsOf text).headD []) :: (segmentsOf text).tail :=
    LineCuts.cutAfter_unbroken_append hnot (List.cons_ne_nil _ _) text
  have hfirst : isExotic (bom :: (segmentsOf text).headD []) = false := by
    refine not_exotic_of_line fun hline => ?_
    have hpass : (!isBreakPoint bom) = true := by decide
    rw [lineOf, List.takeWhile_cons, if_pos hpass] at hline
    have hhead : some bom = some (.scalar '<') := congrArg List.head? hline
    exact absurd hhead (by decide)
  rw [exoticCount, hcut, List.countP_cons, hfirst, exoticCount]
  exact (List.tail_sublist _).countP_le

/-- The cut leaves them all. -/
theorem exoticCount_strip (content : PointText) :
    exoticCount (stripBridgeRegion content) = exoticCount content := by
  rcases markerIndex_cases (fenced_bodyOf content) with
    ⟨hindex, -⟩ | ⟨before, marker, after, hat, hindex⟩
  · rw [stripBridgeRegion_of_none hindex]
  · obtain ⟨others, hafter, hothers, -⟩ := (behind_spec after).taken
    have hsegments := hat.segments_eq
    rw [hafter] at hsegments
    have hrest : segmentsOf content = (before ++ marker :: others) ++ behind after := by
      rw [hsegments, List.append_assoc, List.cons_append]
    rw [stripBridgeRegion_eq hat hindex, exoticCount_append (ended_flatten hsegments), exoticCount,
      exoticCount, exoticCount, (segmentsOf_flatten hsegments).1, (segmentsOf_flatten hrest).2, hrest,
      List.countP_append, List.countP_append, List.countP_cons, not_exotic_of_body hat.line,
      countP_exotic_taken hothers]
    rfl

/-! ## The condition is needed -/

section Needed

variable {bytes : Bytes} {before after others rest : List PointText} {marker : PointText}

/-- What is left of a file if its removal takes the bridge only. -/
def leftText (bytes : Bytes) (before rest : List PointText) : PointText :=
  (if before = [] then [] else bomOf bytes) ++ (before.flatten ++ rest.flatten)

theorem bomOf_cases (bytes : Bytes) : bomOf bytes = [] ∨ bomOf bytes = [bom] := by
  rw [bomOf]
  split
  · exact Or.inr rfl
  · exact Or.inl rfl

theorem leftText_cases (bytes : Bytes) (before rest : List PointText) :
    leftText bytes before rest = before.flatten ++ rest.flatten ∨
      before ≠ [] ∧ bomOf bytes = [bom] ∧
        leftText bytes before rest = bom :: (before.flatten ++ rest.flatten) := by
  rw [leftText]
  by_cases hbefore : before = []
  · rw [if_pos hbefore]
    exact Or.inl rfl
  · rw [if_neg hbefore]
    rcases bomOf_cases bytes with hbom | hbom
    · rw [hbom]
      exact Or.inl rfl
    · rw [hbom]
      exact Or.inr ⟨hbefore, rfl, rfl⟩

theorem decoded_leftText (h : segmentsOf (contentOf bytes) = before ++ marker :: (others ++ rest)) :
    Decoded (leftText bytes before rest) := by
  rcases leftText_cases bytes before rest with heq | ⟨-, -, heq⟩
  · rw [heq]
    exact decoded_left h
  · rw [heq]
    have hnil : Decoded [] := decode_nil
    exact decoded_append hnil (decoded_left h)

theorem decoded_strip (content : PointText) (h : Decoded content) :
    Decoded (stripBridgeRegion content) := by
  rcases markerIndex_cases (fenced_bodyOf content) with
    ⟨hindex, -⟩ | ⟨before, marker, after, hat, hindex⟩
  · rwa [stripBridgeRegion_of_none hindex]
  · obtain ⟨others, hafter, -⟩ := (behind_spec after).taken
    have hsegments := hat.segments_eq
    rw [hafter] at hsegments
    have hflatten : (segmentsOf content).flatten = content := LineCuts.flatten_cutAfter _
    rw [stripBridgeRegion_eq hat hindex]
    rw [← hflatten, hsegments, List.flatten_append, ← List.cons_append, List.flatten_append] at h
    exact decoded_cut h (ended_flatten hsegments)

/-- A removal that takes the bridge only leaves what the cut leaves, or both are blank. -/
theorem Left.cases (hat : MarkerAt lineOf (segmentsOf (contentOf bytes)) before marker (others ++ rest))
    (hleft : Left bytes before rest (removeClaudeBridge true (.file bytes)).2) :
    leftText bytes before rest = stripBridgeRegion (contentOf bytes) ∨
      isBlankPoints (leftText bytes before rest) = true ∧
        isBlankPoints (stripBridgeRegion (contentOf bytes)) = true := by
  generalize hresult : (removeClaudeBridge true (.file bytes)).2 = entry at hleft
  rw [remove_of_owned hat.isOwned] at hresult
  cases hleft with
  | stripped =>
      refine Or.inl ?_
      split at hresult
      · cases hresult
      · have hencode := Entry.file.inj hresult
        exact (decoded_leftText hat.segments_eq).eq_of_encode
          (decoded_strip _ (decoded_contentOf bytes)) hencode.symm
  | removed hblank =>
      refine Or.inr ⟨hblank, ?_⟩
      split at hresult
      · assumption
      · cases hresult

/-- Text that a byte order mark only shifts is made of byte order marks. -/
theorem eq_bom_of_shift {text front back : PointText} (h : bom :: (text ++ front) = text ++ back) :
    ∀ p ∈ text, p = bom := by
  induction text with
  | nil => exact fun _ h => absurd h List.not_mem_nil
  | cons p text ih =>
      rw [List.cons_append, List.cons_append] at h
      obtain ⟨rfl, htail⟩ := List.cons.inj h
      exact List.forall_mem_cons.mpr ⟨rfl, ih htail⟩

theorem not_blank_of_marker {front : List PointText} (back : List PointText)
    (hline : lineOf marker = bridgeMarkerLine) (hin : marker ∈ front) :
    isBlankPoints (front.flatten ++ back.flatten) = false := by
  by_contra hblank
  rw [Bool.not_eq_false, isBlankPoints_append, Bool.and_eq_true_iff] at hblank
  have hblankLine : isBlankLine marker = true := by
    refine isBlankPoints_iff.mpr fun p hp => ?_
    refine isBlankPoints_iff.mp hblank.1 p (List.mem_flatten.mpr ⟨marker, hin, ?_⟩)
    exact (List.takeWhile_sublist _).subset hp
  exact marker_not_taken (Or.inl hblankLine) hline

/-- The first marker is the one that is cut out, if the removal takes the bridge only. -/
theorem TakesBridgeOnly.ended (h : TakesBridgeOnly bytes)
    (hat : MarkerAt lineOf (segmentsOf (contentOf bytes)) before marker after) :
    bodyOf marker = bridgeMarkerLine := by
  obtain ⟨others, rest, rfl, hothers, -, -, hleft⟩ := h.owned before marker after hat
  by_contra hbody
  have hexotic : isExotic marker = true := by
    rw [isExotic, hat.line, beq_self_eq_true, Bool.true_and]
    exact bne_iff_ne.mpr hbody
  have hsegments := hat.segments_eq
  have hrest : segmentsOf (contentOf bytes) = (before ++ marker :: others) ++ rest := by
    rw [hsegments, List.append_assoc, List.cons_append]
  rcases Left.cases hat hleft with heq | ⟨-, hblank⟩
  · -- The cut leaves one such marker more than the removal may leave.
    have hcut := exoticCount_strip (contentOf bytes)
    have hcount : exoticCount (contentOf bytes) =
        exoticCount (before.flatten ++ rest.flatten) + 1 := by
      rw [exoticCount_append (ended_flatten hsegments), exoticCount, exoticCount, exoticCount,
        (segmentsOf_flatten hsegments).1, (segmentsOf_flatten hrest).2, hrest, List.countP_append,
        List.countP_append, List.countP_cons, hexotic, countP_exotic_taken hothers, if_pos rfl]
      omega
    rw [← heq] at hcut
    rcases leftText_cases bytes before rest with hplain | ⟨-, -, hmarked⟩
    · rw [hplain] at hcut
      omega
    · have hle := exoticCount_bom (before.flatten ++ rest.flatten)
      rw [hmarked] at hcut
      omega
  · have hflatten : (segmentsOf (contentOf bytes)).flatten = contentOf bytes :=
      LineCuts.flatten_cutAfter _
    rcases markerIndex_cases (fenced_bodyOf (contentOf bytes)) with
      ⟨hindex, -⟩ | ⟨before', marker', after', hat', hindex⟩
    · have hin : marker ∈ segmentsOf (contentOf bytes) := by
        rw [hsegments]
        exact List.mem_append_right _ (List.mem_cons_self ..)
      have hwhole := not_blank_of_marker [] hat.line hin
      rw [stripBridgeRegion_of_none hindex, ← hflatten] at hblank
      rw [List.flatten_nil, List.append_nil, hblank] at hwhole
      cases hwhole
    · rw [stripBridgeRegion_eq hat' hindex] at hblank
      have hsame := hsegments.symm.trans hat'.segments_eq
      have hshape' : ∃ line ending, Segment marker' line ending := by
        exact shape_of_eq hat'.segments_eq (List.mem_append_right _ (List.mem_cons_self ..))
      obtain ⟨line', ending', hsegment'⟩ := hshape'
      rcases List.append_eq_append_iff.mp hsame with ⟨mid, hbefore', hmid⟩ | ⟨mid, hbefore, hmid⟩
      · cases mid with
        | nil =>
            obtain ⟨rfl, -⟩ := List.cons.inj hmid
            exact hbody hat'.line
        | cons first mid =>
            obtain ⟨rfl, -⟩ := List.cons.inj hmid
            have hin : marker ∈ before' := by
              rw [hbefore']
              exact List.mem_append_right _ (List.mem_cons_self ..)
            have hnot := not_blank_of_marker (behind after') hat.line hin
            rw [hblank] at hnot
            cases hnot
      · cases mid with
        | nil =>
            obtain ⟨rfl, -⟩ := List.cons.inj hmid
            exact hbody hat'.line
        | cons first mid =>
            obtain ⟨rfl, -⟩ := List.cons.inj hmid
            refine hat.first ?_
            rw [hbefore]
            exact mem_activeLines_of_marker (fenced_lineOf before')
              (lineOf_of_bodyOf hsegment' hat'.line) hat'.outside

theorem TakesBridgeOnly.unmarked (h : TakesBridgeOnly bytes)
    (hat : MarkerAt lineOf (segmentsOf (contentOf bytes)) before marker after) (hbefore : before ≠ []) :
    bomOf bytes = [] := by
  have hended := h.ended hat
  obtain ⟨others, rest, rfl, -, -, -, hleft⟩ := h.owned before marker after hat
  rcases leftText_cases bytes before rest with hplain | ⟨-, hbom, hmarked⟩
  · rcases bomOf_cases bytes with hbom | hbom
    · exact hbom
    · -- The text is as long as without the byte order mark.
      have hlength := congrArg List.length hplain
      rw [leftText, if_neg hbefore, hbom, List.length_append, List.length_singleton] at hlength
      omega
  · exfalso
    rcases Left.cases hat hleft with heq | ⟨hblank, -⟩
    · rw [hmarked, stripBridgeRegion_of_ended hat hended] at heq
      have hall := eq_bom_of_shift heq
      rcases ended_flatten hat.segments_eq with hnil | ⟨inner, p, hflat, hbreak⟩
      · obtain ⟨first, more, rfl⟩ := List.exists_cons_of_ne_nil hbefore
        have hin : first ∈ segmentsOf (contentOf bytes) := by
          rw [hat.segments_eq]
          exact List.mem_cons_self ..
        have hfirst : first ≠ [] := LineCuts.ne_nil_of_mem_cutAfter hin
        rw [List.flatten_cons] at hnil
        exact hfirst (List.append_eq_nil_iff.mp hnil).1
      · have hp : p = bom := by
          refine hall p ?_
          rw [hflat]
          exact List.mem_append_right _ (List.mem_singleton_self p)
        rw [hp] at hbreak
        exact absurd hbreak (by decide)
    · rw [hmarked] at hblank
      have hspace := isBlankPoints_iff.mp hblank bom (List.mem_cons_self ..)
      exact absurd hspace (by decide)

theorem TakesBridgeOnly.unhidden (h : TakesBridgeOnly bytes)
    (hat : MarkerAt lineOf (segmentsOf (contentOf bytes)) [] marker after)
    (hone : markerCount (contentOf bytes) = 1) {kept : List PointText} (hbehind : Behind after kept)
    {text : PointText} (htext : kept.flatten = bom :: text) : isOwned text = false := by
  have hstrip : stripBridgeRegion (contentOf bytes) = bom :: text := by
    rw [stripBridgeRegion_of_ended hat (h.ended hat), ← hbehind.eq, htext]
    rfl
  have hnotBlank : isBlankPoints (bom :: text) = false := by
    by_contra hblank
    rw [Bool.not_eq_false] at hblank
    have hspace := isBlankPoints_iff.mp hblank bom (List.mem_cons_self ..)
    exact absurd hspace (by decide)
  have hresult := remove_of_owned hat.isOwned
  rw [hstrip, hnotBlank, if_neg Bool.false_ne_true] at hresult
  have hread : decode (encode (bom :: text)) = bom :: text := by
    rw [← hstrip]
    exact decoded_strip _ (decoded_contentOf bytes)
  have howned := h.single hone _ hresult
  rwa [contentOf, hread, stripBom, if_pos rfl] at howned

end Needed

/-! ## Exactly these files -/

/-- A removal takes the bridge and nothing else from these files only. -/
theorem bridge_removal_iff (bytes : Bytes) : TakesBridgeOnly bytes ↔ Removable bytes := by
  constructor
  · intro h
    exact ⟨fun before marker after hat => h.ended hat,
      fun before marker after hat hbefore => h.unmarked hat hbefore,
      fun marker after hat hone kept hbehind text htext => h.unhidden hat hone hbehind htext⟩
  · exact Removable.takesBridgeOnly

def lineSeparator : Point := .scalar '\u2028'

/-- The marker line, ended by a line separator. -/
def separatedMarker : Bytes :=
  encode (bridgeMarkerLine ++ [lineSeparator])

theorem separated_shape :
    Segment (bridgeMarkerLine ++ [lineSeparator]) bridgeMarkerLine [lineSeparator] :=
  .ended marker_plain (by decide)

theorem contentOf_separatedMarker :
    contentOf separatedMarker = bridgeMarkerLine ++ [lineSeparator] := by
  have hdecode : decode separatedMarker = bridgeMarkerLine ++ [lineSeparator] := by
    rw [separatedMarker, bridgeMarkerLine, ofChars, lineSeparator, ← List.map_singleton,
      ← List.map_append, decode_map_scalar]
  rw [contentOf, hdecode]
  exact stripBom_of_head? (by decide)

theorem segmentsOf_separatedMarker :
    segmentsOf (contentOf separatedMarker) = [bridgeMarkerLine ++ [lineSeparator]] := by
  have hinner : ∀ p ∈ bridgeMarkerLine, ∀ next, endsPointLine p next = false := by
    intro p hp next
    exact Bool.and_eq_false_iff.mpr (Or.inl (marker_plain p hp))
  rw [contentOf_separatedMarker, segmentsOf,
    LineCuts.cutAfter_unbroken_append hinner (List.cons_ne_nil _ _)]
  rfl

/-- It is taken for the bridge, and left where it is. -/
theorem separated_marker_left : ¬ TakesBridgeOnly separatedMarker := by
  intro h
  have hat : MarkerAt lineOf (segmentsOf (contentOf separatedMarker)) []
      (bridgeMarkerLine ++ [lineSeparator]) [] :=
    ⟨segmentsOf_separatedMarker, separated_shape.lineOf, rfl, List.not_mem_nil⟩
  have hbody := h.ended hat
  rw [bodyOf, List.rdropWhile_concat_neg _ _ _ (by decide)] at hbody
  exact List.cons_ne_nil _ _ (List.append_right_eq_self.mp hbody)

end ClaudeBridge
end Client
end Nauro
