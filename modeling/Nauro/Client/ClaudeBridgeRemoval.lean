import Nauro.Client.ClaudeBridgeLines

/-!
# What a removal of the bridge takes away

The first marker outside fenced code is found twice: among the lines of the file, which tell whether
it is owned, and among the bodies of its segments, which tell what is cut out.

* `stripBridgeRegion_of_ended` — where both readings find the same marker.
-/

namespace Nauro
namespace Client
namespace ClaudeBridge

open Foundation Foundation.EscapedUtf8
open Nauro.Core Nauro.Sync

/-! ## The first marker -/

/-- The fence that is open behind some lines. -/
def fenceBehind (lines : List PointText) : Option Fence :=
  lines.foldl (Fences.nextState opensFence closesFence) none

/-- The first segment outside fenced code whose view is the marker line. -/
structure MarkerAt (view : PointText → PointText) (segments before : List PointText)
    (marker : PointText) (after : List PointText) : Prop where
  segments_eq : segments = before ++ marker :: after
  line : view marker = bridgeMarkerLine
  outside : fenceBehind (before.map lineOf) = none
  first : bridgeMarkerLine ∉ activeLines (before.map view)

/-- A view of segments that has the fences of their lines. -/
def Fenced (view : PointText → PointText) (segments : List PointText) : Prop :=
  ∀ segment ∈ segments, fenceMarker (view segment) = fenceMarker (lineOf segment)

variable {view : PointText → PointText} {segments before after : List PointText} {marker : PointText}

theorem fenced_lineOf (segments : List PointText) : Fenced lineOf segments :=
  fun _ _ => rfl

theorem fenced_bodyOf (content : PointText) : Fenced bodyOf (segmentsOf content) := by
  intro segment hsegment
  obtain ⟨line, ending, hshape⟩ := segment_of_mem hsegment
  exact fenceMarker_bodyOf hshape

theorem Fenced.append {front back : List PointText} (h : Fenced view (front ++ back)) :
    Fenced view front ∧ Fenced view back :=
  ⟨fun segment hin => h segment (List.mem_append_left _ hin),
    fun segment hin => h segment (List.mem_append_right _ hin)⟩

theorem Fenced.fenceBehind (h : Fenced view segments) :
    fenceBehind (segments.map view) = fenceBehind (segments.map lineOf) := by
  have hstate : ∀ state, (segments.map view).foldl (Fences.nextState opensFence closesFence) state =
      (segments.map lineOf).foldl (Fences.nextState opensFence closesFence) state := by
    induction segments with
    | nil => exact fun _ => rfl
    | cons segment rest ih =>
        intro state
        obtain ⟨hsegment, hrest⟩ := List.forall_mem_cons.mp h
        have hnext : Fences.nextState opensFence closesFence state (view segment) =
            Fences.nextState opensFence closesFence state (lineOf segment) := by
          cases state with
          | none => exact congrArg (Option.map FenceMarker.fence) hsegment
          | some fence =>
              rw [Fences.nextState, Fences.nextState, closesFence, closesFence, hsegment]
        rw [List.map_cons, List.map_cons, List.foldl_cons, List.foldl_cons, hnext]
        exact ih hrest _
  exact hstate none

theorem activeLines_append (front back : List PointText) :
    activeLines (front ++ back) =
      activeLines front ++ Fences.activeLines opensFence closesFence (fenceBehind front) back :=
  Fences.activeLines_append none front back

theorem opensFence_marker : opensFence bridgeMarkerLine = none := by
  decide +kernel

/-- A marker line outside fenced code is active. -/
theorem activeLines_marker (back : List PointText) :
    Fences.activeLines opensFence closesFence none (bridgeMarkerLine :: back) =
      bridgeMarkerLine :: activeLines back := by
  have hactive : Fences.isActive opensFence none bridgeMarkerLine = true := by
    rw [Fences.isActive, opensFence_marker]
    rfl
  have hnext : Fences.nextState opensFence closesFence none bridgeMarkerLine = none :=
    opensFence_marker
  rw [Fences.activeLines, if_pos hactive, hnext]
  rfl

/-- A marker outside fenced code is found in every longer text. -/
theorem mem_activeLines_of_marker {more : List PointText} (hfenced : Fenced view before)
    (hline : view marker = bridgeMarkerLine) (houtside : fenceBehind (before.map lineOf) = none) :
    bridgeMarkerLine ∈ activeLines ((before ++ marker :: more).map view) := by
  rw [List.map_append, List.map_cons, activeLines_append, hfenced.fenceBehind, houtside, hline,
    activeLines_marker]
  exact List.mem_append_right _ (List.mem_cons_self ..)

/-- Where the first marker of a view is. -/
theorem markerIndex_cases (hfenced : Fenced view segments) :
    (markerIndex (segments.map view) = none ∧ bridgeMarkerLine ∉ activeLines (segments.map view)) ∨
      ∃ before marker after, MarkerAt view segments before marker after ∧
        markerIndex (segments.map view) = some before.length := by
  rcases @Fences.findIdx?_activeFlags PointText Fence opensFence closesFence
      (fun line => line == bridgeMarkerLine) none (segments.map view) with
    ⟨hnone, hrest⟩ | ⟨front, line, back, hsplit, hindex, hline, hactive, hfirst⟩
  · refine Or.inl ⟨hnone, fun hin => ?_⟩
    have hfalse := hrest _ hin
    rw [beq_self_eq_true] at hfalse
    cases hfalse
  · obtain ⟨before, rest, rfl, rfl, hrest⟩ := List.map_eq_append_iff.mp hsplit
    obtain ⟨marker, after, rfl, rfl, rfl⟩ := List.map_eq_cons_iff.mp hrest
    refine Or.inr ⟨before, marker, after, ⟨rfl, beq_iff_eq.mp hline, ?_, fun hin => ?_⟩, ?_⟩
    · have hstate := (Bool.and_eq_true_iff.mp hactive).1
      rw [← hfenced.append.1.fenceBehind]
      exact Option.isNone_iff_eq_none.mp hstate
    · have hfalse := hfirst _ hin
      rw [beq_self_eq_true] at hfalse
      cases hfalse
    · rw [List.length_map] at hindex
      exact hindex

/-- There is one first marker. -/
theorem MarkerAt.unique {before' after' : List PointText} {marker' : PointText}
    (hfenced : Fenced view segments) (h : MarkerAt view segments before marker after)
    (h' : MarkerAt view segments before' marker' after') :
    before = before' ∧ marker = marker' ∧ after = after' := by
  have heq := h.segments_eq.symm.trans h'.segments_eq
  have hfencedBefore := (h.segments_eq ▸ hfenced : Fenced view (before ++ marker :: after)).append.1
  have hfencedBefore' :=
    (h'.segments_eq ▸ hfenced : Fenced view (before' ++ marker' :: after')).append.1
  rcases List.append_eq_append_iff.mp heq with ⟨mid, hbefore', hrest⟩ | ⟨mid, hbefore, hrest⟩
  · cases mid with
    | nil =>
        rw [List.append_nil] at hbefore'
        obtain ⟨rfl, rfl⟩ := List.cons.inj hrest
        exact ⟨hbefore'.symm, rfl, rfl⟩
    | cons first mid =>
        obtain ⟨rfl, -⟩ := List.cons.inj hrest
        refine absurd ?_ h'.first
        rw [hbefore']
        exact mem_activeLines_of_marker hfencedBefore h.line h.outside
  · cases mid with
    | nil =>
        rw [List.append_nil] at hbefore
        obtain ⟨rfl, rfl⟩ := List.cons.inj hrest
        exact ⟨hbefore, rfl, rfl⟩
    | cons first mid =>
        obtain ⟨rfl, -⟩ := List.cons.inj hrest
        refine absurd ?_ h.first
        rw [hbefore]
        exact mem_activeLines_of_marker hfencedBefore' h'.line h'.outside

/-- A file is owned when a marker line stands outside its fenced code. -/
theorem isOwned_iff {content : PointText} :
    isOwned content = true ↔ bridgeMarkerLine ∈ activeLines (linesOf content) := by
  rw [isOwned, linesOf]
  rcases markerIndex_cases (fenced_lineOf (segmentsOf content)) with
    ⟨hnone, hnot⟩ | ⟨before, marker, after, hat, hindex⟩
  · rw [hnone]
    exact ⟨fun h => (by cases h), fun h => absurd h hnot⟩
  · rw [hindex]
    refine ⟨fun _ => ?_, fun _ => rfl⟩
    rw [hat.segments_eq]
    exact mem_activeLines_of_marker (fenced_lineOf before) hat.line hat.outside

/-! ## What is cut out -/

def isBlankLine (segment : PointText) : Bool :=
  isBlankPoints (lineOf segment)

def isImportLine (segment : PointText) : Bool :=
  stripPoints (lineOf segment) == bridgeImport

theorem stripPoints_concat {p : Point} (h : isSpacePoint p = true) (line : PointText) :
    stripPoints (line ++ [p]) = stripPoints line := by
  have hpad : ∀ q ∈ [p], isSpacePoint q = true := List.forall_mem_singleton.mpr h
  exact Trim.trim_append_right hpad line

theorem stripPoints_bodyOf {segment line ending : PointText} (h : Segment segment line ending) :
    stripPoints (bodyOf segment) = stripPoints (lineOf segment) := by
  rw [h.lineOf]
  rcases h.bodyOf with hbody | ⟨p, hp, -, hbody⟩
  · rw [hbody]
  · rw [hbody]
    exact stripPoints_concat (isSpacePoint_of_break (Bool.and_eq_true_iff.mp hp).1) line

/-- The segments behind the bridge, of those behind its marker. -/
def behind (after : List PointText) : List PointText :=
  match after.dropWhile isBlankLine with
  | [] => after
  | segment :: rest => if isImportLine segment then rest else after

/-- The segments behind the bridge: the import goes with the marker, and the blank lines in front of
it, where it is the first line that is not blank. -/
inductive Behind : List PointText → List PointText → Prop
  | imported {blanks rest : List PointText} {segment : PointText}
      (hblanks : ∀ blank ∈ blanks, isBlankLine blank = true) (himport : isImportLine segment = true) :
      Behind (blanks ++ segment :: rest) rest
  | alone {after : List PointText}
      (hnone : ∀ blanks segment rest, after = blanks ++ segment :: rest →
        (∀ blank ∈ blanks, isBlankLine blank = true) → isImportLine segment = false) :
      Behind after after

theorem not_blank_of_import {segment : PointText} (h : isImportLine segment = true) :
    isBlankLine segment = false := by
  rw [isImportLine, beq_iff_eq] at h
  by_contra hblank
  rw [Bool.not_eq_false, isBlankLine, isBlankPoints, h] at hblank
  exact absurd hblank (by decide)

theorem dropWhile_blanks {blanks rest : List PointText} {segment : PointText}
    (hblanks : ∀ blank ∈ blanks, isBlankLine blank = true) (hsegment : isBlankLine segment = false) :
    (blanks ++ segment :: rest).dropWhile isBlankLine = segment :: rest := by
  rw [List.dropWhile_append_of_pos hblanks, List.dropWhile_cons, hsegment]
  rfl

theorem behind_of_imported {blanks rest : List PointText} {segment : PointText}
    (hblanks : ∀ blank ∈ blanks, isBlankLine blank = true) (himport : isImportLine segment = true) :
    behind (blanks ++ segment :: rest) = rest := by
  rw [behind, dropWhile_blanks hblanks (not_blank_of_import himport)]
  exact if_pos himport

theorem Behind.eq {after rest : List PointText} (h : Behind after rest) : rest = behind after := by
  cases h with
  | imported hblanks himport => exact (behind_of_imported hblanks himport).symm
  | alone hnone =>
      have hsplit := List.takeWhile_append_dropWhile (p := isBlankLine) (l := after)
      rw [behind]
      cases hdrop : after.dropWhile isBlankLine with
      | nil => rfl
      | cons segment rest =>
          rw [hdrop] at hsplit
          have himport := hnone _ segment rest hsplit.symm fun blank hin => List.mem_takeWhile_imp hin
          simp only
          rw [himport, if_neg Bool.false_ne_true]

theorem behind_spec (after : List PointText) : Behind after (behind after) := by
  by_cases himported : ∃ blanks segment rest, after = blanks ++ segment :: rest ∧
      (∀ blank ∈ blanks, isBlankLine blank = true) ∧ isImportLine segment = true
  · obtain ⟨blanks, segment, rest, rfl, hblanks, himport⟩ := himported
    rw [behind_of_imported hblanks himport]
    exact .imported hblanks himport
  · have halone : Behind after after := by
      refine .alone fun blanks segment rest hsplit hblanks => ?_
      by_contra himport
      exact himported ⟨blanks, segment, rest, hsplit, hblanks, (Bool.not_eq_false _).mp himport⟩
    rw [← halone.eq]
    exact halone

theorem isBlankPoints_bodyOf {segment line ending : PointText} (h : Segment segment line ending) :
    isBlankPoints (bodyOf segment) = isBlankLine segment := by
  rw [isBlankPoints, stripPoints_bodyOf h]
  rfl

theorem length_takeWhile_bodies {segments : List PointText}
    (h : ∀ segment ∈ segments, ∃ line ending, Segment segment line ending) :
    ((segments.map bodyOf).takeWhile isBlankPoints).length =
      (segments.takeWhile isBlankLine).length := by
  induction segments with
  | nil => rfl
  | cons segment rest ih =>
      obtain ⟨⟨line, ending, hshape⟩, hrest⟩ := List.forall_mem_cons.mp h
      rw [List.map_cons, List.takeWhile_cons, List.takeWhile_cons, isBlankPoints_bodyOf hshape]
      split
      · rw [List.length_cons, List.length_cons, ih hrest]
      · rfl

theorem drop_length_takeWhile (segments : List PointText) :
    segments.drop (segments.takeWhile isBlankLine).length = segments.dropWhile isBlankLine := by
  induction segments with
  | nil => rfl
  | cons segment rest ih =>
      rw [List.takeWhile_cons, List.dropWhile_cons]
      split
      · exact ih
      · rfl

/-- The end of the bridge is where the segments behind it begin. -/
theorem drop_bridgeEnd {before after : List PointText} {marker : PointText}
    (h : ∀ segment ∈ after, ∃ line ending, Segment segment line ending) :
    (before ++ marker :: after).drop
        (bridgeEnd ((before ++ marker :: after).map bodyOf) before.length) = behind after := by
  have hmarker : (before ++ marker :: after).drop (before.length + 1) = after := by
    rw [← List.drop_drop, List.drop_left]
    rfl
  have hbodies : ((before ++ marker :: after).map bodyOf).drop (before.length + 1) =
      after.map bodyOf := by
    rw [← List.map_drop, hmarker]
  have hblanks := drop_length_takeWhile after
  have hprobe : ((before ++ marker :: after).map bodyOf)[before.length + 1 +
      (after.takeWhile isBlankLine).length]? = (after.dropWhile isBlankLine).head?.map bodyOf := by
    rw [← List.getElem?_drop, hbodies, List.getElem?_map, ← hblanks, List.head?_eq_getElem?,
      List.getElem?_drop, Nat.add_zero]
  unfold bridgeEnd
  rw [hbodies, length_takeWhile_bodies h]
  dsimp only
  rw [hprobe, behind]
  cases hdrop : after.dropWhile isBlankLine with
  | nil => exact hmarker
  | cons segment rest =>
      rw [hdrop] at hblanks
      have hmem : segment ∈ after := by
        refine (List.dropWhile_sublist isBlankLine).subset ?_
        rw [hdrop]
        exact List.mem_cons_self ..
      obtain ⟨line, ending, hshape⟩ := h segment hmem
      have himport : (stripPoints (bodyOf segment) == bridgeImport) = isImportLine segment := by
        rw [stripPoints_bodyOf hshape]
        rfl
      simp only [List.head?_cons, Option.map_some, Option.any_some, himport]
      by_cases hyes : isImportLine segment = true
      · rw [if_pos hyes, if_pos hyes, Nat.add_assoc, ← List.drop_drop, hmarker, ← List.drop_drop,
          hblanks]
        rfl
      · rw [if_neg hyes, if_neg hyes, hmarker]

/-- What is left of a text whose bodies have a marker. -/
theorem stripBridgeRegion_eq {content marker : PointText} {before after : List PointText}
    (h : MarkerAt bodyOf (segmentsOf content) before marker after)
    (hindex : markerIndex ((segmentsOf content).map bodyOf) = some before.length) :
    stripBridgeRegion content = before.flatten ++ (behind after).flatten := by
  have hshape : ∀ segment ∈ after, ∃ line ending, Segment segment line ending := by
    intro segment hin
    have hsegment : segment ∈ segmentsOf content := by
      rw [h.segments_eq]
      exact List.mem_append_right _ (List.mem_cons_of_mem _ hin)
    exact segment_of_mem hsegment
  unfold stripBridgeRegion
  dsimp only
  rw [hindex, h.segments_eq]
  simp only
  rw [List.take_left, drop_bridgeEnd hshape, List.flatten_append]

theorem stripBridgeRegion_of_none {content : PointText}
    (hindex : markerIndex ((segmentsOf content).map bodyOf) = none) :
    stripBridgeRegion content = content := by
  unfold stripBridgeRegion
  dsimp only
  rw [hindex]

/-! ## The text of a file -/


/-- The text of a file, without a byte order mark in front of it. -/
def contentOf (bytes : Bytes) : PointText :=
  stripBom (decode bytes)

/-- The byte order mark in front of a file. -/
def bomOf (bytes : Bytes) : PointText :=
  if (decode bytes).head? = some bom then [bom] else []

/-- The number of markers outside fenced code. -/
def markerCount (content : PointText) : Nat :=
  (activeLines (linesOf content)).count bridgeMarkerLine

/-! ## Markers of a text without its bridge -/

theorem isOwned_eq_false_iff {content : PointText} : isOwned content = false ↔ markerCount content = 0 := by
  rw [markerCount, List.count_eq_zero, ← Bool.not_eq_true, isOwned_iff]

theorem segmentsOf_flatten {content : PointText} {front back : List PointText}
    (h : segmentsOf content = front ++ back) :
    segmentsOf front.flatten = front ∧ segmentsOf back.flatten = back :=
  LineCuts.cutAfter_flatten (fun _ _ => ends_none_of_ends) h

/-- Segments that others follow are whole lines. -/
theorem ended_flatten {content segment : PointText} {front back : List PointText}
    (h : segmentsOf content = front ++ segment :: back) : Ended front.flatten := by
  rcases List.eq_nil_or_concat front with rfl | ⟨init, last, rfl⟩
  · exact Or.inl rfl
  · rw [List.concat_eq_append] at h ⊢
    obtain ⟨inner, p, next, rfl, hends⟩ := LineCuts.cutAfter_front h last
      (List.mem_append_right _ (List.mem_singleton_self _))
    refine Or.inr ⟨init.flatten ++ inner, p, ?_, isBreak_of_ends hends⟩
    rw [List.flatten_append, List.flatten_singleton, List.append_assoc]

theorem fenceMarker_nil : fenceMarker [] = none := by
  decide

theorem nextState_nil (state : Option Fence) :
    Fences.nextState opensFence closesFence state [] = state := by
  cases state with
  | none => exact congrArg (Option.map FenceMarker.fence) fenceMarker_nil
  | some fence =>
      rw [Fences.nextState, closesFence, fenceMarker_nil]
      rfl

/-- An empty line is no marker, and opens and closes nothing. -/
theorem count_activeLines_nil (state : Option Fence) (lines : List PointText) :
    (Fences.activeLines opensFence closesFence state ([] :: lines)).count bridgeMarkerLine =
      (Fences.activeLines opensFence closesFence state lines).count bridgeMarkerLine := by
  rw [Fences.activeLines, nextState_nil]
  split
  · exact List.count_cons_of_ne (by decide)
  · rfl

/-- The markers of two texts that are put together. -/
theorem markerCount_append {front : PointText} (hfront : Ended front) (back : PointText) :
    markerCount (front ++ back) = markerCount front +
      (Fences.activeLines opensFence closesFence (fenceBehind (linesOf front))
        (linesOf back)).count bridgeMarkerLine := by
  obtain ⟨extra, rest, hextra, hback, hwhole⟩ := linesOf_append hfront back
  rw [markerCount, hwhole, activeLines_append, List.count_append, markerCount, hback]
  congr 1
  rcases hextra with rfl | rfl
  · rfl
  · exact (count_activeLines_nil _ rest).symm

/-! ## Both readings of a marker -/

theorem marker_plain : ∀ p ∈ bridgeMarkerLine, isBreakPoint p = false := by
  have hall : (bridgeMarkerLine.all fun p => !isBreakPoint p) = true := by decide +kernel
  intro p hp
  have hplain := List.all_eq_true.mp hall p hp
  rwa [Bool.not_eq_true'] at hplain

/-- A body that is the marker line is the line of its segment. -/
theorem lineOf_of_bodyOf {segment line ending : PointText} (h : Segment segment line ending)
    (hbody : bodyOf segment = bridgeMarkerLine) : lineOf segment = bridgeMarkerLine := by
  rw [h.lineOf]
  rcases h.bodyOf with heq | ⟨p, hp, -, heq⟩
  · exact heq.symm.trans hbody
  · have hin : p ∈ bridgeMarkerLine := by
      rw [← hbody, heq]
      exact List.mem_append_right _ (List.mem_singleton_self p)
    have hplain := marker_plain p hin
    rw [(Bool.and_eq_true_iff.mp hp).1] at hplain
    cases hplain

section Readings

variable {content : PointText}

theorem shape_of_eq {segment : PointText} (h : segmentsOf content = before ++ marker :: after)
    (hin : segment ∈ before ++ marker :: after) : ∃ line ending, Segment segment line ending :=
  segment_of_mem (h ▸ hin)

/-- The marker of the bodies is a marker of the lines. -/
theorem mem_lines_of_bodies (h : segmentsOf content = before ++ marker :: after)
    (hin : bridgeMarkerLine ∈ activeLines (before.map bodyOf)) :
    bridgeMarkerLine ∈ activeLines (before.map lineOf) := by
  have hfenced : Fenced bodyOf before := (h ▸ fenced_bodyOf content : Fenced bodyOf _).append.1
  rcases markerIndex_cases hfenced with ⟨-, hnot⟩ | ⟨front, segment, back, hat, -⟩
  · exact absurd hin hnot
  · have hsegment : segment ∈ before ++ marker :: after := by
      rw [hat.segments_eq]
      exact List.mem_append_left _ (List.mem_append_right _ (List.mem_cons_self ..))
    obtain ⟨line, ending, hshape⟩ := shape_of_eq h hsegment
    rw [hat.segments_eq]
    exact mem_activeLines_of_marker (fenced_lineOf front) (lineOf_of_bodyOf hshape hat.line) hat.outside

/-- Where the first marker line has no other line break, the bridge is cut out behind it. -/
theorem MarkerAt.toBody (h : MarkerAt lineOf (segmentsOf content) before marker after)
    (hbody : bodyOf marker = bridgeMarkerLine) :
    MarkerAt bodyOf (segmentsOf content) before marker after :=
  ⟨h.segments_eq, hbody, h.outside, fun hin => h.first (mem_lines_of_bodies h.segments_eq hin)⟩

theorem stripBridgeRegion_of_ended (h : MarkerAt lineOf (segmentsOf content) before marker after)
    (hbody : bodyOf marker = bridgeMarkerLine) :
    stripBridgeRegion content = before.flatten ++ (behind after).flatten := by
  have hat := h.toBody hbody
  rcases markerIndex_cases (fenced_bodyOf content) with
    ⟨-, hnot⟩ | ⟨before', marker', after', hat', hindex⟩
  · refine absurd ?_ hnot
    have hfenced : Fenced bodyOf before :=
      (h.segments_eq ▸ fenced_bodyOf content : Fenced bodyOf _).append.1
    rw [h.segments_eq]
    exact mem_activeLines_of_marker hfenced hbody h.outside
  · obtain ⟨rfl, rfl, rfl⟩ := hat.unique (fenced_bodyOf content) hat'
    exact stripBridgeRegion_eq hat hindex

end Readings

/-! ## The lines that go with the marker -/

theorem fenceMarker_of_not_mem {line : PointText} (hbacktick : .scalar backtick ∉ line)
    (htilde : .scalar '~' ∉ line) : fenceMarker line = none := by
  have hopener : ∀ (a : Point) (n : Nat), a ∉ line →
      ¬ (List.replicate 3 a).isPrefixOf (line.drop n) = true := by
    intro a n hnot hopener
    obtain ⟨more, hmore⟩ := List.isPrefixOf_iff_prefix.mp hopener
    refine hnot (List.mem_of_mem_drop (i := n) ?_)
    rw [← hmore]
    exact List.mem_append_left _ (List.mem_replicate.mpr ⟨by decide, rfl⟩)
  unfold fenceMarker
  dsimp only
  rw [if_neg (hopener _ _ hbacktick), if_neg (hopener _ _ htilde), ite_self]

theorem mem_stripPoints {line : PointText} {p : Point} (hspace : isSpacePoint p = false)
    (hin : p ∈ line) : p ∈ stripPoints line := by
  obtain ⟨front, back, hline, hfront, hback⟩ := Trim.exists_trim (p := isSpacePoint) line
  have hother : isSpacePoint p ≠ true := by
    rw [hspace]
    exact Bool.false_ne_true
  rw [hline, List.mem_append, List.mem_append] at hin
  rcases hin with hin | hin | hin
  · exact absurd (hfront p hin) hother
  · exact hin
  · exact absurd (hback p hin) hother

/-- A line whose text has no fence characters opens no fence. -/
theorem opensFence_of_strip {line : PointText} (hbacktick : .scalar backtick ∉ stripPoints line)
    (htilde : .scalar '~' ∉ stripPoints line) : opensFence line = none := by
  have hmarker := fenceMarker_of_not_mem (mt (mem_stripPoints (by decide)) hbacktick)
    (mt (mem_stripPoints (by decide)) htilde)
  exact congrArg (Option.map FenceMarker.fence) hmarker

theorem opensFence_blank {segment : PointText} (h : isBlankLine segment = true) :
    opensFence (lineOf segment) = none := by
  have hstrip : stripPoints (lineOf segment) = [] := List.isEmpty_iff.mp h
  refine opensFence_of_strip ?_ ?_
  · rw [hstrip]
    exact List.not_mem_nil
  · rw [hstrip]
    exact List.not_mem_nil

theorem opensFence_import {segment : PointText} (h : isImportLine segment = true) :
    opensFence (lineOf segment) = none := by
  have hstrip : stripPoints (lineOf segment) = bridgeImport := beq_iff_eq.mp h
  refine opensFence_of_strip ?_ ?_
  · rw [hstrip]
    decide
  · rw [hstrip]
    decide

theorem marker_angle : .scalar '<' ∈ stripPoints bridgeMarkerLine :=
  mem_stripPoints (by decide) (List.mem_cons_self ..)

/-- No line that goes with the marker is another marker. -/
theorem marker_not_taken {segment : PointText}
    (h : isBlankLine segment = true ∨ isImportLine segment = true) :
    lineOf segment ≠ bridgeMarkerLine := by
  intro hline
  have hangle := marker_angle
  rw [← hline] at hangle
  rcases h with hblank | himport
  · have hnil : stripPoints (lineOf segment) = [] := List.isEmpty_iff.mp hblank
    rw [hnil] at hangle
    cases hangle
  · have himported : stripPoints (lineOf segment) = bridgeImport := beq_iff_eq.mp himport
    rw [himported] at hangle
    exact absurd hangle (by decide)

/-- The lines between the marker and what is kept. -/
theorem Behind.taken (h : Behind after rest) : ∃ others, after = others ++ rest ∧
    (∀ other ∈ others, isBlankLine other = true ∨ isImportLine other = true) ∧
    others.countP isImportLine ≤ 1 := by
  cases h with
  | @imported blanks rest segment hblanks himport =>
      refine ⟨blanks ++ [segment], (List.append_cons ..), ?_, ?_⟩
      · refine List.forall_mem_append.mpr ⟨fun blank hin => Or.inl (hblanks blank hin), ?_⟩
        exact List.forall_mem_singleton.mpr (Or.inr himport)
      · have hnone : blanks.countP isImportLine = 0 := by
          refine List.countP_eq_zero.mpr fun blank hin himported => ?_
          exact absurd ((hblanks blank hin).symm.trans (not_blank_of_import himported)) (by decide)
        rw [List.countP_append, hnone, Nat.zero_add]
        exact List.countP_le_length
  | alone => exact ⟨[], rfl, fun _ h => absurd h List.not_mem_nil, Nat.zero_le _⟩

theorem opensFence_taken {others : List PointText}
    (h : ∀ other ∈ others, isBlankLine other = true ∨ isImportLine other = true) :
    ∀ line ∈ others.map lineOf, opensFence line = none := by
  refine List.forall_mem_map.mpr fun other hin => ?_
  rcases h other hin with hblank | himport
  · exact opensFence_blank hblank
  · exact opensFence_import himport

/-- The active lines of a text whose first marker is known. -/
theorem activeLines_split {others rest : List PointText}
    (h : MarkerAt lineOf segments before marker (others ++ rest))
    (hothers : ∀ other ∈ others, isBlankLine other = true ∨ isImportLine other = true) :
    activeLines ((before ++ marker :: others).map lineOf) =
        activeLines (before.map lineOf) ++ (marker :: others).map lineOf ∧
      activeLines (segments.map lineOf) = activeLines (before.map lineOf) ++
        ((marker :: others).map lineOf ++ activeLines (rest.map lineOf)) := by
  have hplain : ∀ line ∈ (marker :: others).map lineOf, opensFence line = none := by
    refine List.forall_mem_cons.mpr ⟨?_, opensFence_taken hothers⟩
    rw [h.line]
    exact opensFence_marker
  obtain ⟨hactive, hstate⟩ := @Fences.activeLines_of_plain _ _ _ closesFence _ hplain
  constructor
  · rw [List.map_append, activeLines_append, h.outside, hactive]
  · have hsegments : segments = before ++ ((marker :: others) ++ rest) := h.segments_eq
    rw [hsegments, List.map_append, activeLines_append, h.outside, List.map_append,
      Fences.activeLines_append, hactive, hstate]
    rfl

end ClaudeBridge
end Client
end Nauro
