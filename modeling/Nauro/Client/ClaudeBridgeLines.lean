import Nauro.Client.ClaudeBridge

/-!
# The lines of a bridged file

Ownership is read off the lines of a file, and the bridge is cut from its segments, which keep their
line ends. A segment without the line feeds and carriage returns behind it is its line, unless the
line is ended by one of the other line breaks.

* `segmentsOf_append`, `linesOf_append` — texts put together behind a line break.
-/

namespace Nauro
namespace Client
namespace ClaudeBridge

open Foundation Foundation.EscapedUtf8
open Nauro.Core Nauro.Sync

/-! ## Segments -/

/-- A line without breaks, and what ends it. -/
inductive Segment : PointText → PointText → PointText → Prop
  | unended {line : PointText} (hline : ∀ p ∈ line, isBreakPoint p = false) : Segment line line []
  | ended {line : PointText} {p : Point} (hline : ∀ p ∈ line, isBreakPoint p = false)
      (hbreak : isBreakPoint p = true) : Segment (line ++ [p]) line [p]
  | endedByPair {line : PointText} (hline : ∀ p ∈ line, isBreakPoint p = false) :
      Segment (line ++ [carriageReturn, newline]) line [carriageReturn, newline]

theorem Segment.line_plain {segment line ending : PointText} (h : Segment segment line ending) :
    ∀ p ∈ line, isBreakPoint p = false := by
  cases h with
  | unended hline => exact hline
  | ended hline hbreak => exact hline
  | endedByPair hline => exact hline

theorem Segment.eq {segment line ending : PointText} (h : Segment segment line ending) :
    segment = line ++ ending := by
  cases h with
  | unended hline => exact (List.append_nil _).symm
  | ended hline hbreak => rfl
  | endedByPair hline => rfl

/-- A point that does not end a line may stand in front of it. -/
theorem Segment.cons {p : Point} {segment line ending : PointText} (hp : isBreakPoint p = false)
    (h : Segment segment line ending) : Segment (p :: segment) (p :: line) ending := by
  have hplain : ∀ q ∈ p :: line, isBreakPoint q = false :=
    List.forall_mem_cons.mpr ⟨hp, h.line_plain⟩
  cases h with
  | unended hline => exact .unended hplain
  | ended hline hbreak => exact .ended hplain hbreak
  | endedByPair hline => exact .endedByPair hplain

theorem endsPointLine_newline (next : Option Point) : endsPointLine newline next = true := by
  cases next <;> rfl

theorem isBreak_of_ends {p : Point} {next : Option Point} (h : endsPointLine p next = true) :
    isBreakPoint p = true :=
  (Bool.and_eq_true_iff.mp h).1

theorem ends_none_of_break {p : Point} (h : isBreakPoint p = true) : endsPointLine p none = true := by
  rw [endsPointLine, h]
  simp

theorem ends_none_of_ends {p : Point} {next : Option Point} (h : endsPointLine p next = true) :
    endsPointLine p none = true :=
  ends_none_of_break (isBreak_of_ends h)

/-- A break that ends no line is a carriage return before a newline. -/
theorem pair_of_not_ends {p : Point} {next : Option Point} (hbreak : isBreakPoint p = true)
    (h : endsPointLine p next = false) : p = carriageReturn ∧ next = some newline := by
  rw [endsPointLine, hbreak, Bool.true_and, Bool.not_eq_false', Bool.and_eq_true_iff] at h
  exact ⟨beq_iff_eq.mp h.1, beq_iff_eq.mp h.2⟩

theorem segment_of_mem {content segment : PointText} (h : segment ∈ segmentsOf content) :
    ∃ line ending, Segment segment line ending := by
  induction content generalizing segment with
  | nil => cases h
  | cons p rest ih =>
      rw [segmentsOf] at h
      by_cases hends : endsPointLine p rest.head? = true
      · rw [LineCuts.cutAfter_cons_end hends] at h
        rcases List.mem_cons.mp h with rfl | hin
        · have hnil : ∀ q ∈ ([] : PointText), isBreakPoint q = false :=
            fun _ h => absurd h List.not_mem_nil
          exact ⟨[], [p], .ended hnil (isBreak_of_ends hends)⟩
        · exact ih hin
      · rw [Bool.not_eq_true] at hends
        cases hrest : LineCuts.cutAfter endsPointLine rest with
        | nil =>
            have hnil : rest = [] := LineCuts.cutAfter_eq_nil.mp hrest
            subst hnil
            have hplain : isBreakPoint p = false := by
              by_contra hbreak
              have hend := ends_none_of_break ((Bool.not_eq_false _).mp hbreak)
              exact absurd (hends.symm.trans hend) Bool.false_ne_true
            rw [LineCuts.cutAfter, hends, hrest] at h
            rw [List.mem_singleton.mp h]
            exact ⟨[p], [], .unended (List.forall_mem_singleton.mpr hplain)⟩
        | cons first others =>
            rw [LineCuts.cutAfter_cons_inner hends hrest] at h
            have hfirst : first ∈ segmentsOf rest := by
              rw [segmentsOf, hrest]
              exact List.mem_cons_self ..
            rcases List.mem_cons.mp h with rfl | hin
            · by_cases hbreak : isBreakPoint p = true
              · -- The pair of a carriage return and a newline ends one line together.
                obtain ⟨rfl, hnext⟩ := pair_of_not_ends hbreak hends
                obtain ⟨tail, rfl⟩ := List.head?_eq_some_iff.mp hnext
                rw [LineCuts.cutAfter_cons_end (endsPointLine_newline _)] at hrest
                obtain ⟨rfl, -⟩ := List.cons.inj hrest
                have hnil : ∀ q ∈ ([] : PointText), isBreakPoint q = false :=
                  fun _ h => absurd h List.not_mem_nil
                exact ⟨[], _, .endedByPair hnil⟩
              · rw [Bool.not_eq_true] at hbreak
                obtain ⟨line, ending, hsegment⟩ := ih hfirst
                exact ⟨p :: line, ending, hsegment.cons hbreak⟩
            · refine ih ?_
              rw [segmentsOf, hrest]
              exact List.mem_cons_of_mem _ hin

theorem Segment.lineOf {segment line ending : PointText} (h : Segment segment line ending) :
    lineOf segment = line := by
  have hpass : ∀ p ∈ line, (!isBreakPoint p) = true := by
    intro p hp
    rw [h.line_plain p hp]
    rfl
  rw [h.eq, ClaudeBridge.lineOf, List.takeWhile_append_of_pos hpass]
  cases h with
  | unended hline => exact List.append_nil _
  | ended hline hbreak =>
      rw [List.takeWhile_cons, hbreak]
      exact List.append_nil _
  | endedByPair hline => exact List.append_nil _

/-- A break that is no carriage return and no newline. -/
def isOtherBreak (p : Point) : Bool :=
  isBreakPoint p && !isFeed p

theorem bodyOf_plain {line : PointText} (hline : ∀ p ∈ line, isBreakPoint p = false) :
    bodyOf line = line := by
  refine Trim.rdropWhile_eq_self fun p hp => ?_
  have hplain := hline p (List.mem_of_getLast? hp)
  rw [isFeed, Bool.or_eq_false_iff]
  constructor
  · refine beq_eq_false_iff_ne.mpr ?_
    rintro rfl
    exact absurd hplain (by decide)
  · refine beq_eq_false_iff_ne.mpr ?_
    rintro rfl
    exact absurd hplain (by decide)

/-- The body of a segment is its line, or its line with the break that ends it. -/
theorem Segment.bodyOf {segment line ending : PointText} (h : Segment segment line ending) :
    bodyOf segment = line ∨
      ∃ p, isOtherBreak p = true ∧ segment = line ++ [p] ∧ bodyOf segment = line ++ [p] := by
  cases h with
  | unended hline => exact Or.inl (bodyOf_plain hline)
  | @ended line p hline hbreak =>
      by_cases hplain : isFeed p = true
      · refine Or.inl ?_
        rw [ClaudeBridge.bodyOf, List.rdropWhile_concat_pos _ _ _ hplain]
        exact bodyOf_plain hline
      · refine Or.inr ⟨p, ?_, rfl, ?_⟩
        · rw [isOtherBreak, hbreak, Bool.true_and, Bool.not_eq_true']
          exact (Bool.not_eq_true _).mp hplain
        · exact List.rdropWhile_concat_neg _ _ _ hplain
  | endedByPair hline =>
      refine Or.inl ?_
      have hsplit : line ++ [carriageReturn, newline] = (line ++ [carriageReturn]) ++ [newline] := by
        simp
      rw [hsplit, ClaudeBridge.bodyOf, List.rdropWhile_concat_pos _ _ _ (by decide),
        List.rdropWhile_concat_pos _ _ _ (by decide)]
      exact bodyOf_plain hline

/-! ## Fences -/

theorem takeWhile_concat_of_neg {α : Type} {f : α → Bool} {a : α} (h : f a = false) (xs : List α) :
    (xs ++ [a]).takeWhile f = xs.takeWhile f := by
  induction xs with
  | nil => rw [List.nil_append, List.takeWhile_cons, h]; rfl
  | cons x xs ih => rw [List.cons_append, List.takeWhile_cons, List.takeWhile_cons, ih]

theorem drop_takeWhile_concat {α : Type} {f : α → Bool} (a : α) (xs : List α) :
    (xs ++ [a]).drop (xs.takeWhile f).length = xs.drop (xs.takeWhile f).length ++ [a] :=
  List.drop_append_of_le_length (List.takeWhile_prefix f).length_le

theorem isPrefixOf_replicate_concat {a p : Point} (h : a ≠ p) (n : Nat) (xs : PointText) :
    (List.replicate n a).isPrefixOf (xs ++ [p]) = (List.replicate n a).isPrefixOf xs := by
  induction n generalizing xs with
  | zero => cases xs <;> rfl
  | succ n ih =>
      cases xs with
      | nil => simp [List.replicate_succ, List.isPrefixOf, h]
      | cons x xs =>
          rw [List.cons_append, List.replicate_succ, List.isPrefixOf, List.isPrefixOf, ih]

theorem isBlankPoints_iff {text : PointText} :
    isBlankPoints text = true ↔ ∀ p ∈ text, isSpacePoint p = true := by
  rw [isBlankPoints, List.isEmpty_iff, stripPoints, Trim.trim_eq_nil_iff]

theorem isBlankPoints_append (front back : PointText) :
    isBlankPoints (front ++ back) = (isBlankPoints front && isBlankPoints back) := by
  rw [Bool.eq_iff_iff, Bool.and_eq_true_iff, isBlankPoints_iff, isBlankPoints_iff, isBlankPoints_iff]
  exact List.forall_mem_append

theorem isSpace_of_isLineBreak {c : Char} (h : isLineBreak c = true) : isSpace c = true := by
  simp only [isLineBreak, isSpace, Bool.or_eq_true, Bool.and_eq_true, decide_eq_true_eq,
    beq_iff_eq] at h ⊢
  omega

theorem isSpacePoint_of_break {p : Point} (h : isBreakPoint p = true) : isSpacePoint p = true := by
  cases p with
  | scalar c => exact isSpace_of_isLineBreak h
  | escaped b => cases h

theorem ne_of_break {p : Point} (h : isBreakPoint p = true) {c : Char}
    (hc : isLineBreak c = false) : .scalar c ≠ p := by
  rintro rfl
  rw [isBreakPoint, hc] at h
  cases h

theorem isBlankPoints_break {p : Point} (h : isBreakPoint p = true) : isBlankPoints [p] = true :=
  isBlankPoints_iff.mpr (List.forall_mem_singleton.mpr (isSpacePoint_of_break h))

theorem fenceRun_concat {p : Point} (h : isBreakPoint p = true) {char : Char}
    (hchar : isLineBreak char = false) (rest : PointText) :
    fenceRun char (rest ++ [p]) = fenceRun char rest := by
  have hrun : (rest ++ [p]).takeWhile (fun q => q == .scalar char) =
      rest.takeWhile fun q => q == .scalar char := by
    refine takeWhile_concat_of_neg ?_ rest
    exact beq_eq_false_iff_ne.mpr (ne_of_break h hchar).symm
  have hmem : .scalar backtick ∈
        rest.drop (rest.takeWhile fun q => q == .scalar char).length ++ [p] ↔
      .scalar backtick ∈ rest.drop (rest.takeWhile fun q => q == .scalar char).length := by
    have hne : .scalar backtick ≠ p := ne_of_break h (by decide)
    rw [List.mem_append, List.mem_singleton]
    exact or_iff_left hne
  unfold fenceRun
  dsimp only
  rw [hrun, drop_takeWhile_concat, isBlankPoints_append,
    isBlankPoints_break h, Bool.and_true]
  simp only [hmem]

/-- The break that ends a line does not change what fence it is. -/
theorem fenceMarker_concat {p : Point} (h : isBreakPoint p = true) (line : PointText) :
    fenceMarker (line ++ [p]) = fenceMarker line := by
  have hspace : (line ++ [p]).takeWhile (fun q => q == .scalar ' ') =
      line.takeWhile fun q => q == .scalar ' ' := by
    refine takeWhile_concat_of_neg ?_ line
    exact beq_eq_false_iff_ne.mpr (ne_of_break h (by decide)).symm
  have hbacktick : .scalar backtick ≠ p := ne_of_break h (by decide)
  have htilde : .scalar '~' ≠ p := ne_of_break h (by decide)
  unfold fenceMarker
  dsimp only
  rw [hspace, drop_takeWhile_concat,
    isPrefixOf_replicate_concat hbacktick, isPrefixOf_replicate_concat htilde,
    fenceRun_concat h (by decide), fenceRun_concat h (by decide)]

theorem fenceMarker_bodyOf {segment line ending : PointText} (h : Segment segment line ending) :
    fenceMarker (bodyOf segment) = fenceMarker (lineOf segment) := by
  rw [h.lineOf]
  rcases h.bodyOf with hbody | ⟨p, hp, -, hbody⟩
  · rw [hbody]
  · rw [hbody]
    exact fenceMarker_concat (Bool.and_eq_true_iff.mp hp).1 line

/-! ## Texts put together -/

/-- A text of whole lines. -/
def Ended (text : PointText) : Prop :=
  text = [] ∨ ∃ inner p, text = inner ++ [p] ∧ isBreakPoint p = true

/-- Texts are put together line by line, unless a newline follows a carriage return. -/
theorem segmentsOf_append {front : PointText} (hfront : Ended front) (back : PointText) :
    segmentsOf (front ++ back) = segmentsOf front ++ segmentsOf back ∨
      ∃ init last rest, segmentsOf front = init ++ [last ++ [carriageReturn]] ∧
        segmentsOf back = [newline] :: segmentsOf rest ∧
        segmentsOf (front ++ back) =
          init ++ (last ++ [carriageReturn, newline]) :: segmentsOf rest := by
  rcases hfront with rfl | ⟨inner, p, rfl, hbreak⟩
  · exact Or.inl rfl
  · by_cases hends : endsPointLine p back.head? = true
    · refine Or.inl (LineCuts.cutAfter_append_of_ends fun q hq => ?_)
      rw [List.getLast?_concat] at hq
      cases hq
      exact ⟨ends_none_of_break hbreak, hends⟩
    · rw [Bool.not_eq_true] at hends
      obtain ⟨rfl, hnext⟩ := pair_of_not_ends hbreak hends
      obtain ⟨rest, rfl⟩ := List.head?_eq_some_iff.mp hnext
      obtain ⟨init, last, hfirst, hsecond⟩ :=
        LineCuts.cutAfter_append_pair (ends_none_of_break hbreak) hends endsPointLine_newline inner
      refine Or.inr ⟨init, last, rest, hfirst, LineCuts.cutAfter_cons_end (endsPointLine_newline _),
        ?_⟩
      have hsplit : inner ++ [carriageReturn] ++ newline :: rest =
          (inner ++ [carriageReturn, newline]) ++ rest := by
        simp
      have hlast : ∀ q ∈ (inner ++ [carriageReturn, newline]).getLast?,
          LineCuts.Ends endsPointLine q := by
        intro q hq
        have hconcat : inner ++ [carriageReturn, newline] =
            (inner ++ [carriageReturn]) ++ [newline] := by
          simp
        rw [hconcat, List.getLast?_concat] at hq
        cases hq
        exact endsPointLine_newline
      rw [segmentsOf, hsplit, LineCuts.cutAfter_append hlast, hsecond]
      simp [segmentsOf]

theorem lineOf_concat_breaks {line : PointText} {p : Point} (hbreak : isBreakPoint p = true)
    (more : PointText) : lineOf (line ++ p :: more) = lineOf line := by
  induction line with
  | nil =>
      rw [List.nil_append, lineOf, List.takeWhile_cons, hbreak]
      rfl
  | cons q line ih =>
      simp only [lineOf] at ih ⊢
      rw [List.cons_append, List.takeWhile_cons, List.takeWhile_cons, ih]

/-- The lines of texts that are put together, but for an empty line that may be lost. -/
theorem linesOf_append {front : PointText} (hfront : Ended front) (back : PointText) :
    ∃ extra rest, (extra = [] ∨ extra = [[]]) ∧ linesOf back = extra ++ rest ∧
      linesOf (front ++ back) = linesOf front ++ rest := by
  rcases segmentsOf_append hfront back with hplain | ⟨init, last, rest, hfrontCut, hback, hwhole⟩
  · refine ⟨[], linesOf back, Or.inl rfl, rfl, ?_⟩
    rw [linesOf, hplain, List.map_append]
    rfl
  · refine ⟨[[]], linesOf rest, Or.inr rfl, ?_, ?_⟩
    · rw [linesOf, hback]
      rfl
    · have hbreak : isBreakPoint carriageReturn = true := by decide
      rw [linesOf, hwhole, linesOf, hfrontCut, List.map_append, List.map_append, List.map_cons,
        List.map_singleton, lineOf_concat_breaks hbreak, lineOf_concat_breaks hbreak,
        List.append_assoc]
      rfl

end ClaudeBridge
end Client
end Nauro
