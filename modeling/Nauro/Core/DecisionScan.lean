import Nauro.Core.DecisionBody

/-!
# Scanning a decision body

The loop of `_split_decision_body` in closed form, and what it makes of a body put together
from a rationale and a rejected section.

* `rationale_read_iff`, `rationale_read_rejected_iff` — when a rationale is read back, without
  and with a rejected section after it.
-/

namespace Nauro
namespace Core

open Foundation

/-! ## Ink -/

/-- The number of characters that are not white space. -/
def ink (text : Text) : Nat :=
  text.countP fun c => !isSpace c

/-- The ink of all lines. -/
def inkLines (lines : List Text) : Nat :=
  (lines.map ink).sum

@[simp] theorem ink_nil : ink [] = 0 := rfl

@[simp] theorem inkLines_nil : inkLines [] = 0 := rfl

@[simp] theorem inkLines_cons (line : Text) (lines : List Text) :
    inkLines (line :: lines) = ink line + inkLines lines := by
  simp [inkLines]

@[simp] theorem inkLines_append (front back : List Text) :
    inkLines (front ++ back) = inkLines front + inkLines back := by
  simp [inkLines]

theorem ink_strip (text : Text) : ink (strip text) = ink text :=
  Trim.countP_trim text

theorem ink_joinLines (lines : List Text) : ink (joinLines lines) = inkLines lines := by
  induction lines with
  | nil => rfl
  | cons line lines ih =>
      cases lines with
      | nil => simp [joinLines, ink, inkLines]
      | cons second lines =>
          simp only [joinLines, LineText.intercalate_cons_cons, inkLines_cons] at ih ⊢
          have hnewline : isSpace '\n' = true := by decide
          rw [ink, List.countP_append, List.countP_cons]
          simp only [hnewline, ink] at ih ⊢
          simp [ih]

theorem inkLines_splitLines (text : Text) : inkLines (splitLines text) = ink text := by
  rw [← ink_joinLines, joinLines_splitLines]

theorem ink_eq_zero_iff {text : Text} : ink text = 0 ↔ ∀ c ∈ text, isSpace c = true := by
  simp [ink, List.countP_eq_zero]

theorem inkLines_take_le (lines : List Text) {i j : Nat} (hij : i ≤ j) :
    inkLines (lines.take i) ≤ inkLines (lines.take j) := by
  have hsplit := List.take_append_drop i (lines.take j)
  rw [List.take_take, Nat.min_eq_left hij] at hsplit
  rw [← hsplit, inkLines_append]
  omega

/-- A cut after a line with ink keeps more than the cut before it. -/
theorem inkLines_take_lt {lines : List Text} {i j : Nat} (hij : i < j) {line : Text}
    (hline : lines[i]? = some line) (hink : ink line ≠ 0) :
    inkLines (lines.take i) < inkLines (lines.take j) := by
  have hnext : lines.take (i + 1) = lines.take i ++ [line] := by
    rw [List.take_add_one, hline]
    rfl
  have hle := inkLines_take_le lines (Nat.succ_le_of_lt hij)
  rw [Nat.succ_eq_add_one, hnext, inkLines_append, inkLines_cons] at hle
  simp at hle
  omega

/-! ## The scan in closed form -/

/-- The open fence after one line. -/
def stepFence (fence : Option Char) (line : Text) : Option Char :=
  match leadingFenceMarker line with
  | some marker => toggleFence fence marker line
  | none => fence

/-- The open fence after some lines. -/
def fenceAfter (fence : Option Char) (lines : List Text) : Option Char :=
  lines.foldl stepFence fence

/-- Whether a line is a `## Rejected Alternatives` heading outside a fence. -/
def isAnchorLine (fence : Option Char) (line : Text) : Bool :=
  fence.isNone && (leadingFenceMarker line).isNone && rstrip line == rejectedAnchor

/-- The index of the last `## Rejected Alternatives` heading outside fences. -/
def lastAnchor : Option Char → List Text → Option Nat
  | _, [] => none
  | fence, line :: rest =>
      match lastAnchor (stepFence fence line) rest with
      | some i => some (i + 1)
      | none => if isAnchorLine fence line then some 0 else none

@[simp] theorem fenceAfter_nil (fence : Option Char) : fenceAfter fence [] = fence := rfl

@[simp] theorem fenceAfter_cons (fence : Option Char) (line : Text) (lines : List Text) :
    fenceAfter fence (line :: lines) = fenceAfter (stepFence fence line) lines := rfl

theorem fenceAfter_append (fence : Option Char) (front back : List Text) :
    fenceAfter fence (front ++ back) = fenceAfter (fenceAfter fence front) back :=
  List.foldl_append

/-- One pass of the loop once `## Decision` is found. -/
theorem scanLine_after (fence : Option Char) (decisionIdx i : Nat) (rejectedIdx : Option Nat)
    (line : Text) :
    scanLine ⟨fence, some decisionIdx, rejectedIdx⟩ (line, i) =
      ⟨stepFence fence line, some decisionIdx,
        if isAnchorLine fence line then some i else rejectedIdx⟩ := by
  cases hmarker : leadingFenceMarker line with
  | some marker => simp [scanLine, stepFence, isAnchorLine, hmarker]
  | none =>
      cases fence with
      | some marker => simp [scanLine, stepFence, isAnchorLine, hmarker]
      | none =>
          by_cases hanchor : rstrip line = rejectedAnchor
          · simp [scanLine, stepFence, isAnchorLine, hmarker, hanchor]
          · simp [scanLine, stepFence, isAnchorLine, hmarker, hanchor]

/-- The rest of the loop once `## Decision` is found. -/
theorem foldl_scanLine_after (fence : Option Char) (decisionIdx : Nat) (rejectedIdx : Option Nat)
    (lines : List Text) (k : Nat) :
    (lines.zipIdx k).foldl scanLine ⟨fence, some decisionIdx, rejectedIdx⟩ =
      ⟨fenceAfter fence lines, some decisionIdx,
        ((lastAnchor fence lines).map (· + k)).or rejectedIdx⟩ := by
  induction lines generalizing fence rejectedIdx k with
  | nil => simp [lastAnchor]
  | cons line lines ih =>
      rw [List.zipIdx_cons, List.foldl_cons, scanLine_after, ih, fenceAfter_cons, lastAnchor]
      cases lastAnchor (stepFence fence line) lines with
      | some i => simp; omega
      | none =>
          by_cases hanchor : isAnchorLine fence line = true
          · simp [hanchor]
          · simp [hanchor]

theorem lastAnchor_append (fence : Option Char) (front back : List Text) :
    lastAnchor fence (front ++ back) =
      ((lastAnchor (fenceAfter fence front) back).map (front.length + ·)).or
        (lastAnchor fence front) := by
  induction front generalizing fence with
  | nil => simp [lastAnchor]
  | cons line front ih =>
      rw [List.cons_append, lastAnchor, ih, fenceAfter_cons, lastAnchor]
      cases lastAnchor (fenceAfter (stepFence fence line) front) back with
      | some i => simp; omega
      | none =>
          simp only [Option.map_none, Option.none_or]

/-- The last anchor is an anchor line. -/
theorem exists_of_lastAnchor {fence : Option Char} {lines : List Text} {i : Nat}
    (h : lastAnchor fence lines = some i) :
    ∃ line, lines[i]? = some line ∧ rstrip line = rejectedAnchor := by
  induction lines generalizing fence i with
  | nil => cases h
  | cons line lines ih =>
      rw [lastAnchor] at h
      cases hrest : lastAnchor (stepFence fence line) lines with
      | some j =>
          rw [hrest] at h
          cases h
          exact ih hrest
      | none =>
          rw [hrest] at h
          by_cases hanchor : isAnchorLine fence line = true
          · simp only [hanchor, if_true, Option.some.injEq] at h
            subst h
            refine ⟨line, rfl, ?_⟩
            simp only [isAnchorLine, Bool.and_eq_true, beq_iff_eq] at hanchor
            exact hanchor.2
          · simp [hanchor] at h

theorem ink_ne_zero_of_rstrip {line : Text} (h : rstrip line = rejectedAnchor) : ink line ≠ 0 := by
  intro hzero
  have hhash : '#' ∈ rstrip line := by
    rw [h]
    decide
  have hmem : '#' ∈ line := (List.rdropWhile_prefix isSpace line).subset hhash
  exact absurd (ink_eq_zero_iff.mp hzero '#' hmem) (by decide)

/-! ## Splitting a body -/

/-- What the lines after `## Decision` hold. -/
def splitTail (lines : List Text) : Text × Option Text :=
  match lastAnchor none lines with
  | none => (strip (joinLines lines), none)
  | some i => (strip (joinLines (lines.take i)), some (strip (joinLines (lines.drop (i + 1)))))

/-- Once the `## Decision` line is found, only the lines after it matter. -/
theorem splitDecisionBody_of_head {body : Text} {front lines : List Text}
    (hlines : splitLines body = front ++ lines) (hfront : front ≠ [])
    (hscan : front.zipIdx.foldl scanLine ⟨none, none, none⟩ =
      ⟨none, some (front.length - 1), none⟩) :
    splitDecisionBody body = some (splitTail lines) := by
  have hpos : front.length - 1 + 1 = front.length := by
    have := List.length_pos_of_ne_nil hfront
    omega
  have hall : (front ++ lines).zipIdx.foldl scanLine ⟨none, none, none⟩ =
      ⟨fenceAfter none lines, some (front.length - 1),
        (lastAnchor none lines).map (· + front.length)⟩ := by
    rw [List.zipIdx_append, List.foldl_append, hscan, foldl_scanLine_after]
    simp
  unfold splitDecisionBody
  simp only [hlines, hall]
  unfold splitTail
  cases lastAnchor none lines with
  | none => simp [hpos]
  | some i =>
      have htake : ((front ++ lines).take (i + front.length)).drop front.length =
          lines.take i := by
        rw [Nat.add_comm, List.take_length_add_append, List.drop_left]
      have hdrop : (front ++ lines).drop (i + front.length + 1) = lines.drop (i + 1) := by
        rw [show i + front.length + 1 = front.length + (i + 1) by omega,
          List.drop_length_add_append]
      simp [hpos, htake, hdrop]

/-! ## Reading a rationale back -/

@[simp] theorem leadingFenceMarker_nil : leadingFenceMarker [] = none := by decide

@[simp] theorem stepFence_nil (fence : Option Char) : stepFence fence [] = fence := by
  simp [stepFence]

theorem isAnchorLine_nil (fence : Option Char) : isAnchorLine fence [] = false := by
  have hblank : (rstrip [] == rejectedAnchor) = false := by decide
  rw [isAnchorLine, hblank, Bool.and_false]

@[simp] theorem lastAnchor_cons_nil (fence : Option Char) (lines : List Text) :
    lastAnchor fence ([] :: lines) = (lastAnchor fence lines).map (· + 1) := by
  rw [lastAnchor, stepFence_nil, isAnchorLine_nil]
  cases lastAnchor fence lines with
  | none => rfl
  | some i => rfl

theorem lastAnchor_append_blank (fence : Option Char) (lines : List Text) :
    lastAnchor fence (lines ++ [[]]) = lastAnchor fence lines := by
  rw [lastAnchor_append, lastAnchor_cons_nil]
  simp [lastAnchor]

theorem strip_newline_surround (text : Text) : strip ('\n' :: (text ++ ['\n'])) = strip text := by
  have hnewline : ∀ c ∈ ['\n'], isSpace c = true := by simp [isSpace]
  exact Trim.trim_surround hnewline hnewline text

/-- The lines that stand after `## Decision` in a written file without a rejected section. -/
def plainTail (rationale : Text) : List Text :=
  [] :: (splitLines rationale ++ [[]])

theorem joinLines_plainTail (rationale : Text) :
    joinLines (plainTail rationale) = '\n' :: (rationale ++ ['\n']) := by
  have hne := splitLines_ne_nil rationale
  rw [plainTail, show ([] : Text) :: (splitLines rationale ++ [[]]) =
    [[]] ++ (splitLines rationale ++ [[]]) from rfl, joinLines_append (by simp) (by simp),
    joinLines_append hne (by simp), joinLines_splitLines]
  rfl

/-- A rationale alone is read back when no line of it is an anchor outside a fence. -/
theorem rationale_read_iff {rationale : Text} (htrim : strip rationale = rationale) :
    (splitTail (plainTail rationale)).1 = rationale ↔
      lastAnchor none (splitLines rationale) = none := by
  have hanchor : lastAnchor none (plainTail rationale) =
      (lastAnchor none (splitLines rationale)).map (· + 1) := by
    rw [plainTail, lastAnchor_cons_nil, lastAnchor_append_blank]
  unfold splitTail
  rw [hanchor]
  cases hlast : lastAnchor none (splitLines rationale) with
  | none => simp [joinLines_plainTail, strip_newline_surround, htrim]
  | some i =>
      simp only [Option.map_some, reduceCtorEq, iff_false]
      intro hread
      obtain ⟨line, hline, hrstrip⟩ := exists_of_lastAnchor hlast
      -- what stands before the anchor has less ink than the rationale
      have hlen : i < (splitLines rationale).length := (List.getElem?_eq_some_iff.mp hline).1
      have hlt := inkLines_take_lt hlen hline (ink_ne_zero_of_rstrip hrstrip)
      rw [List.take_length, inkLines_splitLines] at hlt
      have htake : (plainTail rationale).take (i + 1) = [] :: (splitLines rationale).take i := by
        rw [plainTail, List.take_succ_cons, List.take_append_of_le_length hlen.le]
      have hink := congrArg ink hread
      rw [ink_strip, ink_joinLines, htake, inkLines_cons, ink_nil] at hink
      omega

/-- The lines that stand after `## Decision` in a written file with a rejected section. -/
def rejectedTail (rationale : Text) (alternatives : List Text) : List Text :=
  [] :: (splitLines rationale ++ [[], rejectedAnchor] ++ alternatives)

/-- The position of the written `## Rejected Alternatives` among them. -/
def writtenAnchor (rationale : Text) : Nat :=
  (splitLines rationale).length + 2

theorem getElem?_writtenAnchor (rationale : Text) (alternatives : List Text) :
    (rejectedTail rationale alternatives)[writtenAnchor rationale]? = some rejectedAnchor := by
  simp [rejectedTail, writtenAnchor]

theorem take_writtenAnchor (rationale : Text) (alternatives : List Text) :
    (rejectedTail rationale alternatives).take (writtenAnchor rationale) =
      plainTail rationale := by
  rw [rejectedTail, writtenAnchor, plainTail, List.take_succ_cons, List.append_assoc,
    List.take_length_add_append]
  rfl

theorem drop_writtenAnchor (rationale : Text) (alternatives : List Text) :
    (rejectedTail rationale alternatives).drop (writtenAnchor rationale + 1) = alternatives := by
  simp [rejectedTail, writtenAnchor, List.drop_append]

/-- The rationale is read back just when the written anchor is the one that is found. -/
theorem rationale_read_iff_lastAnchor {rationale : Text} (htrim : strip rationale = rationale)
    (alternatives : List Text) :
    (splitTail (rejectedTail rationale alternatives)).1 = rationale ↔
      lastAnchor none (rejectedTail rationale alternatives) = some (writtenAnchor rationale) := by
  have hwritten := getElem?_writtenAnchor rationale alternatives
  have hinkTake : inkLines ((rejectedTail rationale alternatives).take (writtenAnchor rationale)) =
      ink rationale := by
    rw [take_writtenAnchor, ← ink_joinLines, joinLines_plainTail, ← ink_strip,
      strip_newline_surround, htrim]
  have hanchorInk : ink rejectedAnchor ≠ 0 := by decide
  unfold splitTail
  constructor
  · intro hread
    cases hlast : lastAnchor none (rejectedTail rationale alternatives) with
    | none =>
        -- the whole tail would be the rationale, and it has the heading's ink besides
        rw [hlast] at hread
        have hink := congrArg ink hread
        rw [ink_strip, ink_joinLines] at hink
        have hlen := (List.getElem?_eq_some_iff.mp hwritten).1
        have hlt := inkLines_take_lt hlen hwritten hanchorInk
        rw [List.take_length] at hlt
        omega
    | some i =>
        rw [hlast] at hread
        have hink := congrArg ink hread
        rw [ink_strip, ink_joinLines] at hink
        rcases Nat.lt_trichotomy i (writtenAnchor rationale) with hlt | heq | hgt
        · obtain ⟨line, hline, hrstrip⟩ := exists_of_lastAnchor hlast
          have := inkLines_take_lt hlt hline (ink_ne_zero_of_rstrip hrstrip)
          omega
        · rw [heq]
        · have := inkLines_take_lt hgt hwritten hanchorInk
          omega
  · intro hlast
    simp only [hlast, take_writtenAnchor, joinLines_plainTail, strip_newline_surround, htrim]

theorem stepFence_rejectedAnchor (fence : Option Char) : stepFence fence rejectedAnchor = fence := by
  have hmarker : leadingFenceMarker rejectedAnchor = none := by decide
  simp [stepFence, hmarker]

/-- Where the last anchor of a written tail stands. -/
theorem lastAnchor_rejectedTail (rationale : Text) (alternatives : List Text) :
    lastAnchor none (rejectedTail rationale alternatives) =
      ((lastAnchor (fenceAfter none (splitLines rationale)) alternatives).map
          (writtenAnchor rationale + 1 + ·)).or
        (if fenceAfter none (splitLines rationale) = none then some (writtenAnchor rationale)
          else (lastAnchor none (splitLines rationale)).map (· + 1)) := by
  have hself : isAnchorLine none rejectedAnchor = true := by decide
  have hnone : ∀ c, isAnchorLine (some c) rejectedAnchor = false := fun c => by
    simp [isAnchorLine]
  rw [rejectedTail, lastAnchor_cons_nil, lastAnchor_append, lastAnchor_append, fenceAfter_append]
  simp only [fenceAfter_cons, fenceAfter_nil, stepFence_nil, stepFence_rejectedAnchor,
    lastAnchor_cons_nil]
  cases hfence : fenceAfter none (splitLines rationale) with
  | none =>
      simp only [lastAnchor, hself, if_true, writtenAnchor]
      cases lastAnchor none alternatives with
      | none => simp
      | some i => simp; omega
  | some c =>
      simp only [lastAnchor, hnone, writtenAnchor]
      cases lastAnchor (some c) alternatives with
      | none => simp
      | some i => simp; omega

/-- A rationale before a rejected section is read back when it closes its fences and the
section has no anchor of its own outside fences. -/
theorem rationale_read_rejected_iff {rationale : Text} (htrim : strip rationale = rationale)
    (alternatives : List Text) :
    (splitTail (rejectedTail rationale alternatives)).1 = rationale ↔
      fenceAfter none (splitLines rationale) = none ∧ lastAnchor none alternatives = none := by
  rw [rationale_read_iff_lastAnchor htrim, lastAnchor_rejectedTail]
  constructor
  · intro h
    cases hfence : fenceAfter none (splitLines rationale) with
    | none =>
        rw [hfence] at h
        cases hlast : lastAnchor none alternatives with
        | none => exact ⟨rfl, rfl⟩
        | some i =>
            rw [hlast] at h
            simp at h
            omega
    | some c =>
        rw [hfence] at h
        cases hlast : lastAnchor (some c) alternatives with
        | some i =>
            rw [hlast] at h
            simp at h
            omega
        | none =>
            rw [hlast] at h
            simp only [Option.map_none, Option.none_or, reduceCtorEq, if_false] at h
            obtain ⟨i, hi, heq⟩ := Option.map_eq_some_iff.mp h
            obtain ⟨line, hline, -⟩ := exists_of_lastAnchor hi
            have hlen := (List.getElem?_eq_some_iff.mp hline).1
            rw [writtenAnchor] at heq
            omega
  · rintro ⟨hfence, hlast⟩
    simp [hfence, hlast]

/-- The section that is read with the rationale. -/
theorem splitTail_rejectedTail {rationale : Text} (htrim : strip rationale = rationale)
    {alternatives : List Text} (hfence : fenceAfter none (splitLines rationale) = none)
    (hlast : lastAnchor none alternatives = none) :
    splitTail (rejectedTail rationale alternatives) =
      (rationale, some (strip (joinLines alternatives))) := by
  have hread := (rationale_read_rejected_iff htrim alternatives).mpr ⟨hfence, hlast⟩
  have hanchor := (rationale_read_iff_lastAnchor htrim alternatives).mp hread
  unfold splitTail at hread ⊢
  rw [hanchor] at hread ⊢
  simp only [drop_writtenAnchor] at hread ⊢
  rw [hread]

theorem splitTail_plainTail {rationale : Text} (htrim : strip rationale = rationale)
    (hlast : lastAnchor none (splitLines rationale) = none) :
    splitTail (plainTail rationale) = (rationale, none) := by
  have hread := (rationale_read_iff htrim).mpr hlast
  have hanchor : lastAnchor none (plainTail rationale) = none := by
    rw [plainTail, lastAnchor_cons_nil, lastAnchor_append_blank, hlast]
    rfl
  unfold splitTail at hread ⊢
  rw [hanchor] at hread ⊢
  simp only at hread ⊢
  rw [hread]

end Core
end Nauro
