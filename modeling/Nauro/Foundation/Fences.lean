import Mathlib.Data.List.Basic
import Mathlib.Data.Nat.Init

/-!
# Lines inside and outside fences

A line may open a fence; the fence runs to the first later line that closes it, or to the end.
What opens a fence, and what closes which fence, are parameters.

* `findIdx?_activeFlags` — the first active line with a property.
-/

namespace Foundation
namespace Fences

variable {L F : Type}

/-- A plain line, or a fence with its lines; a fence that is left open has no last line. -/
inductive Block (L : Type) where
  | plain (line : L)
  | fence (opener : L) (inner : List L) (closer : Option L)

def Block.lines : Block L → List L
  | .plain line => [line]
  | .fence opener inner closer => opener :: inner ++ closer.toList

/-- How lines are read when `opens?` tells the openers and `closes` what closes a fence. -/
inductive Fencing (opens? : L → Option F) (closes : F → L → Bool) : List L → List (Block L) → Prop
  | nil : Fencing opens? closes [] []
  | plain {line : L} {rest : List L} {blocks : List (Block L)} (hline : opens? line = none)
      (hrest : Fencing opens? closes rest blocks) :
      Fencing opens? closes (line :: rest) (.plain line :: blocks)
  | closed {opener closer : L} {fence : F} {inner rest : List L} {blocks : List (Block L)}
      (hopener : opens? opener = some fence) (hinner : ∀ line ∈ inner, closes fence line = false)
      (hcloser : closes fence closer = true) (hrest : Fencing opens? closes rest blocks) :
      Fencing opens? closes (opener :: (inner ++ closer :: rest))
        (.fence opener inner (some closer) :: blocks)
  | unclosed {opener : L} {fence : F} {inner : List L} (hopener : opens? opener = some fence)
      (hinner : ∀ line ∈ inner, closes fence line = false) :
      Fencing opens? closes (opener :: inner) [.fence opener inner none]

variable {opens? : L → Option F} {closes : F → L → Bool}

/-- A reading has every line, in order. -/
theorem Fencing.lines_eq {lines : List L} {blocks : List (Block L)}
    (h : Fencing opens? closes lines blocks) : blocks.flatMap Block.lines = lines := by
  induction h with
  | nil => rfl
  | plain hline hrest ih => rw [List.flatMap_cons, ih]; rfl
  | closed hopener hinner hcloser hrest ih =>
      rw [List.flatMap_cons, ih]
      simp only [Block.lines, Option.toList_some, List.cons_append, List.append_assoc,
        List.nil_append]
  | unclosed hopener hinner =>
      simp only [List.flatMap_cons, List.flatMap_nil, Block.lines, Option.toList_none,
        List.append_nil]

theorem exists_fencing (opens? : L → Option F) (closes : F → L → Bool) (lines : List L) :
    ∃ blocks, Fencing opens? closes lines blocks := by
  induction hlength : lines.length using Nat.strong_induction_on generalizing lines with
  | h n ih =>
      cases lines with
      | nil => exact ⟨[], .nil⟩
      | cons line rest =>
          cases hline : opens? line with
          | none =>
              obtain ⟨blocks, hblocks⟩ := ih rest.length
                (by rw [← hlength]; exact Nat.lt_succ_self _) rest rfl
              exact ⟨_, .plain hline hblocks⟩
          | some fence =>
              cases hfind : rest.find? (closes fence) with
              | none =>
                  refine ⟨_, .unclosed hline fun other hin => ?_⟩
                  exact Bool.eq_false_iff.mpr (List.find?_eq_none.mp hfind other hin)
              | some closer =>
                  obtain ⟨hcloser, inner, back, rfl, hinner⟩ := List.find?_eq_some_iff_append.mp hfind
                  obtain ⟨blocks, hblocks⟩ := ih back.length
                    (by rw [← hlength, List.length_cons, List.length_append, List.length_cons]; omega)
                    back rfl
                  refine ⟨_, .closed hline (fun other hin => ?_) hcloser hblocks⟩
                  have hother := hinner other hin
                  rwa [Bool.not_eq_eq_eq_not, Bool.not_true] at hother

/-! ## The state of a reading -/

/-- The fence that is open after a line. -/
def nextState (opens? : L → Option F) (closes : F → L → Bool) : Option F → L → Option F
  | none, line => opens? line
  | some fence, line => if closes fence line then none else some fence

/-- A line outside every fence that opens none. -/
def isActive (opens? : L → Option F) (state : Option F) (line : L) : Bool :=
  state.isNone && (opens? line).isNone

/-- Which lines are active, from a state on. -/
def activeFlags (opens? : L → Option F) (closes : F → L → Bool) : Option F → List L → List Bool
  | _, [] => []
  | state, line :: rest =>
      isActive opens? state line :: activeFlags opens? closes (nextState opens? closes state line) rest

/-- The active lines, from a state on. -/
def activeLines (opens? : L → Option F) (closes : F → L → Bool) : Option F → List L → List L
  | _, [] => []
  | state, line :: rest =>
      if isActive opens? state line then
        line :: activeLines opens? closes (nextState opens? closes state line) rest
      else activeLines opens? closes (nextState opens? closes state line) rest

/-- The active lines, with one line in the place of every fence. -/
def outsideLines (opens? : L → Option F) (closes : F → L → Bool) (blank : L) :
    Option F → List L → List L
  | _, [] => []
  | none, line :: rest =>
      match opens? line with
      | some fence => blank :: outsideLines opens? closes blank (some fence) rest
      | none => line :: outsideLines opens? closes blank none rest
  | some fence, line :: rest =>
      outsideLines opens? closes blank (if closes fence line then none else some fence) rest

/-- What stands for a block when its fences are taken out. -/
def Block.outside (blank : L) : Block L → L
  | .plain line => line
  | .fence _ _ _ => blank

theorem activeLines_append (state : Option F) (front back : List L) :
    activeLines opens? closes state (front ++ back) =
      activeLines opens? closes state front ++
        activeLines opens? closes (front.foldl (nextState opens? closes) state) back := by
  induction front generalizing state with
  | nil => rfl
  | cons line front ih =>
      rw [List.cons_append, activeLines, activeLines, ih, List.foldl_cons]
      split
      · rfl
      · rfl

/-- Plain lines outside fences are active, and the fences after them are the same. -/
theorem activeLines_of_plain {lines : List L} (hplain : ∀ line ∈ lines, opens? line = none) :
    activeLines opens? closes none lines = lines ∧
      lines.foldl (nextState opens? closes) none = none := by
  induction lines with
  | nil => exact ⟨rfl, rfl⟩
  | cons line rest ih =>
      obtain ⟨hline, hrest⟩ := List.forall_mem_cons.mp hplain
      obtain ⟨hactive, hstate⟩ := ih hrest
      have hnext : nextState opens? closes none line = none := hline
      have hisActive : isActive opens? none line = true := by
        rw [isActive, hline]
        rfl
      rw [activeLines, if_pos hisActive, hnext, hactive, List.foldl_cons, hnext, hstate]
      exact ⟨rfl, rfl⟩

/-- The first active line with a property, and what stands in front of it. -/
theorem findIdx?_activeFlags (p : L → Bool) (state : Option F) (lines : List L) :
    ((lines.zip (activeFlags opens? closes state lines)).findIdx? (fun entry => entry.2 && p entry.1) =
        none ∧ ∀ line ∈ activeLines opens? closes state lines, p line = false) ∨
      ∃ front line back, lines = front ++ line :: back ∧
        (lines.zip (activeFlags opens? closes state lines)).findIdx?
          (fun entry => entry.2 && p entry.1) = some front.length ∧ p line = true ∧
        isActive opens? (front.foldl (nextState opens? closes) state) line = true ∧
        ∀ other ∈ activeLines opens? closes state front, p other = false := by
  induction lines generalizing state with
  | nil => exact Or.inl ⟨rfl, fun _ h => absurd h List.not_mem_nil⟩
  | cons line rest ih =>
      rw [activeFlags, List.zip_cons_cons, List.findIdx?_cons, activeLines]
      by_cases hfirst : (isActive opens? state line && p line) = true
      · obtain ⟨hactive, hline⟩ := Bool.and_eq_true_iff.mp hfirst
        rw [if_pos hfirst]
        exact Or.inr ⟨[], line, rest, rfl, rfl, hline, hactive, fun _ h => absurd h List.not_mem_nil⟩
      · rw [if_neg hfirst]
        have hskip : ∀ other ∈ (if isActive opens? state line = true then [line] else []),
            p other = false := by
          intro other hother
          split at hother
          · next hactive =>
              rw [List.mem_singleton.mp hother]
              rw [hactive, Bool.true_and, Bool.not_eq_true] at hfirst
              exact hfirst
          · cases hother
        rcases ih (nextState opens? closes state line) with
          ⟨hnone, hrest⟩ | ⟨front, found, back, rfl, hindex, hfound, hactive, hfront⟩
        · refine Or.inl ⟨by rw [hnone]; rfl, fun other hother => ?_⟩
          split at hother
          · next hactive =>
              rcases List.mem_cons.mp hother with rfl | hin
              · exact hskip other (by rw [if_pos hactive]; exact List.mem_singleton_self _)
              · exact hrest other hin
          · exact hrest other hother
        · refine Or.inr ⟨line :: front, found, back, rfl, by rw [hindex]; rfl, hfound, hactive, ?_⟩
          intro other hother
          rw [activeLines] at hother
          split at hother
          · next hactive' =>
              rcases List.mem_cons.mp hother with rfl | hin
              · exact hskip other (by rw [if_pos hactive']; exact List.mem_singleton_self _)
              · exact hfront other hin
          · exact hfront other hother

theorem outsideLines_inner {fence : F} {inner rest : List L} {blank : L}
    (hinner : ∀ line ∈ inner, closes fence line = false) :
    outsideLines opens? closes blank (some fence) (inner ++ rest) =
      outsideLines opens? closes blank (some fence) rest := by
  induction inner with
  | nil => rfl
  | cons line inner ih =>
      obtain ⟨hline, hrest⟩ := List.forall_mem_cons.mp hinner
      rw [List.cons_append, outsideLines, hline, if_neg Bool.false_ne_true, ih hrest]

/-- Taking the fences out leaves one line for each block. -/
theorem outsideLines_of_fencing {lines : List L} {blocks : List (Block L)} (blank : L)
    (h : Fencing opens? closes lines blocks) :
    outsideLines opens? closes blank none lines = blocks.map (Block.outside blank) := by
  induction h with
  | nil => rfl
  | plain hline hrest ih =>
      rw [outsideLines, hline, List.map_cons, ← ih]
      rfl
  | closed hopener hinner hcloser hrest ih =>
      rw [outsideLines, hopener, List.map_cons, ← ih]
      show blank :: _ = _
      rw [outsideLines_inner hinner, outsideLines, hcloser, if_pos rfl]
      rfl
  | @unclosed opener fence inner hopener hinner =>
      rw [outsideLines, hopener]
      show blank :: _ = _
      have hrest : outsideLines opens? closes blank (some fence) (inner ++ []) =
          outsideLines opens? closes blank (some fence) [] := outsideLines_inner hinner
      rw [List.append_nil] at hrest
      rw [hrest]
      rfl

end Fences
end Foundation
