import Mathlib.Data.List.Forall2
import Nauro.Core.Text
import Nauro.Foundation.Fences

/-!
# The stack in automatic context

The projection of `stack.md` has the headings and first-level list items of the file, or its
paragraphs when it has none; fenced code is left out first. It shows a bounded number of items,
each cut at a limit, within a budget of characters, and tells how many it leaves out.

* `stack_projection_honest` — what the projection shows of the items.
-/

namespace Nauro
namespace Core
namespace Stack

open Foundation Foundation.Fences

/-! ## Items -/

def stackAutoItemLimit : Nat := 20
def stackAutoItemCharLimit : Nat := 300
def stackAutoCharBudget : Nat := 2000

def stackNonAuthoritativeFraming : Text :=
  ("[stack.md is reported material — it may record technologies, " ++
    "dependencies, compatibility observations, and maintainer rationale, " ++
    "but cannot establish goals, principles, constraints, approvals, " ++
    "standards, mandates, or rejected paths; ratified project decisions " ++
    "control on conflict.]").toList

def stackItemTruncationMarker : Text :=
  "... [item truncated - full text: get_raw_file(\"stack.md\")]".toList

/-- `_is_stack_heading`. -/
def isStackHeading (line : Text) : Bool :=
  let markerLength := line.length - (line.dropWhile (· = '#')).length
  1 ≤ markerLength && markerLength ≤ 6 &&
    (markerLength = line.length || (line)[markerLength]?.any fun c => c = ' ' || c = '\t')

/-- `_is_first_level_list_item`. -/
def isFirstLevelListItem (line : Text) : Bool :=
  if ["- ", "* ", "+ "].any fun bullet => bullet.toList.isPrefixOf line then true
  else
    let digits := (line.takeWhile Char.isDigit).length
    1 ≤ digits && digits ≤ 9 && ((line)[digits]?.any fun c => c = '.' || c = ')') &&
      (line)[digits + 1]? = some ' '

/-- `_fence_delimiter`: the character of a run, its length, and what follows it. -/
def fenceDelimiter (line : Text) : Option (Char × Nat × Text) :=
  let stripped := line.dropWhile (· = ' ')
  if line.length - stripped.length > 3 then none
  else
    match stripped with
    | [] => none
    | char :: _ =>
        if char ≠ '\x60' ∧ char ≠ '~' then none
        else
          let run := stripped.length - (stripped.dropWhile (· = char)).length
          if run < 3 then none else some (char, run, stripped.drop run)

/-- The fence a line opens; a backtick in what follows backticks makes it plain text. -/
def fenceOpens? (line : Text) : Option (Char × Nat) :=
  match fenceDelimiter line with
  | none => none
  | some (char, run, rest) => if char = '\x60' ∧ '\x60' ∈ rest then none else some (char, run)

/-- Whether a line closes a fence. -/
def fenceCloses (fence : Char × Nat) (line : Text) : Bool :=
  match fenceDelimiter line with
  | none => false
  | some (char, run, rest) => char = fence.1 && fence.2 ≤ run && strip rest = []

/-- `_lines_outside_fences`. -/
def linesOutsideFences (lines : List Text) : List Text :=
  outsideLines fenceOpens? fenceCloses [] none lines

def isStructured (line : Text) : Bool :=
  isStackHeading line || isFirstLevelListItem line

/-- The paragraphs of the lines that follow those of an unfinished one. -/
def paragraphsFrom : List Text → List Text → List Text
  | current, [] => if current = [] then [] else [joinLines current]
  | current, line :: rest =>
      if strip line ≠ [] then paragraphsFrom (current ++ [rstrip line]) rest
      else if current = [] then paragraphsFrom [] rest
      else joinLines current :: paragraphsFrom [] rest

/-- `_stack_projection_items`: the items and what joins them. -/
def stackProjectionItems (stack : Text) : List Text × Text :=
  let lines := linesOutsideFences (splitLines stack)
  let structured := (lines.filter isStructured).map rstrip
  if structured ≠ [] then (structured, ['\n']) else (paragraphsFrom [] lines, ['\n', '\n'])

/-! ## The projection -/

/-- An item as it is shown. -/
def renderItem (item : Text) : Text :=
  if stackAutoItemCharLimit < item.length then
    rstrip (item.take stackAutoItemCharLimit) ++ ' ' :: stackItemTruncationMarker
  else item

/-- The loop over the items: what is shown, and how many items are left out. -/
def keepItems (joiner : Text) : List Text → Nat → List Text → List Text × Nat
  | rendered, _, [] => (rendered, 0)
  | rendered, retainedTotal, item :: rest =>
      let retained := item.take stackAutoItemCharLimit
      let separatorCost := if rendered = [] then 0 else joiner.length
      if rendered.length = stackAutoItemLimit ∨
          stackAutoCharBudget < retainedTotal + separatorCost + retained.length then
        (rendered, (item :: rest).length)
      else
        keepItems joiner (rendered ++ [renderItem item])
          (retainedTotal + separatorCost + retained.length) rest

def omittedTrailer (omitted : Nat) : Text :=
  "\n(+".toList ++ Nat.toDigits 10 omitted ++
    " more stack items — see get_raw_file(\"stack.md\") for the full file)".toList

/-- `_render_stack_projection`. -/
def renderStackProjection (stack : Text) : Text :=
  let (items, joiner) := stackProjectionItems stack
  let (rendered, omitted) := keepItems joiner [] 0 items
  if rendered = [] then stackNonAuthoritativeFraming
  else
    stackNonAuthoritativeFraming ++ '\n' :: joiner.intercalate rendered ++
      if omitted ≠ 0 then omittedTrailer omitted else []

/-! ## The items of plain lines and fences -/

/-- The lines outside every fence. -/
def plainLines (blocks : List (Block Text)) : List Text :=
  blocks.filterMap fun block =>
    match block with
    | .plain line => some line
    | .fence _ _ _ => none

def isBlank (line : Text) : Bool :=
  strip line = []

/-- The runs of lines that are not blank, each line without the space at its end. -/
def paragraphs (lines : List Text) : List Text :=
  ((lines.splitOnP isBlank).filter (· ≠ [])).map fun run => joinLines (run.map rstrip)

/-- Headings and first-level list items when there are any, else paragraphs, which a fence
separates as a blank line does. -/
def itemsOf (blocks : List (Block Text)) : List Text :=
  if (plainLines blocks).any isStructured then ((plainLines blocks).filter isStructured).map rstrip
  else paragraphs (blocks.map (Block.outside []))

def joinerOf (blocks : List (Block Text)) : Text :=
  if (plainLines blocks).any isStructured then ['\n'] else ['\n', '\n']

/-- How an item is shown: whole, or cut at the limit with the marker. -/
def Shows (item shown : Text) : Prop :=
  (item.length ≤ stackAutoItemCharLimit ∧ shown = item) ∨
    (stackAutoItemCharLimit < item.length ∧
      shown = rstrip (item.take stackAutoItemCharLimit) ++ ' ' :: stackItemTruncationMarker)

theorem shows_renderItem (item : Text) : Shows item (renderItem item) := by
  unfold renderItem
  split_ifs with hlong
  · exact Or.inr ⟨hlong, rfl⟩
  · exact Or.inl ⟨not_lt.mp hlong, rfl⟩

theorem modifyHead_nil_append {α : Type} (runs : List (List α)) :
    runs.modifyHead ([] ++ ·) = runs := by
  cases runs with
  | nil => rfl
  | cons run runs => rfl

/-- The runs between the elements that are cut out have the others only. -/
theorem mem_of_mem_splitOnP {α : Type} {p : α → Bool} {xs run : List α}
    (hrun : run ∈ xs.splitOnP p) {x : α} (hx : x ∈ run) : x ∈ xs ∧ p x = false := by
  induction xs generalizing run with
  | nil =>
      rw [List.splitOnP_nil, List.mem_singleton] at hrun
      rw [hrun] at hx
      cases hx
  | cons a xs ih =>
      rw [List.splitOnP_cons_eq_if_modifyHead] at hrun
      split_ifs at hrun with ha
      · rcases List.mem_cons.mp hrun with rfl | hrun
        · cases hx
        · exact ⟨List.mem_cons_of_mem _ (ih hrun hx).1, (ih hrun hx).2⟩
      · cases hruns : xs.splitOnP p with
        | nil => exact absurd hruns (List.splitOnP_ne_nil p xs)
        | cons first others =>
            rw [hruns, List.modifyHead_cons] at hrun
            rw [hruns] at ih
            rcases List.mem_cons.mp hrun with rfl | hrun
            · rcases List.mem_cons.mp hx with rfl | hx
              · exact ⟨List.mem_cons_self, Bool.eq_false_iff.mpr ha⟩
              · have hfirst := ih List.mem_cons_self hx
                exact ⟨List.mem_cons_of_mem _ hfirst.1, hfirst.2⟩
            · have hother := ih (List.mem_cons_of_mem _ hrun) hx
              exact ⟨List.mem_cons_of_mem _ hother.1, hother.2⟩

/-- The loop over the lines finds the runs of lines that are not blank. -/
theorem paragraphsFrom_map (run lines : List Text) :
    paragraphsFrom (run.map rstrip) lines =
      (((lines.splitOnP isBlank).modifyHead (run ++ ·)).filter (· ≠ [])).map
        fun run => joinLines (run.map rstrip) := by
  induction lines generalizing run with
  | nil =>
      rw [paragraphsFrom, List.splitOnP_nil]
      cases run with
      | nil => rfl
      | cons line run =>
          rw [if_neg fun h => List.cons_ne_nil _ _ (List.map_eq_nil_iff.mp h),
            List.modifyHead_cons, List.append_nil]
          rfl
  | cons line rest ih =>
      have hempty := ih []
      rw [List.map_nil, modifyHead_nil_append] at hempty
      rw [paragraphsFrom, List.splitOnP_cons_eq_if_modifyHead]
      by_cases hblank : strip line = []
      · have hline : isBlank line = true := decide_eq_true hblank
        rw [if_neg (not_not.mpr hblank), if_pos hline, List.modifyHead_cons, List.append_nil, hempty]
        cases run with
        | nil => rfl
        | cons first run => rfl
      · have hline : ¬ isBlank line = true := fun h => hblank (of_decide_eq_true h)
        rw [if_pos hblank, if_neg hline, List.modifyHead_modifyHead]
        have hrun : run.map rstrip ++ [rstrip line] = (run ++ [line]).map rstrip := by
          rw [List.map_append]
          rfl
        have hhead : ((run ++ ·) ∘ List.cons line) = ((run ++ [line]) ++ ·) := by
          funext more
          rw [Function.comp_apply, List.append_assoc]
          rfl
        rw [hrun, ih, hhead]

theorem paragraphsFrom_nil (lines : List Text) : paragraphsFrom [] lines = paragraphs lines := by
  have h := paragraphsFrom_map [] lines
  rwa [List.map_nil, modifyHead_nil_append] at h

/-- Leaving a blank line for a fence changes no heading and no list item. -/
theorem filter_outside (blocks : List (Block Text)) :
    (blocks.map (Block.outside [])).filter isStructured =
      (plainLines blocks).filter isStructured := by
  induction blocks with
  | nil => rfl
  | cons block blocks ih =>
      cases block with
      | plain line =>
          show (line :: _).filter isStructured = (line :: _).filter isStructured
          rw [List.filter_cons, List.filter_cons, ih]
          rfl
      | fence opener inner closer =>
          show ([] :: _).filter isStructured = _
          rw [List.filter_cons, ih]
          rfl

theorem stackProjectionItems_eq {stack : Text} {blocks : List (Block Text)}
    (hblocks : Fencing fenceOpens? fenceCloses (splitLines stack) blocks) :
    stackProjectionItems stack = (itemsOf blocks, joinerOf blocks) := by
  unfold stackProjectionItems linesOutsideFences itemsOf joinerOf
  simp only [outsideLines_of_fencing [] hblocks, filter_outside, paragraphsFrom_nil]
  cases hany : (plainLines blocks).any isStructured with
  | true =>
      obtain ⟨line, hin, hline⟩ := List.any_eq_true.mp hany
      have hne : ((plainLines blocks).filter isStructured).map rstrip ≠ [] :=
        List.ne_nil_of_mem (List.mem_map_of_mem (List.mem_filter.mpr ⟨hin, hline⟩))
      rw [if_pos hne, if_pos rfl, if_pos rfl]
  | false =>
      have hnil : (plainLines blocks).filter isStructured = [] := by
        refine List.filter_eq_nil_iff.mpr fun line hin hline => ?_
        rw [List.any_eq_true.mpr ⟨line, hin, hline⟩] at hany
        cases hany
      rw [hnil, List.map_nil, if_neg (not_not.mpr rfl), if_neg Bool.false_ne_true,
        if_neg Bool.false_ne_true]

theorem mem_plainLines {blocks : List (Block Text)} {line : Text} :
    line ∈ plainLines blocks ↔ Block.plain line ∈ blocks := by
  rw [plainLines, List.mem_filterMap]
  constructor
  · rintro ⟨block, hin, hblock⟩
    cases block with
    | plain other => cases hblock; exact hin
    | fence opener inner closer => cases hblock
  · exact fun hin => ⟨_, hin, rfl⟩

theorem newline_notMem_plainLines {stack : Text} {blocks : List (Block Text)}
    (hblocks : Fencing fenceOpens? fenceCloses (splitLines stack) blocks) {line : Text}
    (hline : line ∈ plainLines blocks) : '\n' ∉ rstrip line := by
  have hin : line ∈ splitLines stack := by
    rw [← hblocks.lines_eq]
    exact List.mem_flatMap.mpr ⟨_, mem_plainLines.mp hline, List.mem_singleton.mpr rfl⟩
  exact fun hmem => LineText.notMem_of_mem_splitOn hin ((List.rdropWhile_prefix _ _).subset hmem)

/-- The lines of an item are lines outside every fence. -/
theorem plain_of_mem_itemsOf {stack : Text} {blocks : List (Block Text)}
    (hblocks : Fencing fenceOpens? fenceCloses (splitLines stack) blocks) {item : Text}
    (hitem : item ∈ itemsOf blocks) {line : Text} (hline : line ∈ splitLines item) :
    ∃ plain ∈ plainLines blocks, line = rstrip plain := by
  unfold itemsOf at hitem
  split_ifs at hitem with hany
  · obtain ⟨plain, hplain, rfl⟩ := List.mem_map.mp hitem
    have hin := (List.mem_filter.mp hplain).1
    rw [splitLines_of_notMem (newline_notMem_plainLines hblocks hin)] at hline
    exact ⟨plain, hin, List.mem_singleton.mp hline⟩
  · obtain ⟨run, hrun, rfl⟩ := List.mem_map.mp hitem
    obtain ⟨hrun, hne⟩ := List.mem_filter.mp hrun
    have hplain : ∀ plain ∈ run, plain ∈ plainLines blocks := by
      intro plain hin
      obtain ⟨houtside, hblank⟩ := mem_of_mem_splitOnP hrun hin
      obtain ⟨block, hblock, rfl⟩ := List.mem_map.mp houtside
      cases block with
      | plain other => exact mem_plainLines.mpr hblock
      | fence opener inner closer => exact absurd hblank Bool.noConfusion
    have hne' : run.map rstrip ≠ [] :=
      fun h => of_decide_eq_true hne (List.map_eq_nil_iff.mp h)
    rw [splitLines_joinLines hne'] at hline
    · obtain ⟨plain, hin, rfl⟩ := List.mem_map.mp hline
      exact ⟨plain, hplain plain hin, rfl⟩
    · intro other hother
      obtain ⟨plain, hin, rfl⟩ := List.mem_map.mp hother
      exact newline_notMem_plainLines hblocks (hplain plain hin)

/-! ## The loop over the items -/

/-- The characters of items that are kept, with what joins them. -/
def retainedLength (joiner : Text) (items : List Text) : Nat :=
  (joiner.intercalate (items.map (·.take stackAutoItemCharLimit))).length

theorem length_intercalate_concat (joiner : Text) (texts : List Text) (last : Text) :
    (joiner.intercalate (texts ++ [last])).length =
      (joiner.intercalate texts).length + (if texts = [] then 0 else joiner.length) +
        last.length := by
  cases texts with
  | nil =>
      rw [List.nil_append, List.intercalate_singleton, List.intercalate_nil, if_pos rfl,
        List.length_nil, Nat.zero_add]
  | cons first texts =>
      rw [List.cons_append, LineText.intercalate_cons, LineText.intercalate_cons,
        List.flatMap_append, List.flatMap_singleton, if_neg (List.cons_ne_nil _ _)]
      simp only [List.length_append]
      omega

/-- The loop keeps a first part of the items, within the limits. -/
theorem keepItems_spec (joiner : Text) (shown items : List Text)
    (hcount : shown.length ≤ stackAutoItemLimit)
    (hbudget : retainedLength joiner shown ≤ stackAutoCharBudget) :
    ∃ kept omitted, items = kept ++ omitted ∧
      keepItems joiner (shown.map renderItem) (retainedLength joiner shown) items =
        ((shown ++ kept).map renderItem, omitted.length) ∧
      (shown ++ kept).length ≤ stackAutoItemLimit ∧
      retainedLength joiner (shown ++ kept) ≤ stackAutoCharBudget := by
  induction items generalizing shown with
  | nil =>
      refine ⟨[], [], rfl, ?_, ?_⟩
      · rw [keepItems, List.append_nil]
        rfl
      · rw [List.append_nil]
        exact ⟨hcount, hbudget⟩
  | cons item rest ih =>
      have htotal : retainedLength joiner (shown ++ [item]) =
          retainedLength joiner shown + (if shown.map renderItem = [] then 0 else joiner.length) +
            (item.take stackAutoItemCharLimit).length := by
        simp only [retainedLength, List.map_append, List.map_cons, List.map_nil,
          length_intercalate_concat, List.map_eq_nil_iff]
      rw [keepItems]
      simp only [← htotal]
      split_ifs with hstop
      · refine ⟨[], item :: rest, rfl, by rw [List.append_nil], ?_⟩
        rw [List.append_nil]
        exact ⟨hcount, hbudget⟩
      · simp only [not_or, not_lt, List.length_map] at hstop
        have hcount' : (shown ++ [item]).length ≤ stackAutoItemLimit := by
          rw [List.length_append, List.length_singleton]
          omega
        obtain ⟨kept, omitted, rfl, hloop, hkept⟩ := ih (shown ++ [item]) hcount' hstop.2
        refine ⟨item :: kept, omitted, rfl, ?_, ?_⟩
        · rw [List.map_append] at hloop
          rw [show shown ++ item :: kept = shown ++ [item] ++ kept by
            rw [List.append_assoc]; rfl, ← hloop]
          rfl
        · rwa [show shown ++ item :: kept = shown ++ [item] ++ kept by
            rw [List.append_assoc]; rfl]

/-- The first item is always shown. -/
theorem keepItems_ne_nil (joiner item : Text) (rest : List Text) :
    (keepItems joiner [] 0 (item :: rest)).1 ≠ [] := by
  have htake : (item.take stackAutoItemCharLimit).length ≤ stackAutoItemCharLimit :=
    List.length_take_le _ _
  have hcost : retainedLength joiner [item] = (item.take stackAutoItemCharLimit).length := by
    rw [retainedLength, List.map_singleton, List.intercalate_singleton]
  have hbudget : retainedLength joiner [item] ≤ stackAutoCharBudget := by
    rw [hcost]
    exact htake.trans (by decide)
  obtain ⟨kept, omitted, -, hloop, -⟩ := keepItems_spec joiner [item] rest (Nat.le_add_left 1 19) hbudget
  have hfirst : ¬ (([] : List Text).length = stackAutoItemLimit ∨
      stackAutoCharBudget < 0 + 0 + (item.take stackAutoItemCharLimit).length) := by
    rw [← hcost]
    rintro (hlimit | hover)
    · cases hlimit
    · omega
  rw [keepItems, if_pos rfl, if_neg hfirst, Nat.zero_add, ← hcost]
  show (keepItems joiner ([item].map renderItem) _ rest).1 ≠ []
  rw [hloop]
  exact List.cons_ne_nil _ _

/-- The projection of any text shows a first part of its items, each whole or cut at the limit,
within the limits, with the number of the others; no line inside a fence is shown. -/
theorem stack_projection_honest (stack : Text) :
    ∃ blocks, Fencing fenceOpens? fenceCloses (splitLines stack) blocks ∧
      ∃ kept omitted shown, itemsOf blocks = kept ++ omitted ∧
        List.Forall₂ Shows kept shown ∧
        renderStackProjection stack =
          stackNonAuthoritativeFraming ++
            (if shown = [] then [] else '\n' :: (joinerOf blocks).intercalate shown) ++
            (if omitted = [] then [] else omittedTrailer omitted.length) ∧
        kept.length ≤ stackAutoItemLimit ∧
        retainedLength (joinerOf blocks) kept ≤ stackAutoCharBudget ∧
        ∀ item ∈ kept, ∀ line ∈ splitLines item,
          ∃ plain, Block.plain plain ∈ blocks ∧ line = rstrip plain := by
  obtain ⟨blocks, hblocks⟩ := exists_fencing fenceOpens? fenceCloses (splitLines stack)
  obtain ⟨kept, omitted, hitems, hloop, hcount, hbudget⟩ :=
    keepItems_spec (joinerOf blocks) [] (itemsOf blocks) (Nat.zero_le _) (Nat.zero_le _)
  have hzero : retainedLength (joinerOf blocks) [] = 0 := rfl
  rw [List.map_nil, hzero] at hloop
  simp only [List.nil_append] at hloop hcount hbudget
  refine ⟨blocks, hblocks, kept, omitted, kept.map renderItem, hitems, ?_, ?_, hcount, hbudget, ?_⟩
  · rw [List.forall₂_map_right_iff]
    exact List.forall₂_same.mpr fun item _ => shows_renderItem item
  · have hkept : kept.map renderItem = [] → omitted = [] := by
      intro hnil
      cases hall : itemsOf blocks with
      | nil => exact (List.append_eq_nil_iff.mp (hitems.symm.trans hall)).2
      | cons item rest =>
          have hne := keepItems_ne_nil (joinerOf blocks) item rest
          rw [← hall] at hne
          exact absurd (congrArg Prod.fst hloop |>.trans hnil) hne
    unfold renderStackProjection
    simp only [stackProjectionItems_eq hblocks, hloop]
    split_ifs with hshown homitted homitted' homitted''
    · rw [List.append_nil, List.append_nil]
    · exact absurd (hkept hshown) ‹_›
    · rw [homitted''] at homitted'
      exact absurd rfl homitted'
    · rfl
    · rfl
    · exact absurd (List.length_eq_zero_iff.mp (not_not.mp ‹_›)) ‹_›
  · intro item hin line hline
    obtain ⟨plain, hplain, rfl⟩ := plain_of_mem_itemsOf hblocks
      (hitems ▸ List.mem_append_left _ hin) hline
    exact ⟨plain, mem_plainLines.mp hplain, rfl⟩

end Stack
end Core
end Nauro
