import Nauro.Core.Parsing

/-!
# The files of a protected generation

* `isProtectedMember_shape` — a member stands at the top or one directory below it.
-/

namespace Nauro
namespace Core

def questionsProvenanceJson : Text := "questions-provenance.json".toList

/-- `_TOP_LEVEL_GENERATION_MEMBERS`. -/
def topLevelMembers : List Text :=
  ["project.md".toList, "state.md".toList, "state_current.md".toList, "state_history.md".toList,
    "stack.md".toList, "open-questions.md".toList, questionsProvenanceJson]

/-- `_require_canonical_path` accepts. -/
def isCanonicalPath (path : Text) : Bool :=
  !path.isEmpty && !path.contains '\\' &&
    (path.splitOn '/').all fun segment =>
      !segment.isEmpty && segment != ".".toList && segment != "..".toList

/-- What stands between a directory and an extension; none for another path. -/
def between? (front extension path : Text) : Option Text :=
  if front.isPrefixOf path && extension.isSuffixOf path then
    some ((path.drop front.length).take (path.length - front.length - extension.length))
  else none

/-- `_is_decision_member`. -/
def isDecisionMember (path : Text) : Bool :=
  (between? "decisions/".toList ".md".toList path).any fun rest =>
    !rest.isEmpty && !rest.contains '/'

def isSlugChar (c : Char) : Bool :=
  c.isDigit || c.isLower

/-- `BRIEF_SLUG_MAX_LENGTH`. -/
def briefSlugMaxLength : Nat := 120

/-- 1 to 120 lower-case letters and digits, with hyphens inside. -/
def isBriefSlug (slug : Text) : Bool :=
  1 ≤ slug.length && slug.length ≤ briefSlugMaxLength &&
    slug.all (fun c => isSlugChar c || c == '-') && slug.head?.any isSlugChar &&
    slug.getLast?.any isSlugChar

/-- `_is_context_member`. -/
def isContextMember (path : Text) : Bool :=
  (between? "context/".toList ".md".toList path).any isBriefSlug

/-- `is_protected_generation_member`. -/
def isProtectedMember (path : Text) : Bool :=
  isCanonicalPath path &&
    (topLevelMembers.contains path || isDecisionMember path || isContextMember path)

theorem eq_of_between? {front extension path rest : Text}
    (h : between? front extension path = some rest) (hne : rest ≠ []) :
    path = front ++ rest ++ extension := by
  unfold between? at h
  split_ifs at h with hboth
  cases h
  obtain ⟨hfront, hextension⟩ := Bool.and_eq_true_iff.mp hboth
  obtain ⟨more, rfl⟩ := List.isPrefixOf_iff_prefix.mp hfront
  rw [List.drop_left] at hne ⊢
  have hlength := List.length_pos_iff.mpr hne
  rw [List.length_take, List.length_append] at hlength
  have hle : extension.length ≤ more.length := by omega
  have hsuffix : extension <:+ more :=
    List.suffix_of_suffix_length_le (List.isSuffixOf_iff_suffix.mp hextension)
      (List.suffix_append front more) hle
  obtain ⟨body, rfl⟩ := hsuffix
  have htake : (front ++ (body ++ extension)).length - front.length - extension.length =
      body.length := by
    simp only [List.length_append]
    omega
  rw [htake, List.take_left, List.append_assoc]

theorem slash_notMem_of_isBriefSlug {slug : Text} (h : isBriefSlug slug = true) :
    slug ≠ [] ∧ '/' ∉ slug := by
  simp only [isBriefSlug, Bool.and_eq_true, decide_eq_true_eq, List.all_eq_true] at h
  obtain ⟨⟨⟨⟨hlength, -⟩, hall⟩, -⟩, -⟩ := h
  refine ⟨List.length_pos_iff.mp hlength, fun hin => ?_⟩
  have hslash := hall '/' hin
  revert hslash
  decide

/-- A member stands at the top, or as a Markdown file in one of two directories. -/
theorem isProtectedMember_shape {path : Text} (h : isProtectedMember path = true) :
    (path ∈ topLevelMembers ∧ path.splitOn '/' = [path]) ∨
      ∃ dir name, (dir = "decisions".toList ∨ dir = "context".toList) ∧
        path.splitOn '/' = [dir, name ++ ".md".toList] := by
  have hsplit (dir name : Text) (hdir : '/' ∉ dir) (hname : '/' ∉ name) :
      (dir ++ '/' :: (name ++ ".md".toList)).splitOn '/' = [dir, name ++ ".md".toList] := by
    rw [List.splitOn_append_cons_self, List.splitOn_eq_singleton hdir, List.splitOn_eq_singleton]
    · rfl
    · rw [List.mem_append, not_or]
      exact ⟨hname, by decide⟩
  simp only [isProtectedMember, Bool.and_eq_true, Bool.or_eq_true] at h
  obtain ⟨-, (htop | hdecision) | hcontext⟩ := h
  · have hplain : ∀ member ∈ topLevelMembers, '/' ∉ member := by decide
    have hin := List.contains_iff_mem.mp htop
    exact Or.inl ⟨hin, List.splitOn_eq_singleton (hplain path hin)⟩
  · obtain ⟨rest, hrest, hok⟩ := (Option.any_eq_true ..).mp hdecision
    simp only [Bool.and_eq_true, Bool.not_eq_true', List.isEmpty_eq_false_iff,
      List.contains_eq_mem, decide_eq_false_iff_not] at hok
    refine Or.inr ⟨"decisions".toList, rest, Or.inl rfl, ?_⟩
    rw [eq_of_between? hrest hok.1]
    exact hsplit "decisions".toList rest (by decide) hok.2
  · obtain ⟨slug, hslug, hok⟩ := (Option.any_eq_true ..).mp hcontext
    obtain ⟨hne, hplain⟩ := slash_notMem_of_isBriefSlug hok
    refine Or.inr ⟨"context".toList, slug, Or.inr rfl, ?_⟩
    rw [eq_of_between? hslug hne]
    exact hsplit "context".toList slug (by decide) hplain

/-- How the parts of a member end. -/
theorem getLast?_of_isProtectedMember {path : Text} (h : isProtectedMember path = true) :
    ∀ segment ∈ path.splitOn '/', segment.getLast? ∈ [some 'd', some 'n', some 's', some 't'] := by
  rcases isProtectedMember_shape h with ⟨hin, hsplit⟩ | ⟨dir, name, hdir, hsplit⟩
  · rw [hsplit]
    have hends : ∀ member ∈ topLevelMembers,
        member.getLast? ∈ [some 'd', some 'n', some 's', some 't'] := by decide
    exact fun segment hsegment => List.mem_singleton.mp hsegment ▸ hends path hin
  · rw [hsplit]
    intro segment hsegment
    rcases List.mem_cons.mp hsegment with rfl | hsegment
    · rcases hdir with rfl | rfl <;> decide
    · rw [List.mem_singleton.mp hsegment, List.getLast?_append]
      exact List.mem_cons_self

end Core
end Nauro
