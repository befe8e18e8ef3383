import Nauro.Foundation.SectionedDocument

/-!
# The union of two sectioned documents

Two documents are laid over each other: the preambles one after the other, then one section
for each header over everything either document has under it. A last pass over the whole
drops every line that repeats an earlier one, except the exempt ones.

* `keepFirst_sublist_unite` — when the first document keeps its order.
-/

namespace Foundation
namespace SectionedDocument

open KeepFirst

variable {L : Type*} [DecidableEq L]

/-- Drop from every body the lines seen before it. -/
def keepSections (exempt : L → Bool) : List L → List (L × List L) → List (L × List L)
  | _, [] => []
  | seen, (h, body) :: rest =>
      (h, keepFrom exempt seen body) :: keepSections exempt (seen ++ h :: body) rest

/-- Drop the lines of a document that repeat an earlier one. -/
def keepDocument (exempt : L → Bool) (d : Document L) : Document L :=
  { preamble := keepFirst exempt d.preamble
    sections := keepSections exempt d.preamble d.sections }

/-- One document over the other, header by header. -/
def overlay (front back : Document L) : Document L :=
  { preamble := front.preamble ++ back.preamble
    sections := group (front.sections ++ back.sections) }

/-- The union: the overlay without repeated lines. -/
def unite (exempt : L → Bool) (front back : Document L) : Document L :=
  keepDocument exempt (overlay front back)

variable {exempt isHeader : L → Bool}

/-! ## Dropping repeated lines section by section -/

theorem headers_keepSections (seen : List L) (sections : List (L × List L)) :
    headers (keepSections exempt seen sections) = headers sections := by
  induction sections generalizing seen with
  | nil => rfl
  | cons s rest ih =>
      obtain ⟨h, body⟩ := s
      have hrest := ih (seen ++ h :: body)
      simp only [headers, keepSections, List.map_cons] at hrest ⊢
      rw [hrest]

/-- A kept section is a section of the input whose body lost what the lines before it have. -/
theorem exists_of_mem_keepSections {h : L} {kept : List L} {seen : List L}
    {sections : List (L × List L)} (hmem : (h, kept) ∈ keepSections exempt seen sections) :
    ∃ before body after, sections = before ++ (h, body) :: after ∧
      kept = keepFrom exempt (seen ++ flattenSections before) body := by
  induction sections generalizing seen with
  | nil => cases hmem
  | cons s rest ih =>
      obtain ⟨k, body⟩ := s
      rcases List.mem_cons.mp hmem with heq | hrest
      · obtain ⟨rfl, rfl⟩ := Prod.mk.inj heq
        exact ⟨[], body, rest, rfl, by simp⟩
      · obtain ⟨before, body', after, hsplit, hkept⟩ := ih hrest
        refine ⟨(k, body) :: before, body', after, by simp [hsplit], ?_⟩
        rw [hkept]
        simp

theorem mem_keepSections_append {h : L} {body seen : List L}
    {before after : List (L × List L)} :
    (h, keepFrom exempt (seen ++ flattenSections before) body) ∈
      keepSections exempt seen (before ++ (h, body) :: after) := by
  induction before generalizing seen with
  | nil => simp [keepSections]
  | cons s before ih =>
      obtain ⟨k, body'⟩ := s
      have htail := @ih (seen ++ k :: body')
      simp only [List.cons_append, keepSections, List.mem_cons]
      right
      simpa using htail

theorem notMem_seen_of_mem_keepSections {h x : L} {kept seen : List L}
    {sections : List (L × List L)} (hmem : (h, kept) ∈ keepSections exempt seen sections)
    (hx : x ∈ kept) (hex : exempt x = false) : x ∉ seen := by
  obtain ⟨before, body, after, -, rfl⟩ := exists_of_mem_keepSections hmem
  rcases (mem_keepFrom.mp hx).2 with h | h
  · rw [hex] at h
    cases h
  · exact fun hseen => h (List.mem_append_left _ hseen)

/-- A line that is not exempt is kept in one section only. -/
theorem eq_of_mem_keepSections {s t : L × List L} {x : L} {seen : List L}
    {sections : List (L × List L)} (hex : exempt x = false)
    (hs : s ∈ keepSections exempt seen sections) (hxs : x ∈ s.2)
    (ht : t ∈ keepSections exempt seen sections) (hxt : x ∈ t.2) : s = t := by
  induction sections generalizing seen with
  | nil => cases hs
  | cons u rest ih =>
      obtain ⟨h, body⟩ := u
      have hclash : ∀ v ∈ keepSections exempt (seen ++ h :: body) rest, x ∈ v.2 →
          x ∉ keepFrom exempt seen body := by
        intro v hv hxv hhead
        refine notMem_seen_of_mem_keepSections hv hxv hex ?_
        exact List.mem_append_right _
          (List.mem_cons_of_mem _ (mem_keepFrom.mp hhead).1)
      rcases List.mem_cons.mp hs with rfl | hs
      · rcases List.mem_cons.mp ht with rfl | ht
        · rfl
        · exact absurd hxs (hclash t ht hxt)
      · rcases List.mem_cons.mp ht with rfl | ht
        · exact absurd hxt (hclash s hs hxs)
        · exact ih hs ht

theorem nodup_of_mem_keepSections {s : L × List L} {seen : List L}
    {sections : List (L × List L)} (hs : s ∈ keepSections exempt seen sections) :
    (s.2.filter fun x => !exempt x).Nodup := by
  obtain ⟨before, body, after, -, hkept⟩ := exists_of_mem_keepSections hs
  rw [hkept]
  exact nodup_filter_keepFrom _ _ _

theorem keepFrom_flattenSections {seen : List L} {sections : List (L × List L)}
    (hheader : ∀ s ∈ sections, isHeader s.1 = true)
    (hbody : ∀ s ∈ sections, ∀ x ∈ s.2, isHeader x = false)
    (hexempt : ∀ x, isHeader x = true → exempt x = false)
    (hnodup : (headers sections).Nodup)
    (hseen : ∀ s ∈ sections, s.1 ∉ seen) :
    keepFrom exempt seen (flattenSections sections) =
      flattenSections (keepSections exempt seen sections) := by
  induction sections generalizing seen with
  | nil => rfl
  | cons s rest ih =>
      obtain ⟨h, body⟩ := s
      obtain ⟨hh, hheader⟩ := List.forall_mem_cons.mp hheader
      obtain ⟨hb, hbody⟩ := List.forall_mem_cons.mp hbody
      obtain ⟨hfresh, hseen⟩ := List.forall_mem_cons.mp hseen
      obtain ⟨hnot, hnodup⟩ := List.nodup_cons.mp hnodup
      have hbodyKeep : keepFrom exempt (h :: seen) body = keepFrom exempt seen body := by
        apply keepFrom_congr
        intro x hx _
        have hne : x ≠ h := by
          rintro rfl
          rw [hb x hx] at hh
          cases hh
        simp [hne]
      have hrest : keepFrom exempt (h :: seen ++ body) (flattenSections rest) =
          keepFrom exempt (seen ++ h :: body) (flattenSections rest) := by
        apply keepFrom_congr
        intro x _ _
        simp only [List.mem_append, List.mem_cons, List.cons_append]
        tauto
      have hseenRest : ∀ s ∈ rest, s.1 ∉ seen ++ h :: body := by
        intro s hs hmem
        rcases List.mem_append.mp hmem with hold | hnew
        · exact hseen s hs hold
        · rcases List.mem_cons.mp hnew with heq | hin
          · have hhead : s.1 ∈ headers rest := List.mem_map_of_mem hs
            rw [heq] at hhead
            exact hnot hhead
          · have hplain := hb s.1 hin
            rw [hheader s hs] at hplain
            cases hplain
      rw [flattenSections_cons, keepFrom_cons_fresh (hexempt h hh) hfresh, keepFrom_append,
        hbodyKeep, hrest, ih hheader hbody hnodup hseenRest]
      rfl

theorem keepFirst_flatten {d : Document L} (hd : d.WellFormed isHeader)
    (hexempt : ∀ x, isHeader x = true → exempt x = false)
    (hnodup : (headers d.sections).Nodup) :
    keepFirst exempt d.flatten = (keepDocument exempt d).flatten := by
  have hseen : ∀ s ∈ d.sections, s.1 ∉ ([] : List L) ++ d.preamble := by
    intro s hs hmem
    have hplain := hd.preamble_plain s.1 (by simpa using hmem)
    rw [hd.header_marked s hs] at hplain
    cases hplain
  unfold keepFirst Document.flatten
  rw [keepFrom_append,
    keepFrom_flattenSections hd.header_marked hd.body_plain hexempt hnodup hseen]
  rfl

theorem keepDocument_wellFormed {d : Document L} (hd : d.WellFormed isHeader) :
    (keepDocument exempt d).WellFormed isHeader := by
  constructor
  · intro x hx
    exact hd.preamble_plain x (mem_keepFirst.mp hx)
  · intro s hs
    obtain ⟨before, body, after, hsplit, -⟩ := exists_of_mem_keepSections hs
    exact hd.header_marked (s.1, body) (by simp [hsplit])
  · intro s hs x hx
    obtain ⟨before, body, after, hsplit, hkept⟩ := exists_of_mem_keepSections hs
    rw [hkept] at hx
    exact hd.body_plain (s.1, body) (by simp [hsplit]) x (mem_keepFrom.mp hx).1

/-! ## The union -/

section Union

variable {front back : Document L}

theorem overlay_wellFormed (hfront : front.WellFormed isHeader)
    (hback : back.WellFormed isHeader) : (overlay front back).WellFormed isHeader := by
  have hsections : ∀ s ∈ front.sections ++ back.sections,
      isHeader s.1 = true ∧ ∀ x ∈ s.2, isHeader x = false := by
    intro s hs
    rcases List.mem_append.mp hs with h | h
    · exact ⟨hfront.header_marked s h, hfront.body_plain s h⟩
    · exact ⟨hback.header_marked s h, hback.body_plain s h⟩
  constructor
  · intro x hx
    rcases List.mem_append.mp hx with h | h
    · exact hfront.preamble_plain x h
    · exact hback.preamble_plain x h
  · intro s hs
    have hmem : s.1 ∈ headers (front.sections ++ back.sections) :=
      mem_headers_group.mp (List.mem_map_of_mem hs)
    obtain ⟨t, ht, hts⟩ := List.mem_map.mp hmem
    exact hts ▸ (hsections t ht).1
  · intro s hs x hx
    have hbody : s.2 = bodyUnder s.1 (front.sections ++ back.sections) :=
      body_eq_of_mem_group hs
    rw [hbody] at hx
    obtain ⟨body, ht, hxb⟩ := mem_bodyUnder.mp hx
    exact (hsections _ ht).2 x hxb

theorem unite_wellFormed (hfront : front.WellFormed isHeader)
    (hback : back.WellFormed isHeader) : (unite exempt front back).WellFormed isHeader :=
  keepDocument_wellFormed (overlay_wellFormed hfront hback)

theorem keepFirst_overlay (hfront : front.WellFormed isHeader)
    (hback : back.WellFormed isHeader)
    (hexempt : ∀ x, isHeader x = true → exempt x = false) :
    keepFirst exempt (overlay front back).flatten = (unite exempt front back).flatten :=
  keepFirst_flatten (overlay_wellFormed hfront hback) hexempt (nodup_headers_group _)

/-- The union has exactly the lines of the two documents. -/
theorem mem_flatten_unite (hfront : front.WellFormed isHeader)
    (hback : back.WellFormed isHeader)
    (hexempt : ∀ x, isHeader x = true → exempt x = false) {x : L} :
    x ∈ (unite exempt front back).flatten ↔ x ∈ front.flatten ∨ x ∈ back.flatten := by
  rw [← keepFirst_overlay hfront hback hexempt, mem_keepFirst]
  simp only [Document.flatten, overlay, List.mem_append, mem_flattenSections_group,
    flattenSections_append]
  tauto

/-- Its headers are those of the first document, then the new ones of the second. -/
theorem headers_unite :
    headers (unite exempt front back).sections =
      keepFirst (fun _ => false) (headers front.sections ++ headers back.sections) := by
  have hheaders : headers (front.sections ++ back.sections) =
      headers front.sections ++ headers back.sections := List.map_append ..
  rw [← hheaders, ← headers_group]
  exact headers_keepSections _ _

/-- A section of the union holds what stands under its header in the first document and then
in the second, without the lines seen before. -/
theorem exists_of_mem_sections_unite {h : L} {kept : List L}
    (hmem : (h, kept) ∈ (unite exempt front back).sections) :
    ∃ before after, group (front.sections ++ back.sections) =
        before ++ (h, bodyUnder h front.sections ++ bodyUnder h back.sections) :: after ∧
      kept = keepFrom exempt
        (front.preamble ++ back.preamble ++ flattenSections before)
        (bodyUnder h front.sections ++ bodyUnder h back.sections) := by
  obtain ⟨before, body, after, hsplit, hkept⟩ := exists_of_mem_keepSections hmem
  have hbody : body = bodyUnder h (front.sections ++ back.sections) := by
    apply body_eq_of_mem_group
    have hgroup : group (front.sections ++ back.sections) =
      before ++ (h, body) :: after := hsplit
    simp [hgroup]
  rw [bodyUnder_append] at hbody
  subst hbody
  exact ⟨before, after, hsplit, hkept⟩

theorem sublist_of_mem_sections_unite {h : L} {kept : List L}
    (hmem : (h, kept) ∈ (unite exempt front back).sections) :
    kept.Sublist (bodyUnder h front.sections ++ bodyUnder h back.sections) := by
  obtain ⟨before, after, -, rfl⟩ := exists_of_mem_sections_unite hmem
  exact keepFrom_sublist _ _ _

theorem keepSections_map {M : Type*} [DecidableEq M] {f : L → M}
    (hf : Function.Injective f) {exempt' : M → Bool}
    (hexempt : ∀ x, exempt' (f x) = exempt x) (seen : List L)
    (sections : List (L × List L)) :
    keepSections exempt' (seen.map f) (sections.map (mapSection f)) =
      (keepSections exempt seen sections).map (mapSection f) := by
  induction sections generalizing seen with
  | nil => rfl
  | cons s rest ih =>
      obtain ⟨h, body⟩ := s
      have hrest := ih (seen ++ h :: body)
      rw [List.map_append, List.map_cons] at hrest
      simp only [List.map_cons, mapSection, keepSections, keepFrom_map hf hexempt] at hrest ⊢
      rw [hrest]

/-- The union does not depend on how lines are represented. -/
theorem unite_map {M : Type*} [DecidableEq M] {f : L → M}
    (hf : Function.Injective f) {exempt' : M → Bool}
    (hexempt : ∀ x, exempt' (f x) = exempt x) (front back : Document L) :
    unite exempt' (front.map f) (back.map f) = (unite exempt front back).map f := by
  have hgroup := group_map hf (front.sections ++ back.sections)
  have hfirst := keepFrom_map hf hexempt [] (front.preamble ++ back.preamble)
  have hsections := keepSections_map hf hexempt (front.preamble ++ back.preamble)
    (group (front.sections ++ back.sections))
  rw [List.map_append] at hgroup hsections
  rw [List.map_append, List.map_nil] at hfirst
  simp only [unite, keepDocument, overlay, Document.map, keepFirst, hgroup, hfirst, hsections]

end Union

/-! ## The order of the first document -/

theorem bodyUnder_eq_of_mem {s : L × List L} {sections : List (L × List L)}
    (hnodup : (headers sections).Nodup) (hs : s ∈ sections) :
    bodyUnder s.1 sections = s.2 := by
  induction sections with
  | nil => cases hs
  | cons t rest ih =>
      obtain ⟨k, body⟩ := t
      obtain ⟨hnot, hnodup⟩ := List.nodup_cons.mp hnodup
      rcases List.mem_cons.mp hs with rfl | hrest
      · rw [bodyUnder_cons_self, bodyUnder_eq_nil hnot, List.append_nil]
      · have hne : k ≠ s.1 := by
          have hhead : s.1 ∈ headers rest := List.mem_map_of_mem hrest
          rintro rfl
          exact hnot hhead
        rw [bodyUnder_cons_of_ne hne, ih hnodup hrest]

theorem group_append_of_nodup {front : List (L × List L)}
    (hnodup : (headers front).Nodup) (back : List (L × List L)) :
    ∃ more, group (front ++ back) =
      (front.map fun s => (s.1, s.2 ++ bodyUnder s.1 back)) ++ more := by
  have hheaders : headers (front ++ back) = headers front ++ headers back :=
    List.map_append ..
  have hkeep : keepFirst (fun _ => false) (headers front) = headers front := by
    refine keepFrom_eq_self_iff.mpr ⟨?_, by simp⟩
    simpa using hnodup
  have hfront : (headers front).map (fun h => (h, bodyUnder h (front ++ back))) =
      front.map fun s => (s.1, s.2 ++ bodyUnder s.1 back) := by
    rw [headers, List.map_map]
    apply List.map_congr_left
    intro s hs
    simp [bodyUnder_append, bodyUnder_eq_of_mem hnodup hs]
  unfold keepFirst at hkeep
  unfold group
  rw [hheaders, keepFirst, keepFrom_append, hkeep, List.map_append, hfront]
  exact ⟨_, rfl⟩

/-- Lines added at the end of each body leave the order of the old lines alone, provided
they do not anticipate a later old line. -/
theorem keepFrom_sublist_extend (added : L → List L) {seen seen' : List L}
    {sections : List (L × List L)}
    (hadded : sections.Pairwise fun s t =>
      ∀ x ∈ added s.1, exempt x = false → (x = t.1 ∨ x ∈ t.2) → x ∈ s.2)
    (hseen : ∀ x ∈ flattenSections sections, exempt x = false → (x ∈ seen ↔ x ∈ seen')) :
    (keepFrom exempt seen (flattenSections sections)).Sublist
      (keepFrom exempt seen'
        (flattenSections (sections.map fun s => (s.1, s.2 ++ added s.1)))) := by
  induction sections generalizing seen seen' with
  | nil => exact List.Sublist.refl _
  | cons s rest ih =>
      obtain ⟨h, body⟩ := s
      obtain ⟨hhead, htail⟩ := List.pairwise_cons.mp hadded
      have hrest : ∀ x ∈ flattenSections rest, exempt x = false →
          (x ∈ seen ++ h :: body ↔ x ∈ seen' ++ h :: body ++ added h) := by
        intro x hx hex
        have hold : x ∈ seen ↔ x ∈ seen' := by
          apply hseen x _ hex
          simp [hx]
        have hnew : x ∈ added h → x ∈ body := by
          intro hxa
          rcases mem_flattenSections.mp hx with hin | ⟨t, ht, hxt⟩
          · obtain ⟨t, ht, rfl⟩ := List.mem_map.mp hin
            exact hhead t ht t.1 hxa hex (Or.inl rfl)
          · exact hhead t ht x hxa hex (Or.inr hxt)
        simp only [List.mem_append, List.mem_cons, hold]
        tauto
      have hsame : keepFrom exempt seen (h :: body) = keepFrom exempt seen' (h :: body) := by
        apply keepFrom_congr
        intro x hx hex
        apply hseen x _ hex
        rw [flattenSections_cons, ← List.cons_append]
        exact List.mem_append_left _ hx
      have hleft : keepFrom exempt seen (flattenSections ((h, body) :: rest)) =
          keepFrom exempt seen (h :: body) ++
            keepFrom exempt (seen ++ h :: body) (flattenSections rest) := by
        rw [flattenSections_cons, ← List.cons_append, keepFrom_append]
      rw [hleft, hsame, List.map_cons, flattenSections_cons, List.append_assoc,
        ← List.cons_append, keepFrom_append, keepFrom_append]
      exact (List.Sublist.refl _).append
        ((ih htail hrest).trans (List.sublist_append_right _ _))

/-- Where every line the second document shares with the first stands under the same header
in both, the union keeps the order of the first document. -/
theorem keepFirst_sublist_unite {front back : Document L}
    (hfront : front.WellFormed isHeader) (hback : back.WellFormed isHeader)
    (hexempt : ∀ x, isHeader x = true → exempt x = false)
    (hnodup : (headers front.sections).Nodup)
    (hpreamble : ∀ x ∈ back.preamble, exempt x = false → x ∈ front.flatten →
      x ∈ front.preamble)
    (hbody : ∀ h, ∀ x ∈ bodyUnder h back.sections, exempt x = false → x ∈ front.flatten →
      x ∈ bodyUnder h front.sections) :
    (keepFirst exempt front.flatten).Sublist (unite exempt front back).flatten := by
  rw [← keepFirst_overlay hfront hback hexempt]
  obtain ⟨more, hmore⟩ := group_append_of_nodup hnodup back.sections
  have hpairwise : front.sections.Pairwise fun s t =>
      ∀ x ∈ bodyUnder s.1 back.sections, exempt x = false →
        (x = t.1 ∨ x ∈ t.2) → x ∈ s.2 := by
    rw [List.pairwise_iff_forall_sublist]
    intro s t hsub x hx hex hxt
    have hs : s ∈ front.sections := hsub.subset (by simp)
    have ht : t ∈ front.sections := hsub.subset (by simp)
    have hmem : x ∈ front.flatten := by
      apply List.mem_append_right
      apply mem_flattenSections.mpr
      rcases hxt with rfl | hin
      · exact Or.inl (List.mem_map_of_mem ht)
      · exact Or.inr ⟨t, ht, hin⟩
    have hunder := hbody s.1 x hx hex hmem
    rwa [bodyUnder_eq_of_mem hnodup hs] at hunder
  have hseen : ∀ x ∈ flattenSections front.sections, exempt x = false →
      (x ∈ ([] ++ front.preamble) ↔ x ∈ ([] ++ front.preamble ++ back.preamble)) := by
    intro x hx hex
    simp only [List.nil_append, List.mem_append]
    constructor
    · exact Or.inl
    · rintro (h | h)
      · exact h
      · exact hpreamble x h hex (List.mem_append_right _ hx)
  simp only [keepFirst, Document.flatten, overlay, hmore, flattenSections_append]
  rw [keepFrom_append, List.append_assoc, keepFrom_append, keepFrom_append, keepFrom_append]
  refine (List.Sublist.refl _).append ?_
  refine List.Sublist.trans ?_ (List.sublist_append_right _ _)
  have hextend := keepFrom_sublist_extend
    (fun h => bodyUnder h back.sections) hpairwise hseen
  exact hextend.trans (List.sublist_append_left _ _)

end SectionedDocument
end Foundation
