import Mathlib.Data.List.Basic
import Mathlib.Data.List.Forall2
import Nauro.Foundation.KeepFirst

/-!
# Documents cut at header lines

A document is a preamble and a list of sections, each a header line and the body under it.
Two documents are united header by header, and the lines that repeat are dropped at document
scope.
-/

namespace Foundation
namespace SectionedDocument

open KeepFirst

variable {L : Type*}

/-- The lines before the first header, and the sections after it. -/
structure Document (L : Type*) where
  preamble : List L
  sections : List (L × List L)

/-- The lines of a list of sections, headers included. -/
def flattenSections (sections : List (L × List L)) : List L :=
  sections.flatMap fun s => s.1 :: s.2

/-- The lines of a document in order. -/
def Document.flatten (d : Document L) : List L :=
  d.preamble ++ flattenSections d.sections

/-- The header lines in order. -/
def headers (sections : List (L × List L)) : List L :=
  sections.map Prod.fst

/-- Cut lines at every header: what follows a header line up to the next one is its body. -/
def cut (isHeader : L → Bool) : List L → Document L
  | [] => { preamble := [], sections := [] }
  | line :: rest =>
      if isHeader line then
        { preamble := []
          sections := (line, (cut isHeader rest).preamble) :: (cut isHeader rest).sections }
      else
        { preamble := line :: (cut isHeader rest).preamble
          sections := (cut isHeader rest).sections }

/-- Header lines stand exactly at the heads of the sections. -/
structure Document.WellFormed (isHeader : L → Bool) (d : Document L) : Prop where
  preamble_plain : ∀ x ∈ d.preamble, isHeader x = false
  header_marked : ∀ s ∈ d.sections, isHeader s.1 = true
  body_plain : ∀ s ∈ d.sections, ∀ x ∈ s.2, isHeader x = false

@[simp] theorem flattenSections_nil : flattenSections ([] : List (L × List L)) = [] := rfl

@[simp] theorem flattenSections_cons (h : L) (body : List L) (rest : List (L × List L)) :
    flattenSections ((h, body) :: rest) = h :: (body ++ flattenSections rest) := by
  simp [flattenSections]

theorem flattenSections_append (front rest : List (L × List L)) :
    flattenSections (front ++ rest) = flattenSections front ++ flattenSections rest := by
  simp [flattenSections]

theorem mem_flattenSections {x : L} {sections : List (L × List L)} :
    x ∈ flattenSections sections ↔ x ∈ headers sections ∨ ∃ s ∈ sections, x ∈ s.2 := by
  simp only [flattenSections, headers, List.mem_flatMap, List.mem_cons, List.mem_map]
  constructor
  · rintro ⟨s, hs, rfl | hbody⟩
    · exact Or.inl ⟨s, hs, rfl⟩
    · exact Or.inr ⟨s, hs, hbody⟩
  · rintro (⟨s, hs, rfl⟩ | ⟨s, hs, hbody⟩)
    · exact ⟨s, hs, Or.inl rfl⟩
    · exact ⟨s, hs, Or.inr hbody⟩

/-! ## Cutting and joining -/

section Cut

variable {isHeader : L → Bool}

theorem cut_cons_header {line : L} (h : isHeader line = true) (rest : List L) :
    cut isHeader (line :: rest) =
      { preamble := []
        sections := (line, (cut isHeader rest).preamble) :: (cut isHeader rest).sections } := by
  simp [cut, h]

theorem cut_cons_plain {line : L} (h : isHeader line = false) (rest : List L) :
    cut isHeader (line :: rest) =
      { preamble := line :: (cut isHeader rest).preamble
        sections := (cut isHeader rest).sections } := by
  simp [cut, h]

theorem flatten_cut (isHeader : L → Bool) (lines : List L) : (cut isHeader lines).flatten = lines := by
  induction lines with
  | nil => rfl
  | cons line rest ih =>
      simp only [Document.flatten] at ih
      cases h : isHeader line with
      | true =>
          rw [cut_cons_header h]
          simp [Document.flatten, ih]
      | false =>
          rw [cut_cons_plain h]
          simp [Document.flatten, ih]

theorem cut_wellFormed (isHeader : L → Bool) (lines : List L) : (cut isHeader lines).WellFormed isHeader := by
  induction lines with
  | nil => constructor <;> simp [cut]
  | cons line rest ih =>
      cases h : isHeader line with
      | true =>
          rw [cut_cons_header h]
          refine ⟨by simp, ?_, ?_⟩
          · simpa using ⟨h, fun a b hmem => ih.header_marked (a, b) hmem⟩
          · simpa using ⟨ih.preamble_plain, fun a b hmem => ih.body_plain (a, b) hmem⟩
      | false =>
          rw [cut_cons_plain h]
          refine ⟨?_, ih.header_marked, ih.body_plain⟩
          simpa using ⟨h, ih.preamble_plain⟩

theorem cut_append_plain {front : List L} (hfront : ∀ x ∈ front, isHeader x = false)
    (rest : List L) :
    cut isHeader (front ++ rest) =
      { preamble := front ++ (cut isHeader rest).preamble
        sections := (cut isHeader rest).sections } := by
  induction front with
  | nil => rfl
  | cons x front ih =>
      obtain ⟨hx, htail⟩ := List.forall_mem_cons.mp hfront
      rw [List.cons_append, cut_cons_plain hx, ih htail]
      rfl

theorem cut_flattenSections {sections : List (L × List L)}
    (hheader : ∀ s ∈ sections, isHeader s.1 = true)
    (hbody : ∀ s ∈ sections, ∀ x ∈ s.2, isHeader x = false) :
    cut isHeader (flattenSections sections) = { preamble := [], sections := sections } := by
  induction sections with
  | nil => rfl
  | cons s rest ih =>
      obtain ⟨h, body⟩ := s
      obtain ⟨hh, hrest⟩ := List.forall_mem_cons.mp hheader
      obtain ⟨hb, hbrest⟩ := List.forall_mem_cons.mp hbody
      rw [flattenSections_cons, cut_cons_header hh, cut_append_plain hb, ih hrest hbrest]
      simp

/-- Sections written after some lines are cut off as they are. -/
theorem cut_append_flattenSections {sections : List (L × List L)}
    (hheader : ∀ s ∈ sections, isHeader s.1 = true)
    (hbody : ∀ s ∈ sections, ∀ x ∈ s.2, isHeader x = false) (lines : List L) :
    cut isHeader (lines ++ flattenSections sections) =
      { preamble := (cut isHeader lines).preamble
        sections := (cut isHeader lines).sections ++ sections } := by
  induction lines with
  | nil => exact cut_flattenSections hheader hbody
  | cons line rest ih =>
      cases h : isHeader line with
      | true => rw [List.cons_append, cut_cons_header h, cut_cons_header h, ih, List.cons_append]
      | false => rw [List.cons_append, cut_cons_plain h, cut_cons_plain h, ih]

/-- A well-formed document is recovered from its lines. -/
theorem cut_flatten {d : Document L} (hd : d.WellFormed isHeader) :
    cut isHeader d.flatten = d := by
  unfold Document.flatten
  rw [cut_append_plain hd.preamble_plain, cut_flattenSections hd.header_marked hd.body_plain]
  simp

/-- A header line of the text is the header of a section, and conversely. -/
theorem mem_headers_cut {x : L} {lines : List L} :
    x ∈ headers (cut isHeader lines).sections ↔ x ∈ lines ∧ isHeader x = true := by
  have hwell := cut_wellFormed isHeader lines
  constructor
  · intro hx
    obtain ⟨s, hs, rfl⟩ := List.mem_map.mp hx
    refine ⟨?_, hwell.header_marked s hs⟩
    rw [← flatten_cut isHeader lines]
    exact List.mem_append_right _ (mem_flattenSections.mpr (Or.inl hx))
  · rintro ⟨hmem, hx⟩
    rw [← flatten_cut isHeader lines] at hmem
    rcases List.mem_append.mp hmem with hpre | hsec
    · rw [hwell.preamble_plain x hpre] at hx
      cases hx
    · rcases mem_flattenSections.mp hsec with hhead | ⟨s, hs, hbody⟩
      · exact hhead
      · rw [hwell.body_plain s hs x hbody] at hx
        cases hx

end Cut

/-! ## A line at the end -/

section Snoc

variable {isHeader : L → Bool}

theorem headers_cut_append_plain {x : L} (hx : isHeader x = false) (lines : List L) :
    headers (cut isHeader (lines ++ [x])).sections = headers (cut isHeader lines).sections := by
  induction lines with
  | nil => rw [List.nil_append, cut_cons_plain hx]
  | cons line rest ih =>
      cases h : isHeader line with
      | true =>
          rw [List.cons_append, cut_cons_header h, cut_cons_header h]
          simpa [headers] using ih
      | false => rw [List.cons_append, cut_cons_plain h, cut_cons_plain h, ih]

theorem preamble_cut_append_plain {x : L} (hx : isHeader x = false) (lines : List L) :
    (cut isHeader (lines ++ [x])).preamble = (cut isHeader lines).preamble ∨
      (cut isHeader (lines ++ [x])).preamble = (cut isHeader lines).preamble ++ [x] := by
  induction lines with
  | nil =>
      right
      rw [List.nil_append, cut_cons_plain hx]
      rfl
  | cons line rest ih =>
      cases h : isHeader line with
      | true =>
          left
          rw [List.cons_append, cut_cons_header h, cut_cons_header h]
      | false =>
          rw [List.cons_append, cut_cons_plain h, cut_cons_plain h]
          exact ih.imp (congrArg (line :: ·)) (congrArg (line :: ·))

/-- A plain line at the end lengthens at most one body, at its end. -/
theorem sections_cut_append_plain {x : L} (hx : isHeader x = false) (lines : List L) :
    List.Forall₂ (fun s t => t.1 = s.1 ∧ (t.2 = s.2 ∨ t.2 = s.2 ++ [x]))
      (cut isHeader lines).sections (cut isHeader (lines ++ [x])).sections := by
  induction lines with
  | nil => simp [cut_cons_plain hx, cut]
  | cons line rest ih =>
      cases h : isHeader line with
      | true =>
          rw [List.cons_append, cut_cons_header h, cut_cons_header h]
          exact List.Forall₂.cons ⟨rfl, preamble_cut_append_plain hx rest⟩ ih
      | false =>
          rw [List.cons_append, cut_cons_plain h, cut_cons_plain h]
          exact ih

theorem exists_mem_of_forall₂ {A B : Type*} {R : A → B → Prop} {xs : List A} {ys : List B}
    (h : List.Forall₂ R xs ys) {x : A} (hx : x ∈ xs) : ∃ y ∈ ys, R x y := by
  induction h with
  | nil => cases hx
  | @cons a b xs ys hab hrest ih =>
      rcases List.mem_cons.mp hx with rfl | htail
      · exact ⟨b, List.mem_cons_self .., hab⟩
      · obtain ⟨y, hy, hxy⟩ := ih htail
        exact ⟨y, List.mem_cons_of_mem _ hy, hxy⟩

theorem mem_sections_cut_append_plain {x h : L} (hx : isHeader x = false) {lines body : List L}
    (hmem : (h, body) ∈ (cut isHeader lines).sections) :
    (h, body) ∈ (cut isHeader (lines ++ [x])).sections ∨
      (h, body ++ [x]) ∈ (cut isHeader (lines ++ [x])).sections := by
  obtain ⟨⟨k, body'⟩, ht, hk, hbody⟩ :=
    exists_mem_of_forall₂ (sections_cut_append_plain hx lines) hmem
  simp only at hk hbody
  subst hk
  rcases hbody with rfl | rfl
  · exact Or.inl ht
  · exact Or.inr ht

theorem exists_of_mem_sections_cut_append_plain {x h : L} (hx : isHeader x = false)
    {lines body : List L} (hmem : (h, body) ∈ (cut isHeader (lines ++ [x])).sections) :
    (h, body) ∈ (cut isHeader lines).sections ∨
      ∃ front, body = front ++ [x] ∧ (h, front) ∈ (cut isHeader lines).sections := by
  obtain ⟨⟨k, body'⟩, ht, hk, hbody⟩ :=
    exists_mem_of_forall₂ (sections_cut_append_plain hx lines).flip hmem
  simp only at hk hbody
  subst hk
  rcases hbody with rfl | rfl
  · exact Or.inl ht
  · exact Or.inr ⟨body', rfl, ht⟩

end Snoc

/-! ## Renaming lines -/

section Map

variable {M : Type*}

/-- Rename the lines of a section. -/
def mapSection (f : L → M) (s : L × List L) : M × List M :=
  (f s.1, s.2.map f)

/-- Rename the lines of a document. -/
def Document.map (f : L → M) (d : Document L) : Document M :=
  { preamble := d.preamble.map f
    sections := d.sections.map (mapSection f) }

theorem flattenSections_map (f : L → M) (sections : List (L × List L)) :
    flattenSections (sections.map (mapSection f)) = (flattenSections sections).map f := by
  induction sections with
  | nil => rfl
  | cons s rest ih =>
      obtain ⟨h, body⟩ := s
      simp [mapSection, ih]

theorem flatten_map (f : L → M) (d : Document L) : (d.map f).flatten = d.flatten.map f := by
  simp [Document.flatten, Document.map, flattenSections_map]

theorem cut_map {f : L → M} {isHeader : L → Bool} {isHeader' : M → Bool}
    (hheader : ∀ x, isHeader' (f x) = isHeader x) (lines : List L) :
    cut isHeader' (lines.map f) = (cut isHeader lines).map f := by
  induction lines with
  | nil => rfl
  | cons line rest ih =>
      simp only [List.map_cons, cut, hheader, ih]
      split <;> rfl

end Map

/-! ## Grouping by header -/

section Group

variable [DecidableEq L]

/-- Everything that stands under a header, over all its sections in order. -/
def bodyUnder (h : L) (sections : List (L × List L)) : List L :=
  (sections.filter fun s => s.1 = h).flatMap Prod.snd

/-- One section for each header, in order of first occurrence. -/
def group (sections : List (L × List L)) : List (L × List L) :=
  (keepFirst (fun _ => false) (headers sections)).map fun h => (h, bodyUnder h sections)

theorem bodyUnder_append (h : L) (front rest : List (L × List L)) :
    bodyUnder h (front ++ rest) = bodyUnder h front ++ bodyUnder h rest := by
  simp [bodyUnder]

theorem bodyUnder_cons_self (h : L) (body : List L) (rest : List (L × List L)) :
    bodyUnder h ((h, body) :: rest) = body ++ bodyUnder h rest := by
  simp [bodyUnder]

theorem bodyUnder_cons_of_ne {h k : L} (hne : k ≠ h) (body : List L)
    (rest : List (L × List L)) : bodyUnder h ((k, body) :: rest) = bodyUnder h rest := by
  simp [bodyUnder, hne]

theorem mem_bodyUnder {h x : L} {sections : List (L × List L)} :
    x ∈ bodyUnder h sections ↔ ∃ body, (h, body) ∈ sections ∧ x ∈ body := by
  simp only [bodyUnder, List.mem_flatMap, List.mem_filter, decide_eq_true_eq]
  constructor
  · rintro ⟨⟨k, body⟩, ⟨hs, rfl⟩, hx⟩
    exact ⟨body, hs, hx⟩
  · rintro ⟨body, hs, hx⟩
    exact ⟨(h, body), ⟨hs, rfl⟩, hx⟩

theorem bodyUnder_eq_nil {h : L} {sections : List (L × List L)}
    (hnot : h ∉ headers sections) : bodyUnder h sections = [] := by
  have hfilter : (sections.filter fun s => s.1 = h) = [] := by
    rw [List.filter_eq_nil_iff]
    intro s hs heq
    rw [decide_eq_true_eq] at heq
    exact hnot (heq ▸ List.mem_map_of_mem hs)
  rw [bodyUnder, hfilter, List.flatMap_nil]

theorem headers_group (sections : List (L × List L)) :
    headers (group sections) = keepFirst (fun _ => false) (headers sections) := by
  simp [headers, group, Function.comp_def]

theorem nodup_headers_group (sections : List (L × List L)) :
    (headers (group sections)).Nodup := by
  rw [headers_group]
  exact nodup_keepFirst_of_none _

theorem mem_headers_group {h : L} {sections : List (L × List L)} :
    h ∈ headers (group sections) ↔ h ∈ headers sections := by
  rw [headers_group, mem_keepFirst]

theorem body_eq_of_mem_group {h : L} {body : List L} {sections : List (L × List L)}
    (hmem : (h, body) ∈ group sections) : body = bodyUnder h sections := by
  obtain ⟨k, -, hk⟩ := List.mem_map.mp hmem
  obtain ⟨rfl, rfl⟩ := Prod.mk.inj hk
  rfl

theorem mem_flattenSections_group {x : L} {sections : List (L × List L)} :
    x ∈ flattenSections (group sections) ↔ x ∈ flattenSections sections := by
  rw [mem_flattenSections, mem_flattenSections, mem_headers_group]
  refine or_congr_right ?_
  constructor
  · rintro ⟨⟨h, body⟩, hs, hx⟩
    rw [body_eq_of_mem_group hs] at hx
    obtain ⟨body', hs', hx'⟩ := mem_bodyUnder.mp hx
    exact ⟨(h, body'), hs', hx'⟩
  · rintro ⟨⟨h, body⟩, hs, hx⟩
    refine ⟨(h, bodyUnder h sections), ?_, mem_bodyUnder.mpr ⟨body, hs, hx⟩⟩
    refine List.mem_map.mpr ⟨h, ?_, rfl⟩
    rw [mem_keepFirst]
    exact List.mem_map_of_mem (f := Prod.fst) hs

theorem bodyUnder_map {M : Type*} [DecidableEq M] {f : L → M} (hf : Function.Injective f)
    (h : L) (sections : List (L × List L)) :
    bodyUnder (f h) (sections.map (mapSection f)) = (bodyUnder h sections).map f := by
  induction sections with
  | nil => rfl
  | cons s rest ih =>
      obtain ⟨k, body⟩ := s
      rw [List.map_cons, mapSection]
      by_cases hk : k = h
      · subst hk
        rw [bodyUnder_cons_self, bodyUnder_cons_self, ih, List.map_append]
      · rw [bodyUnder_cons_of_ne (fun heq => hk (hf heq)), bodyUnder_cons_of_ne hk, ih]

theorem group_map {M : Type*} [DecidableEq M] {f : L → M} (hf : Function.Injective f)
    (sections : List (L × List L)) :
    group (sections.map (mapSection f)) = (group sections).map (mapSection f) := by
  have hheaders : headers (sections.map (mapSection f)) = (headers sections).map f := by
    simp [headers, mapSection, Function.comp_def]
  have hkeep : keepFrom (fun _ => false) [] ((headers sections).map f) =
      (keepFrom (fun _ => false) [] (headers sections)).map f :=
    keepFrom_map hf (fun _ => rfl) [] (headers sections)
  unfold group keepFirst
  rw [hheaders, hkeep, List.map_map, List.map_map]
  apply List.map_congr_left
  intro h _
  simp [mapSection, bodyUnder_map hf]

end Group

end SectionedDocument
end Foundation
