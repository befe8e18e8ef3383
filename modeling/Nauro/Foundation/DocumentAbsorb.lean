import Mathlib.Algebra.BigOperators.Group.List.Basic
import Nauro.Foundation.DocumentUnion

/-!
# Documents that absorb another one

A document absorbs another when every line the other has under a header was met by the end of
that section. Its union with the other then adds nothing but exempt lines.

* `countP_flatten_pad` — how many exempt lines the union adds.
-/

namespace Foundation
namespace SectionedDocument

open KeepFirst

variable {L : Type*}

/-! ## The lines that are not exempt -/

/-- A document without its exempt lines. -/
def Document.solid (exempt : L → Bool) (d : Document L) : Document L :=
  { preamble := d.preamble.filter fun x => !exempt x
    sections := d.sections.map fun s => (s.1, s.2.filter fun x => !exempt x) }

variable {exempt isHeader : L → Bool}

theorem headers_solid (exempt : L → Bool) (d : Document L) :
    headers (d.solid exempt).sections = headers d.sections := by
  simp [headers, Document.solid, Function.comp_def]

theorem flattenSections_solid {sections : List (L × List L)}
    (hheader : ∀ s ∈ sections, exempt s.1 = false) :
    flattenSections (sections.map fun s => (s.1, s.2.filter fun x => !exempt x)) =
      (flattenSections sections).filter fun x => !exempt x := by
  induction sections with
  | nil => rfl
  | cons s rest ih =>
      obtain ⟨h, body⟩ := s
      obtain ⟨hh, hrest⟩ := List.forall_mem_cons.mp hheader
      simp only at hh
      simp [ih hrest, hh]

theorem flatten_solid {d : Document L} (hheader : ∀ s ∈ d.sections, exempt s.1 = false) :
    (d.solid exempt).flatten = d.flatten.filter fun x => !exempt x := by
  unfold Document.flatten Document.solid
  rw [flattenSections_solid hheader, List.filter_append]

/-- An exempt line at the end does not show. -/
theorem solid_cut_append {x : L} (hx : isHeader x = false) (hex : exempt x = true)
    (lines : List L) :
    (cut isHeader (lines ++ [x])).solid exempt = (cut isHeader lines).solid exempt := by
  induction lines with
  | nil =>
      rw [List.nil_append, cut_cons_plain hx]
      simp [Document.solid, cut, hex]
  | cons line rest ih =>
      unfold Document.solid at ih
      obtain ⟨hpre, hsec⟩ := Document.mk.inj ih
      cases h : isHeader line with
      | true =>
          rw [List.cons_append, cut_cons_header h, cut_cons_header h]
          simp [Document.solid, hpre, hsec]
      | false =>
          rw [List.cons_append, cut_cons_plain h, cut_cons_plain h]
          simp [Document.solid, hpre, hsec, List.filter_cons]

variable [DecidableEq L]

/-! ## Adding exempt lines -/

/-- A document with the exempt lines of another, each where its section ends. -/
def pad (exempt : L → Bool) (d c : Document L) : Document L :=
  { preamble := d.preamble ++ c.preamble.filter exempt
    sections := d.sections.map fun s =>
      (s.1, s.2 ++ (bodyUnder s.1 c.sections).filter exempt) }

theorem solid_pad (d c : Document L) : (pad exempt d c).solid exempt = d.solid exempt := by
  have hdrop : ∀ xs : List L, (xs.filter exempt).filter (fun x => !exempt x) = [] := by
    intro xs
    rw [List.filter_filter, List.filter_eq_nil_iff]
    simp
  simp [Document.solid, pad, hdrop, Function.comp_def]

/-- Nothing is added when there is nothing exempt. -/
theorem pad_eq_self {d c : Document L} (hnone : ∀ x ∈ c.flatten, exempt x = false) :
    pad exempt d c = d := by
  have hpre : c.preamble.filter exempt = [] := by
    rw [List.filter_eq_nil_iff]
    intro x hx
    simp [hnone x (List.mem_append_left _ hx)]
  have hbody : ∀ h, (bodyUnder h c.sections).filter exempt = [] := by
    intro h
    rw [List.filter_eq_nil_iff]
    intro x hx
    obtain ⟨body, hs, hxb⟩ := mem_bodyUnder.mp hx
    have hflat : x ∈ c.flatten :=
      List.mem_append_right _ (mem_flattenSections.mpr (Or.inr ⟨_, hs, hxb⟩))
    simp [hnone x hflat]
  simp [pad, hpre, hbody]

theorem countP_bodyUnder_cons (p : L → Bool) (h k : L) (body : List L)
    (rest : List (L × List L)) :
    (bodyUnder h ((k, body) :: rest)).countP p =
      (if k = h then body.countP p else 0) + (bodyUnder h rest).countP p := by
  split
  · next heq => rw [heq, bodyUnder_cons_self, List.countP_append]
  · next hne => rw [bodyUnder_cons_of_ne hne, Nat.zero_add]

theorem sum_map_ite_of_nodup {hs : List L} (hnodup : hs.Nodup) {k : L} (hk : k ∈ hs) (n : Nat) :
    (hs.map fun h => if k = h then n else 0).sum = n := by
  induction hs with
  | nil => cases hk
  | cons h hs ih =>
      obtain ⟨hnot, hnodup⟩ := List.nodup_cons.mp hnodup
      rw [List.map_cons, List.sum_cons]
      by_cases heq : k = h
      · subst heq
        have hzero : (hs.map fun h => if k = h then n else 0) = hs.map fun _ => 0 := by
          apply List.map_congr_left
          intro j hj
          rw [if_neg]
          rintro rfl
          exact hnot hj
        rw [if_pos rfl, hzero]
        simp
      · rw [if_neg heq, ih hnodup ((List.mem_cons.mp hk).resolve_left heq), Nat.zero_add]

/-- Over distinct headers that include its own, the bodies of a document count once. -/
theorem sum_countP_bodyUnder {p : L → Bool} {hs : List L} (hnodup : hs.Nodup)
    {sections : List (L × List L)} (hmem : ∀ h ∈ headers sections, h ∈ hs)
    (hheader : ∀ s ∈ sections, p s.1 = false) :
    (hs.map fun h => (bodyUnder h sections).countP p).sum =
      (flattenSections sections).countP p := by
  induction sections with
  | nil => simp [bodyUnder]
  | cons s rest ih =>
      obtain ⟨k, body⟩ := s
      obtain ⟨hk, hrest⟩ := List.forall_mem_cons.mp hheader
      obtain ⟨hin, hmem⟩ := List.forall_mem_cons.mp hmem
      have hone : (hs.map fun h => if k = h then body.countP p else 0).sum = body.countP p :=
        sum_map_ite_of_nodup hnodup hin _
      simp only at hk
      simp only [countP_bodyUnder_cons, List.sum_map_add, hone, ih hmem hrest,
        flattenSections_cons, List.countP_cons, List.countP_append, hk]
      simp

omit [DecidableEq L] in
theorem countP_flattenSections_map (added : L → List L) (p : L → Bool)
    (sections : List (L × List L)) :
    (flattenSections (sections.map fun s => (s.1, s.2 ++ added s.1))).countP p =
      (flattenSections sections).countP p +
        ((headers sections).map fun h => (added h).countP p).sum := by
  induction sections with
  | nil => rfl
  | cons s rest ih =>
      obtain ⟨h, body⟩ := s
      simp only [headers, List.map_cons, flattenSections_cons, List.countP_cons,
        List.countP_append, List.sum_cons] at ih ⊢
      rw [ih]
      omega

/-- The union with an absorbed document has the exempt lines of both. -/
theorem countP_flatten_pad {d c : Document L} (hnodup : (headers d.sections).Nodup)
    (hheaders : ∀ h ∈ headers c.sections, h ∈ headers d.sections)
    (hexempt : ∀ s ∈ c.sections, exempt s.1 = false) :
    (pad exempt d c).flatten.countP exempt =
      d.flatten.countP exempt + c.flatten.countP exempt := by
  have hfilter : ∀ xs : List L, (xs.filter exempt).countP exempt = xs.countP exempt := by
    intro xs
    rw [List.countP_filter]
    simp
  have hsum := sum_countP_bodyUnder hnodup hheaders hexempt
  have hsections := countP_flattenSections_map
    (fun h => (bodyUnder h c.sections).filter exempt) exempt d.sections
  simp only [hfilter, hsum] at hsections
  unfold Document.flatten pad
  simp only [List.countP_append, hfilter, hsections]
  omega

/-! ## Absorbing a document -/

/-- Every non-exempt line that `added` puts under a header was met by the end of that
section. -/
def CoveredFrom (exempt : L → Bool) (added : L → List L) : List L → List (L × List L) → Prop
  | _, [] => True
  | seen, (h, body) :: rest =>
      (∀ x ∈ added h, exempt x = false → x ∈ seen ∨ x ∈ body) ∧
        CoveredFrom exempt added (seen ++ h :: body) rest

/-- A document without repeated lines, in which the lines of another were met in time. -/
structure Absorbs (exempt : L → Bool) (d c : Document L) : Prop where
  distinct : ((d.solid exempt).flatten).Nodup
  header : ∀ h ∈ headers c.sections, h ∈ headers d.sections
  preamble : ∀ x ∈ c.preamble, exempt x = false → x ∈ d.preamble
  covered : CoveredFrom exempt (fun h => bodyUnder h c.sections) d.preamble d.sections

omit [DecidableEq L] in
theorem coveredFrom_congr {added : L → List L} {seen seen' : List L}
    {sections sections' : List (L × List L)}
    (hseen : ∀ x, exempt x = false → (x ∈ seen ↔ x ∈ seen'))
    (hsame : (sections.map fun s => (s.1, s.2.filter fun x => !exempt x)) =
      sections'.map fun s => (s.1, s.2.filter fun x => !exempt x))
    (h : CoveredFrom exempt added seen sections) : CoveredFrom exempt added seen' sections' := by
  induction sections generalizing sections' seen seen' with
  | nil =>
      rw [List.map_nil, eq_comm, List.map_eq_nil_iff] at hsame
      rw [hsame]
      trivial
  | cons s rest ih =>
      obtain ⟨k, body⟩ := s
      cases sections' with
      | nil => cases hsame
      | cons s' rest' =>
          obtain ⟨k', body'⟩ := s'
          simp only [List.map_cons, List.cons.injEq, Prod.mk.injEq] at hsame
          obtain ⟨⟨rfl, hbody⟩, hrest⟩ := hsame
          have hmem : ∀ x, exempt x = false → (x ∈ body ↔ x ∈ body') := by
            intro x hx
            have hiff := congrArg (x ∈ ·) hbody
            simpa [List.mem_filter, hx] using hiff
          obtain ⟨hhead, htail⟩ := h
          refine ⟨fun x hx hex => ?_, ih ?_ hrest htail⟩
          · exact (hhead x hx hex).imp (hseen x hex).mp (hmem x hex).mp
          · intro x hex
            simp only [List.mem_append, List.mem_cons, hseen x hex, hmem x hex]

/-- Whether a document absorbs another does not depend on its exempt lines. -/
theorem absorbs_congr {d d' c : Document L} (hsolid : d.solid exempt = d'.solid exempt)
    (h : Absorbs exempt d c) : Absorbs exempt d' c := by
  have hheaders : headers d.sections = headers d'.sections := by
    rw [← headers_solid exempt, hsolid, headers_solid]
  obtain ⟨hpre, hsections⟩ := Document.mk.inj hsolid
  have hmem : ∀ x, exempt x = false → (x ∈ d.preamble ↔ x ∈ d'.preamble) := by
    intro x hx
    have hiff := congrArg (x ∈ ·) hpre
    simpa [List.mem_filter, hx] using hiff
  refine ⟨hsolid ▸ h.distinct, hheaders ▸ h.header, ?_, ?_⟩
  · intro x hx hex
    exact (hmem x hex).mp (h.preamble x hx hex)
  · exact coveredFrom_congr hmem hsections h.covered

/-- A pass over lines that were all met keeps the exempt ones. -/
theorem keepFrom_eq_filter {seen xs : List L} (hseen : ∀ x ∈ xs, exempt x = false → x ∈ seen) :
    keepFrom exempt seen xs = xs.filter exempt := by
  induction xs with
  | nil => rfl
  | cons x xs ih =>
      obtain ⟨hx, hxs⟩ := List.forall_mem_cons.mp hseen
      cases hex : exempt x with
      | true => rw [keepFrom_cons_exempt hex, ih hxs, List.filter_cons_of_pos hex]
      | false =>
          rw [keepFrom_cons_seen hex (hx hex), ih hxs, List.filter_cons_of_neg (by simp [hex])]

theorem keepSections_extend {added : L → List L} {seen seen' : List L}
    {sections : List (L × List L)} (hseen : ∀ x, exempt x = false → (x ∈ seen ↔ x ∈ seen'))
    (hkeep : keepSections exempt seen sections = sections)
    (hcovered : CoveredFrom exempt added seen sections) :
    keepSections exempt seen' (sections.map fun s => (s.1, s.2 ++ added s.1)) =
      sections.map fun s => (s.1, s.2 ++ (added s.1).filter exempt) := by
  induction sections generalizing seen seen' with
  | nil => rfl
  | cons s rest ih =>
      obtain ⟨h, body⟩ := s
      simp only [keepSections, List.cons.injEq, Prod.mk.injEq, true_and] at hkeep
      obtain ⟨hbody, hrest⟩ := hkeep
      obtain ⟨hhead, htail⟩ := hcovered
      have hkept : keepFrom exempt seen' body = body := by
        rw [← keepFrom_congr body fun x _ hex => hseen x hex, hbody]
      have hadded : keepFrom exempt (seen' ++ body) (added h) = (added h).filter exempt := by
        apply keepFrom_eq_filter
        intro x hx hex
        rw [List.mem_append, ← hseen x hex]
        exact hhead x hx hex
      have hnext : ∀ x, exempt x = false →
          (x ∈ seen ++ h :: body ↔ x ∈ seen' ++ h :: (body ++ added h)) := by
        intro x hex
        have hnew := hhead x
        simp only [List.mem_append, List.mem_cons, ← hseen x hex]
        tauto
      simp only [List.map_cons, keepSections]
      rw [keepFrom_append, hkept, hadded, ih hnext hrest htail]

section Unite

variable {d c : Document L}

omit [DecidableEq L] in
theorem exempt_header (hd : d.WellFormed isHeader)
    (hexempt : ∀ x, isHeader x = true → exempt x = false) : ∀ s ∈ d.sections, exempt s.1 = false :=
  fun s hs => hexempt s.1 (hd.header_marked s hs)

theorem Absorbs.nodup_headers (h : Absorbs exempt d c) : (headers d.sections).Nodup := by
  have hsub : (headers (d.solid exempt).sections).Sublist (d.solid exempt).flatten := by
    unfold Document.flatten
    refine List.Sublist.trans ?_ (List.sublist_append_right _ _)
    induction (d.solid exempt).sections with
    | nil => exact List.Sublist.refl _
    | cons s rest ih =>
        obtain ⟨k, body⟩ := s
        rw [flattenSections_cons]
        exact (ih.trans (List.sublist_append_right body _)).cons_cons k
  rw [← headers_solid exempt]
  exact h.distinct.sublist hsub

/-- A document without repeated lines is left alone by a pass over it. -/
theorem keepDocument_eq_self (hd : d.WellFormed isHeader)
    (hexempt : ∀ x, isHeader x = true → exempt x = false) (h : Absorbs exempt d c) :
    keepDocument exempt d = d := by
  have hdistinct := h.distinct
  rw [flatten_solid (exempt_header hd hexempt)] at hdistinct
  have hself : keepFirst exempt d.flatten = d.flatten :=
    keepFrom_eq_self_iff.mpr ⟨hdistinct, by simp⟩
  rw [keepFirst_flatten hd hexempt h.nodup_headers] at hself
  rw [← cut_flatten (keepDocument_wellFormed hd), hself, cut_flatten hd]

theorem group_append_of_subset (hnodup : (headers d.sections).Nodup)
    (hheaders : ∀ h ∈ headers c.sections, h ∈ headers d.sections) :
    group (d.sections ++ c.sections) =
      d.sections.map fun s => (s.1, s.2 ++ bodyUnder s.1 c.sections) := by
  obtain ⟨more, hmore⟩ := group_append_of_nodup hnodup c.sections
  have hlen : (headers (group (d.sections ++ c.sections))).length = d.sections.length := by
    have hkeep : keepFirst (fun _ => false) (headers d.sections ++ headers c.sections) =
        headers d.sections := by
      have hfront : keepFrom (fun _ => false) [] (headers d.sections) = headers d.sections :=
        keepFrom_eq_self_iff.mpr ⟨by simpa using hnodup, by simp⟩
      have hback : keepFrom (fun _ => false) ([] ++ headers d.sections) (headers c.sections) =
          [] := by
        rw [keepFrom_eq_filter fun x hx _ => by simpa using hheaders x hx]
        simp
      rw [keepFirst, keepFrom_append, hfront, hback, List.append_nil]
    have hheads : headers (d.sections ++ c.sections) =
        headers d.sections ++ headers c.sections := List.map_append ..
    rw [headers_group, hheads, hkeep]
    exact List.length_map ..
  have hnil : more = [] := by
    rw [hmore] at hlen
    simpa [headers] using hlen
  rw [hmore, hnil, List.append_nil]

/-- The union with an absorbed document adds its exempt lines and no others. -/
theorem unite_eq_pad (hd : d.WellFormed isHeader)
    (hexempt : ∀ x, isHeader x = true → exempt x = false) (h : Absorbs exempt d c) :
    unite exempt d c = pad exempt d c := by
  have hself := keepDocument_eq_self hd hexempt h
  obtain ⟨hpre, hsections⟩ := Document.mk.inj hself
  have hpreamble : keepFirst exempt (d.preamble ++ c.preamble) =
      d.preamble ++ c.preamble.filter exempt := by
    have hback : keepFrom exempt ([] ++ d.preamble) c.preamble = c.preamble.filter exempt :=
      keepFrom_eq_filter h.preamble
    unfold keepFirst at hpre ⊢
    rw [keepFrom_append, hpre, hback]
  have hseen : ∀ x, exempt x = false → (x ∈ d.preamble ↔ x ∈ d.preamble ++ c.preamble) := by
    intro x hex
    have hnew := h.preamble x
    simp only [List.mem_append]
    tauto
  have hextend := keepSections_extend hseen hsections h.covered
  unfold unite overlay keepDocument pad
  rw [hpreamble, group_append_of_subset h.nodup_headers h.header, hextend]

end Unite

/-! ## What is absorbed -/

omit [DecidableEq L] in
theorem coveredFrom_of_subset {added : L → List L} {seen : List L} {sections : List (L × List L)}
    (hsub : ∀ s ∈ sections, ∀ x ∈ added s.1, x ∈ s.2) :
    CoveredFrom exempt added seen sections := by
  induction sections generalizing seen with
  | nil => trivial
  | cons s rest ih =>
      obtain ⟨h, body⟩ := s
      obtain ⟨hhead, htail⟩ := List.forall_mem_cons.mp hsub
      exact ⟨fun x hx _ => Or.inr (hhead x hx), ih htail⟩

/-- What stands in a body before the pass is met in time after it. -/
theorem coveredFrom_keepSections {added : L → List L} {seen seen' : List L}
    {sections : List (L × List L)} (hseen : ∀ x, exempt x = false → (x ∈ seen ↔ x ∈ seen'))
    (hsub : ∀ s ∈ sections, ∀ x ∈ added s.1, x ∈ s.2) :
    CoveredFrom exempt added seen' (keepSections exempt seen sections) := by
  induction sections generalizing seen seen' with
  | nil => trivial
  | cons s rest ih =>
      obtain ⟨h, body⟩ := s
      obtain ⟨hhead, htail⟩ := List.forall_mem_cons.mp hsub
      have hkept : ∀ x, exempt x = false → (x ∈ keepFrom exempt seen body ↔ x ∈ body ∧ x ∉ seen) := by
        intro x hex
        rw [mem_keepFrom]
        simp [hex]
      refine ⟨fun x hx hex => ?_, ih (fun x hex => ?_) htail⟩
      · rw [hkept x hex, ← hseen x hex]
        have hbody := hhead x hx
        tauto
      · have hold := hkept x hex
        simp only [List.mem_append, List.mem_cons, hold, ← hseen x hex]
        tauto

variable {front back : Document L}

/-- A union absorbs what stands within its overlay, header by header. -/
theorem absorbs_unite (hfront : front.WellFormed isHeader) (hback : back.WellFormed isHeader)
    (hexempt : ∀ x, isHeader x = true → exempt x = false) {c : Document L}
    (hheaders : ∀ h ∈ headers c.sections, h ∈ headers front.sections ∨ h ∈ headers back.sections)
    (hpreamble : ∀ x ∈ c.preamble, x ∈ front.preamble ++ back.preamble)
    (hbody : ∀ h, ∀ x ∈ bodyUnder h c.sections, x ∈ bodyUnder h (front.sections ++ back.sections)) :
    Absorbs exempt (unite exempt front back) c := by
  have hwell : (unite exempt front back).WellFormed isHeader := unite_wellFormed hfront hback
  constructor
  · rw [flatten_solid (exempt_header hwell hexempt), ← keepFirst_overlay hfront hback hexempt]
    exact nodup_filter_keepFrom _ _ _
  · intro h hh
    rw [headers_unite, mem_keepFirst, List.mem_append]
    exact hheaders h hh
  · intro x hx _
    exact mem_keepFirst.mpr (hpreamble x hx)
  · refine coveredFrom_keepSections (fun x _ => mem_keepFirst.symm) ?_
    rintro ⟨h, body⟩ hs x hx
    rw [body_eq_of_mem_group hs]
    exact hbody h x hx

/-- A union absorbs its first document. -/
theorem absorbs_unite_left (hfront : front.WellFormed isHeader) (hback : back.WellFormed isHeader)
    (hexempt : ∀ x, isHeader x = true → exempt x = false) :
    Absorbs exempt (unite exempt front back) front := by
  refine absorbs_unite hfront hback hexempt (fun h hh => Or.inl hh)
    (fun x hx => List.mem_append_left _ hx) ?_
  intro h x hx
  rw [bodyUnder_append]
  exact List.mem_append_left _ hx

/-- A union absorbs its second document. -/
theorem absorbs_unite_right (hfront : front.WellFormed isHeader)
    (hback : back.WellFormed isHeader)
    (hexempt : ∀ x, isHeader x = true → exempt x = false) :
    Absorbs exempt (unite exempt front back) back := by
  refine absorbs_unite hfront hback hexempt (fun h hh => Or.inr hh)
    (fun x hx => List.mem_append_right _ hx) ?_
  intro h x hx
  rw [bodyUnder_append]
  exact List.mem_append_right _ hx

/-- A document without repeated lines absorbs itself. -/
theorem absorbs_self {d : Document L} (hd : d.WellFormed isHeader)
    (hexempt : ∀ x, isHeader x = true → exempt x = false)
    (hdistinct : (d.flatten.filter fun x => !exempt x).Nodup) : Absorbs exempt d d := by
  have hsolid : (d.solid exempt).flatten.Nodup := by
    rwa [flatten_solid (exempt_header hd hexempt)]
  have htrivial : Absorbs exempt d ⟨[], []⟩ :=
    ⟨hsolid, by simp [headers], by simp, coveredFrom_of_subset (by simp [bodyUnder])⟩
  refine ⟨hsolid, fun _ h => h, fun _ h _ => h, coveredFrom_of_subset ?_⟩
  intro s hs x hx
  rwa [bodyUnder_eq_of_mem htrivial.nodup_headers hs] at hx

end SectionedDocument
end Foundation
