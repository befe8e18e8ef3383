import Mathlib.Data.List.Basic

/-!
# Cutting a sequence into lines that keep their ends

A sequence is cut after each element that ends a line; whether it does may depend on what
follows it, so that a pair can end one line together.

* `cutAfter_refine` — more line ends cut each line further.
-/

namespace Foundation
namespace LineCuts

variable {α : Type}

/-- The lines of a sequence, each with what ends it. -/
def cutAfter (ends : α → Option α → Bool) : List α → List (List α)
  | [] => []
  | a :: rest =>
      if ends a rest.head? then [a] :: cutAfter ends rest
      else
        match cutAfter ends rest with
        | [] => [[a]]
        | line :: lines => (a :: line) :: lines

/-- An element that ends a line whatever follows it. -/
def Ends (ends : α → Option α → Bool) (a : α) : Prop :=
  ∀ next, ends a next = true

variable {ends : α → Option α → Bool}

theorem cutAfter_cons_end {a : α} {rest : List α} (h : ends a rest.head? = true) :
    cutAfter ends (a :: rest) = [a] :: cutAfter ends rest := by
  rw [cutAfter, if_pos h]

theorem cutAfter_cons_inner {a : α} {rest line : List α} {lines : List (List α)}
    (h : ends a rest.head? = false) (hrest : cutAfter ends rest = line :: lines) :
    cutAfter ends (a :: rest) = (a :: line) :: lines := by
  rw [cutAfter, if_neg (by rw [h]; exact Bool.false_ne_true), hrest]

theorem cutAfter_eq_nil {text : List α} : cutAfter ends text = [] ↔ text = [] := by
  constructor
  · intro h
    cases text with
    | nil => rfl
    | cons a rest =>
        rw [cutAfter] at h
        split at h
        · cases h
        · split at h <;> cases h
  · rintro rfl
    rfl

/-- Nothing is lost. -/
theorem flatten_cutAfter (text : List α) : (cutAfter ends text).flatten = text := by
  induction text with
  | nil => rfl
  | cons a rest ih =>
      by_cases hend : ends a rest.head? = true
      · rw [cutAfter_cons_end hend, List.flatten_cons, ih, List.singleton_append]
      · rw [Bool.not_eq_true] at hend
        cases hrest : cutAfter ends rest with
        | nil =>
            have hnil : rest = [] := cutAfter_eq_nil.mp hrest
            subst hnil
            rw [cutAfter, hend]
            rfl
        | cons line lines =>
            rw [hrest, List.flatten_cons] at ih
            rw [cutAfter_cons_inner hend hrest, List.flatten_cons, List.cons_append, ih]

theorem ne_nil_of_mem_cutAfter {text line : List α} (hline : line ∈ cutAfter ends text) :
    line ≠ [] := by
  induction text generalizing line with
  | nil => cases hline
  | cons a rest ih =>
      rw [cutAfter] at hline
      split at hline
      · rcases List.mem_cons.mp hline with rfl | hin
        · exact List.cons_ne_nil _ _
        · exact ih hin
      · split at hline
        · rw [List.mem_singleton.mp hline]
          exact List.cons_ne_nil _ _
        · next first others hrest =>
            rcases List.mem_cons.mp hline with rfl | hin
            · exact List.cons_ne_nil _ _
            · exact ih (by rw [hrest]; exact List.mem_cons_of_mem _ hin)

/-- A text whose last element ends a line, before what follows and before nothing, is cut apart from
what follows. -/
theorem cutAfter_append_of_ends {front rest : List α}
    (hfront : ∀ a ∈ front.getLast?, ends a none = true ∧ ends a rest.head? = true) :
    cutAfter ends (front ++ rest) = cutAfter ends front ++ cutAfter ends rest := by
  induction front with
  | nil => rfl
  | cons a front ih =>
      cases front with
      | nil =>
          obtain ⟨hnone, hrest⟩ := hfront a rfl
          rw [List.singleton_append, cutAfter_cons_end hrest, cutAfter_cons_end hnone]
          rfl
      | cons b front =>
          have hrec := ih fun c hc => hfront c (by rwa [List.getLast?_cons_cons])
          have hhead : (b :: front ++ rest).head? = (b :: front).head? := rfl
          by_cases hend : ends a (b :: front).head? = true
          · rw [List.cons_append, cutAfter_cons_end (hhead ▸ hend), cutAfter_cons_end hend, hrec,
              List.cons_append]
          · rw [Bool.not_eq_true] at hend
            obtain ⟨line, lines, hlines⟩ :=
              List.exists_cons_of_ne_nil (mt cutAfter_eq_nil.mp (List.cons_ne_nil b front))
            have hwhole : cutAfter ends (b :: front ++ rest) =
                line :: (lines ++ cutAfter ends rest) := by
              rw [hrec, hlines]
              rfl
            rw [List.cons_append, cutAfter_cons_inner (hhead ▸ hend) hwhole,
              cutAfter_cons_inner hend hlines, List.cons_append]

/-- A text whose last element always ends a line is cut apart from what follows. -/
theorem cutAfter_append {front : List α} (hfront : ∀ a ∈ front.getLast?, Ends ends a)
    (rest : List α) :
    cutAfter ends (front ++ rest) = cutAfter ends front ++ cutAfter ends rest :=
  cutAfter_append_of_ends fun a ha => ⟨hfront a ha _, hfront a ha _⟩

/-- A pair that ends one line together stands where its first element alone would end it. -/
theorem cutAfter_append_pair {a b : α} (ha : ends a none = true) (hab : ends a (some b) = false)
    (hb : Ends ends b) (front : List α) :
    ∃ init last, cutAfter ends (front ++ [a]) = init ++ [last ++ [a]] ∧
      cutAfter ends (front ++ [a, b]) = init ++ [last ++ [a, b]] := by
  have hpair : cutAfter ends [b] = [[b]] := cutAfter_cons_end (hb _)
  induction front with
  | nil => exact ⟨[], [], cutAfter_cons_end ha, cutAfter_cons_inner hab hpair⟩
  | cons c front ih =>
      obtain ⟨init, last, hfirst, hsecond⟩ := ih
      have hhead : (front ++ [a, b]).head? = (front ++ [a]).head? := by
        cases front <;> rfl
      by_cases hend : ends c (front ++ [a]).head? = true
      · refine ⟨[c] :: init, last, ?_, ?_⟩
        · rw [List.cons_append, cutAfter_cons_end hend, hfirst, List.cons_append]
        · rw [List.cons_append, cutAfter_cons_end (hhead ▸ hend), hsecond, List.cons_append]
      · rw [Bool.not_eq_true] at hend
        cases init with
        | nil =>
            exact ⟨[], c :: last, cutAfter_cons_inner hend hfirst,
              cutAfter_cons_inner (hhead ▸ hend) hsecond⟩
        | cons first init =>
            exact ⟨(c :: first) :: init, last, cutAfter_cons_inner hend hfirst,
              cutAfter_cons_inner (hhead ▸ hend) hsecond⟩

/-- The lines of a text, cut again, are the same lines, from the front and from the back. -/
theorem cutAfter_flatten {text : List α} {front back : List (List α)}
    (hnone : ∀ a next, ends a next = true → ends a none = true)
    (hcut : cutAfter ends text = front ++ back) :
    cutAfter ends front.flatten = front ∧ cutAfter ends back.flatten = back := by
  induction text generalizing front with
  | nil =>
      obtain ⟨rfl, rfl⟩ := List.append_eq_nil_iff.mp hcut.symm
      exact ⟨rfl, rfl⟩
  | cons a rest ih =>
      cases front with
      | nil =>
          rw [List.nil_append] at hcut
          rw [← hcut, flatten_cutAfter]
          exact ⟨rfl, rfl⟩
      | cons first front =>
          have hflatten : (cutAfter ends rest).flatten = rest := flatten_cutAfter rest
          by_cases hend : ends a rest.head? = true
          · rw [cutAfter_cons_end hend, List.cons_append] at hcut
            obtain ⟨rfl, hrest⟩ := List.cons.inj hcut
            obtain ⟨hfront, hback⟩ := ih hrest
            refine ⟨?_, hback⟩
            have hhead : ends a front.flatten.head? = true := by
              cases front with
              | nil => exact hnone a _ hend
              | cons second front =>
                  have hmem : second ∈ cutAfter ends rest := by
                    rw [hrest]
                    exact List.mem_cons_self ..
                  have hne : second ≠ [] := ne_nil_of_mem_cutAfter hmem
                  obtain ⟨b, second, rfl⟩ := List.exists_cons_of_ne_nil hne
                  rw [hrest] at hflatten
                  rwa [← hflatten] at hend
            rw [List.flatten_cons, List.singleton_append, cutAfter_cons_end hhead, hfront]
          · rw [Bool.not_eq_true] at hend
            cases hrest : cutAfter ends rest with
            | nil =>
                rw [cutAfter, hend, hrest, List.cons_append] at hcut
                obtain ⟨rfl, hnil⟩ := List.cons.inj hcut
                obtain ⟨rfl, rfl⟩ := List.append_eq_nil_iff.mp hnil.symm
                have hrestNil : rest = [] := cutAfter_eq_nil.mp hrest
                subst hrestNil
                refine ⟨?_, rfl⟩
                rw [List.flatten_cons, List.flatten_nil, List.append_nil, cutAfter, hend]
                rfl
            | cons line lines =>
                rw [cutAfter_cons_inner hend hrest, List.cons_append] at hcut
                obtain ⟨rfl, rfl⟩ := List.cons.inj hcut
                have hline : cutAfter ends rest = (line :: front) ++ back := hrest
                obtain ⟨hfront, hback⟩ := ih hline
                refine ⟨?_, hback⟩
                have hne : line ≠ [] := ne_nil_of_mem_cutAfter (hrest ▸ List.mem_cons_self ..)
                obtain ⟨b, line, rfl⟩ := List.exists_cons_of_ne_nil hne
                have hhead : ends a ((b :: line) :: front).flatten.head? = false := by
                  rw [hrest] at hflatten
                  rwa [← hflatten] at hend
                rw [List.flatten_cons, List.cons_append]
                exact cutAfter_cons_inner hhead hfront

/-- Elements that never end a line stay with the line they begin. -/
theorem cutAfter_unbroken_append {front : List α}
    (hfront : ∀ a ∈ front, ∀ next, ends a next = false) (hne : front ≠ []) (rest : List α) :
    cutAfter ends (front ++ rest) =
      (front ++ (cutAfter ends rest).headD []) :: (cutAfter ends rest).tail := by
  induction front with
  | nil => exact absurd rfl hne
  | cons a front ih =>
      have hinner : ends a (front ++ rest).head? = false := hfront a (List.mem_cons_self ..) _
      by_cases hfronts : front = []
      · subst hfronts
        rw [List.singleton_append, cutAfter, if_neg (by simpa using hinner)]
        cases cutAfter ends rest with
        | nil => rfl
        | cons line lines => rfl
      · have htail := ih (fun b hb => hfront b (List.mem_cons_of_mem _ hb)) hfronts
        rw [List.cons_append, cutAfter_cons_inner hinner htail, List.cons_append]

/-- Every line but the last one is ended. -/
theorem cutAfter_front {text line : List α} {front back : List (List α)}
    (hcut : cutAfter ends text = front ++ line :: back) :
    ∀ part ∈ front, ∃ inner last next, part = inner ++ [last] ∧ ends last next = true := by
  induction text generalizing front with
  | nil => exact absurd hcut.symm (by simp [cutAfter])
  | cons a rest ih =>
      cases front with
      | nil => exact fun _ h => absurd h List.not_mem_nil
      | cons first front =>
          by_cases hend : ends a rest.head? = true
          · rw [cutAfter_cons_end hend, List.cons_append] at hcut
            obtain ⟨rfl, hrest⟩ := List.cons.inj hcut
            exact List.forall_mem_cons.mpr ⟨⟨[], a, _, rfl, hend⟩, ih hrest⟩
          · rw [Bool.not_eq_true] at hend
            cases hrest : cutAfter ends rest with
            | nil =>
                rw [cutAfter, hend, hrest] at hcut
                exact absurd (congrArg List.length hcut) (by simp)
            | cons second others =>
                rw [cutAfter_cons_inner hend hrest, List.cons_append] at hcut
                obtain ⟨rfl, rfl⟩ := List.cons.inj hcut
                have hall : ∀ part ∈ second :: front, ∃ inner last next,
                    part = inner ++ [last] ∧ ends last next = true := ih hrest
                obtain ⟨inner, last, next, rfl, hlast⟩ := hall _ (List.mem_cons_self ..)
                exact List.forall_mem_cons.mpr ⟨⟨a :: inner, last, next, rfl, hlast⟩,
                  fun part hpart => hall part (List.mem_cons_of_mem _ hpart)⟩

/-- Cutting further: what ends a line for `coarse` ends one for `fine`, whatever follows. -/
theorem cutAfter_refine {coarse fine : α → Option α → Bool}
    (h : ∀ a next, coarse a next = true → Ends fine a) (text : List α) :
    cutAfter fine text = (cutAfter coarse text).flatMap (cutAfter fine) := by
  induction text with
  | nil => rfl
  | cons a rest ih =>
      by_cases hend : coarse a rest.head? = true
      · have hfine := h a _ hend
        rw [cutAfter_cons_end hend, cutAfter_cons_end (hfine _), List.flatMap_cons, ← ih,
          cutAfter_cons_end (hfine _)]
        rfl
      · rw [Bool.not_eq_true] at hend
        cases hrest : cutAfter coarse rest with
        | nil =>
            have hnil : rest = [] := cutAfter_eq_nil.mp hrest
            subst hnil
            rw [show cutAfter coarse [a] = [[a]] by rw [cutAfter, hend]; rfl]
            exact (List.append_nil _).symm
        | cons line lines =>
            rw [hrest, List.flatMap_cons] at ih
            rw [cutAfter_cons_inner hend hrest, List.flatMap_cons]
            have hne : line ≠ [] := ne_nil_of_mem_cutAfter (hrest ▸ List.mem_cons_self ..)
            obtain ⟨b, line, rfl⟩ := List.exists_cons_of_ne_nil hne
            have hhead : rest.head? = some b := by
              have hflat : (cutAfter coarse rest).flatten = rest := flatten_cutAfter rest
              rw [← hflat, hrest]
              rfl
            obtain ⟨first, others, hfirst⟩ :=
              List.exists_cons_of_ne_nil (mt cutAfter_eq_nil.mp (List.cons_ne_nil b line))
            rw [hfirst, List.cons_append] at ih
            cases hfine : fine a (some b) with
            | true =>
                rw [cutAfter_cons_end (hhead ▸ hfine), cutAfter_cons_end (hfine), hfirst, ih,
                  List.cons_append, List.cons_append]
            | false =>
                rw [cutAfter_cons_inner (hhead ▸ hfine) ih, cutAfter_cons_inner hfine hfirst,
                  List.cons_append]

end LineCuts
end Foundation
