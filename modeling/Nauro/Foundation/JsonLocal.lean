import Nauro.Foundation.JsonRoundTrip

/-!
# What stands behind a JSON value does not change it

A reader that has read a value has not looked at what follows it, when the value ends with a
delimiter of its own or when something stands behind it that does not continue a number.

* `not_read_of_append` — a proper beginning of a text that is an object is no value.
-/

namespace Foundation
namespace Json

variable {ε : Type}

/-! ## Literals -/

/-- Something stands behind a value that does not continue a number. -/
def Stops (rest : Str) : Prop :=
  rest ≠ [] ∧ EndsNumber rest

theorem Stops.append {rest : Str} (h : Stops rest) (more : Str) : Stops (rest ++ more) := by
  obtain ⟨p, tail, rfl⟩ := List.exists_cons_of_ne_nil h.1
  exact ⟨List.cons_ne_nil _ _, h.2⟩

theorem readUnits_plain {p : CodePoint} (hquote : p ≠ .scalar '"')
    (hplain : ¬ (p = .scalar '\\' ∨ p.toNat < 0x20)) (rest : Str) :
    readUnits (p :: rest) = (readUnits rest).map fun r => (.plain p :: r.1, r.2) := by
  rw [readUnits.eq_def]
  split
  · next heq => cases heq
  · next heq => cases heq; exact absurd rfl hquote
  · next heq => cases heq; exact absurd (Or.inl rfl) hplain
  · next heq => cases heq; exact absurd (Or.inl rfl) hplain
  · next heq =>
      cases heq
      rw [if_neg hplain]

theorem readUnits_short {e : CodePoint} {c : Char} (h : shortEscape? e = some c) (rest : Str) :
    readUnits (.scalar '\\' :: e :: rest) =
      (readUnits rest).map fun r => (.plain (.scalar c) :: r.1, r.2) := by
  have hu : e ≠ .scalar 'u' := by
    rintro rfl
    cases h
  rw [readUnits.eq_def]
  split
  · next heq => cases heq
  · next heq => cases heq
  · next heq => cases heq; exact absurd rfl hu
  · next heq => cases heq; rw [h]
  · next hne heq => cases heq; exact (hne e rest rfl rfl).elim

theorem readUnits_append {s : Str} : ∀ {units : List StringUnit} {rest : Str},
    readUnits s = some (units, rest) → ∀ more, readUnits (s ++ more) = some (units, rest ++ more) := by
  induction s using readUnits.induct with
  | case1 =>
      intro units rest h
      cases h
  | case2 rest =>
      intro units rest' h more
      cases h
      rfl
  | case3 a b c d rest hhex =>
      intro units rest' h
      rw [readUnits, hhex] at h
      cases h
  | case4 a b c d rest n hhex ih =>
      intro units rest' h more
      rw [readUnits, hhex] at h
      obtain ⟨⟨units, rest'⟩, hread, heq⟩ := Option.map_eq_some_iff.mp h
      cases heq
      simp only [List.cons_append]
      rw [readUnits, hhex]
      exact Option.map_eq_some_iff.mpr ⟨_, ih hread more, rfl⟩
  | case5 e rest hne hshort =>
      intro units rest' h
      rw [readUnits, hshort] at h
      · cases h
      · exact hne
  | case6 e rest hne c hshort ih =>
      intro units rest' h more
      rw [readUnits_short hshort] at h
      obtain ⟨⟨units, rest'⟩, hread, heq⟩ := Option.map_eq_some_iff.mp h
      cases heq
      simp only [List.cons_append]
      rw [readUnits_short hshort]
      exact Option.map_eq_some_iff.mpr ⟨_, ih hread more, rfl⟩
  | case7 p rest hquote hhex hshort hp =>
      intro units rest' h
      rw [readUnits, if_pos hp] at h
      · cases h
      · exact hquote
      · exact hhex
      · exact hshort
  | case8 p rest hquote hhex hshort hp ih =>
      intro units rest' h more
      have hne : p ≠ .scalar '"' := fun heq => hquote heq
      rw [readUnits_plain hne hp] at h
      obtain ⟨⟨units, rest'⟩, hread, heq⟩ := Option.map_eq_some_iff.mp h
      cases heq
      simp only [List.cons_append]
      rw [readUnits_plain hne hp]
      exact Option.map_eq_some_iff.mpr ⟨_, ih hread more, rfl⟩

theorem readString_append {s name rest : Str} (h : readString s = some (name, rest)) (more : Str) :
    readString (s ++ more) = some (name, rest ++ more) := by
  obtain ⟨⟨units, rest'⟩, hread, heq⟩ := Option.map_eq_some_iff.mp h
  cases heq
  exact Option.map_eq_some_iff.mpr ⟨_, readUnits_append hread more, rfl⟩

theorem skipSpace_append {s : Str} (h : skipSpace s ≠ []) (more : Str) :
    skipSpace (s ++ more) = skipSpace s ++ more := by
  induction s with
  | nil => exact absurd rfl h
  | cons p rest ih =>
      cases p with
      | surrogate n => rfl
      | scalar c =>
          rw [List.cons_append, skipSpace, skipSpace]
          by_cases hspace : c = ' ' ∨ c = '\t' ∨ c = '\n' ∨ c = '\r'
          · rw [skipSpace, if_pos hspace] at h
            rw [if_pos hspace, if_pos hspace, ih h]
          · rw [if_neg hspace, if_neg hspace, List.cons_append]

/-! ## Numbers -/

theorem readDigits_append_more {s : Str} (h : (readDigits s).2 ≠ []) (more : Str) :
    readDigits (s ++ more) = ((readDigits s).1, (readDigits s).2 ++ more) := by
  induction s with
  | nil => exact absurd rfl h
  | cons p rest ih =>
      cases p with
      | surrogate n => rfl
      | scalar c =>
          by_cases hdigit : c.isDigit = true
          · rw [readDigits, if_pos hdigit] at h
            rw [List.cons_append, readDigits, readDigits, if_pos hdigit, if_pos hdigit, ih h]
          · rw [List.cons_append, readDigits, readDigits, if_neg hdigit, if_neg hdigit,
              List.cons_append]

theorem readIntPart_append {s : Str} (h : (readIntPart s).2 ≠ []) (more : Str) :
    readIntPart (s ++ more) = ((readIntPart s).1, (readIntPart s).2 ++ more) := by
  by_cases hzero : s.head? = some (.scalar '0')
  · obtain ⟨rest, rfl⟩ := List.head?_eq_some_iff.mp hzero
    rfl
  · have hread : ∀ t : Str, t.head? ≠ some (.scalar '0') → readIntPart t = readDigits t := by
      intro t ht
      unfold readIntPart
      split
      · exact absurd rfl ht
      · rfl
    rw [hread s hzero] at h ⊢
    cases s with
    | nil => exact absurd rfl h
    | cons p rest =>
        have hhead : (p :: rest ++ more).head? ≠ some (.scalar '0') := hzero
        rw [hread _ hhead]
        exact readDigits_append_more h more

/-- A fraction ends before something that is no point. -/
theorem readFraction_append {s : Str} (hne : (readFraction s).2 ≠ [])
    (hends : (readFraction s).2.head? ≠ some (.scalar '.')) (more : Str) :
    readFraction (s ++ more) = ((readFraction s).1, (readFraction s).2 ++ more) := by
  by_cases hpoint : s.head? = some (.scalar '.')
  · obtain ⟨rest, rfl⟩ := List.head?_eq_some_iff.mp hpoint
    have hread : ∀ t : Str, readFraction (.scalar '.' :: t) =
        if (readDigits t).1 = [] then ([], .scalar '.' :: t)
        else ('.' :: (readDigits t).1, (readDigits t).2) := by
      intro t
      unfold readFraction
      simp only
      split
      · next hdigits =>
          rw [hdigits, if_pos rfl]
      · next digits rest' hne hdigits =>
          rw [hdigits, if_neg hne]
    rw [hread] at hne hends
    rw [List.cons_append, hread, hread]
    by_cases hdigits : (readDigits rest).1 = []
    · rw [if_pos hdigits] at hends
      exact absurd rfl hends
    · rw [if_neg hdigits] at hne
      rw [readDigits_append_more hne, if_neg hdigits, if_neg hdigits]
  · have hread : ∀ t : Str, t.head? ≠ some (.scalar '.') → readFraction t = ([], t) := by
      intro t ht
      unfold readFraction
      split
      · exact absurd rfl ht
      · rfl
    rw [hread s hpoint] at hne ⊢
    obtain ⟨p, rest, rfl⟩ := List.exists_cons_of_ne_nil hne
    exact hread _ hpoint

theorem readSign_append {s : Str} (h : s ≠ []) (more : Str) :
    readSign (s ++ more) = ((readSign s).1, (readSign s).2 ++ more) := by
  obtain ⟨p, rest, rfl⟩ := List.exists_cons_of_ne_nil h
  rw [List.cons_append]
  unfold readSign
  split
  · next heq => cases heq; rfl
  · next heq => cases heq; rfl
  · next hplus hminus =>
      split
      · next heq => cases heq; exact absurd rfl (hplus _)
      · next heq => cases heq; exact absurd rfl (hminus _)
      · rfl

/-- An exponent ends before something that continues no number. -/
theorem readExponent_append {s : Str} (h : Stops (readExponent s).2) (more : Str) :
    readExponent (s ++ more) = ((readExponent s).1, (readExponent s).2 ++ more) := by
  cases s with
  | nil => exact absurd rfl h.1
  | cons p rest =>
      cases p with
      | surrogate n => rfl
      | scalar e =>
          by_cases he : e = 'e' ∨ e = 'E'
          · have hread : ∀ t : Str, readExponent (.scalar e :: t) =
                if (readDigits (readSign t).2).1 = [] then ([], .scalar e :: t)
                else (e :: (readSign t).1 ++ (readDigits (readSign t).2).1,
                  (readDigits (readSign t).2).2) := by
              intro t
              unfold readExponent
              simp only
              rw [if_pos he]
              split
              · next hdigits => rw [hdigits, if_pos rfl]
              · next hne hdigits => rw [hdigits, if_neg hne]
            rw [hread] at h
            rw [List.cons_append, hread, hread]
            by_cases hdigits : (readDigits (readSign rest).2).1 = []
            · rw [if_pos hdigits] at h
              have hends := h.2 _ rfl
              rcases he with rfl | rfl
              · exact absurd rfl hends.2.2.1
              · exact absurd rfl hends.2.2.2
            · rw [if_neg hdigits] at h
              have hrest : rest ≠ [] := by
                rintro rfl
                exact hdigits rfl
              rw [readSign_append hrest, readDigits_append_more h.1, if_neg hdigits,
                if_neg hdigits]
          · rw [List.cons_append, readExponent, readExponent, if_neg he, if_neg he,
              List.cons_append]

variable {reader : Reader ε}

/-- What a number is read from: its digits, and the texts of its fraction and its exponent. -/
theorem readUnsigned_ok {negative : Bool} {s rest : Str} {v : Value}
    (h : reader.readUnsigned negative s = .ok (v, rest)) :
    (readIntPart s).1 ≠ [] ∧ rest = (readExponent (readFraction (readIntPart s).2).2).2 := by
  unfold Reader.readUnsigned at h
  simp only at h
  by_cases hdigits : (readIntPart s).1 = []
  · rw [if_pos hdigits] at h
    cases h
  · refine ⟨hdigits, ?_⟩
    rw [if_neg hdigits] at h
    by_cases hplain : (readFraction (readIntPart s).2).1 = [] ∧
        (readExponent (readFraction (readIntPart s).2).2).1 = []
    · rw [if_pos hplain] at h
      by_cases hlong : reader.intDigits < (readIntPart s).1.length
      · rw [if_pos hlong] at h
        cases h
      · rw [if_neg hlong] at h
        exact (Prod.mk.inj (Except.ok.inj h)).2.symm
    · rw [if_neg hplain] at h
      exact (Prod.mk.inj (Except.ok.inj h)).2.symm

/-- A number is the same when more stands behind something that does not continue it. -/
theorem readUnsigned_append {negative : Bool} {s rest : Str} {v : Value}
    (h : reader.readUnsigned negative s = .ok (v, rest)) (hstops : Stops rest) (more : Str) :
    reader.readUnsigned negative (s ++ more) = .ok (v, rest ++ more) := by
  have hrest := (readUnsigned_ok h).2
  have hexponent := readExponent_append (hrest ▸ hstops) more
  have hfraction : (readFraction (readIntPart s).2).2 ≠ [] := by
    intro hnil
    rw [hnil] at hrest
    exact hstops.1 hrest
  have hpoint : (readFraction (readIntPart s).2).2.head? ≠ some (.scalar '.') := by
    intro hhead
    obtain ⟨tail, htail⟩ := List.head?_eq_some_iff.mp hhead
    rw [htail, readExponent, if_neg (by decide)] at hrest
    exact (hstops.2 (.scalar '.') (by rw [hrest]; rfl)).2.1 rfl
  have hint : (readIntPart s).2 ≠ [] := by
    intro hnil
    rw [hnil] at hfraction
    exact hfraction rfl
  have hmap : reader.readUnsigned negative (s ++ more) =
      (reader.readUnsigned negative s).map fun r => (r.1, r.2 ++ more) := by
    unfold Reader.readUnsigned
    rw [readIntPart_append hint]
    simp only
    rw [readFraction_append hfraction hpoint]
    simp only
    rw [hexponent]
    simp only
    by_cases hdigits : (readIntPart s).1 = []
    · rw [if_pos hdigits, if_pos hdigits]
      rfl
    · rw [if_neg hdigits, if_neg hdigits]
      by_cases hplain : (readFraction (readIntPart s).2).1 = [] ∧
          (readExponent (readFraction (readIntPart s).2).2).1 = []
      · rw [if_pos hplain, if_pos hplain]
        by_cases hlong : reader.intDigits < (readIntPart s).1.length
        · rw [if_pos hlong, if_pos hlong]
          rfl
        · rw [if_neg hlong, if_neg hlong]
          rfl
      · rw [if_neg hplain, if_neg hplain]
        rfl
  rw [hmap, h]
  rfl

/-- A number begins with a digit. -/
theorem head_of_readUnsigned {negative : Bool} {s rest : Str} {v : Value}
    (h : reader.readUnsigned negative s = .ok (v, rest)) :
    ∃ c tail, s = .scalar c :: tail ∧ c.isDigit = true := by
  have hdigits := (readUnsigned_ok h).1
  cases s with
  | nil => exact absurd rfl hdigits
  | cons p tail =>
      cases p with
      | surrogate n => exact absurd rfl hdigits
      | scalar c =>
          refine ⟨c, tail, rfl, ?_⟩
          by_contra hnot
          have hzero : c ≠ '0' := by
            rintro rfl
            exact hnot rfl
          refine hdigits ?_
          unfold readIntPart
          split
          · next heq => cases heq; exact absurd rfl hzero
          · rw [readDigits, if_neg hnot]

/-! ## Words -/

theorem eq_of_afterWord? {word : String} {s rest : Str} (h : afterWord? word s = some rest) :
    s = ofText word.toList ++ rest := by
  unfold afterWord? at h
  split_ifs at h with hword
  obtain ⟨tail, rfl⟩ := List.isPrefixOf_iff_prefix.mp hword
  have hlength : word.length = (ofText word.toList).length := by
    rw [ofText, List.length_map, String.length_toList]
  rw [hlength, List.drop_left] at h
  rw [Option.some.inj h]

theorem afterWord?_append {word : String} {s rest : Str} (h : afterWord? word s = some rest)
    (more : Str) : afterWord? word (s ++ more) = some (rest ++ more) := by
  have hlength : word.length = (ofText word.toList).length := by
    rw [ofText, List.length_map, String.length_toList]
  rw [eq_of_afterWord? h, List.append_assoc, afterWord?,
    if_pos (List.isPrefixOf_iff_prefix.mpr (List.prefix_append _ _)), hlength, List.drop_left]

/-- A text begins with at most one of the words that begin with different characters. -/
theorem afterWord?_none {word other : String} {c d : Char} {tail tail' : List Char}
    (hword : word.toList = c :: tail) (hother : other.toList = d :: tail') (hne : d ≠ c)
    {s rest : Str} (h : afterWord? word s = some rest) : afterWord? other s = none := by
  have hs := eq_of_afterWord? h
  rw [hword] at hs
  rw [hs]
  exact afterWord?_cons_of_ne hother (fun heq => hne (CodePoint.scalar.inj heq).symm) _

theorem readScalar_null {s rest : Str} (h : afterWord? "null" s = some rest) :
    reader.readScalar s = .ok (.null, rest) := by
  unfold Reader.readScalar
  rw [h]

theorem readScalar_true {s rest : Str} (h : afterWord? "true" s = some rest) :
    reader.readScalar s = .ok (.bool true, rest) := by
  have hnull : afterWord? "null" s = none := afterWord?_none rfl rfl (by decide) h
  unfold Reader.readScalar
  rw [hnull, h]

theorem readScalar_false {s rest : Str} (h : afterWord? "false" s = some rest) :
    reader.readScalar s = .ok (.bool false, rest) := by
  have hnull : afterWord? "null" s = none := afterWord?_none rfl rfl (by decide) h
  have htrue : afterWord? "true" s = none := afterWord?_none rfl rfl (by decide) h
  unfold Reader.readScalar
  rw [hnull, htrue, h]

/-- The words of the constants that are no finite numbers. -/
def constantWords : List String :=
  ["NaN", "Infinity", "-Infinity"]

theorem readScalar_constant {word : String} (hword : word ∈ constantWords) {s rest : Str}
    (h : afterWord? word s = some rest) :
    reader.readScalar s =
      if reader.constants then .ok (.float word.toList, rest) else .error reader.constant := by
  have hplain : afterWord? "null" s = none ∧ afterWord? "true" s = none ∧
      afterWord? "false" s = none := by
    simp only [constantWords, List.mem_cons, List.not_mem_nil, or_false] at hword
    rcases hword with rfl | rfl | rfl <;>
      exact ⟨afterWord?_none rfl rfl (by decide) h, afterWord?_none rfl rfl (by decide) h,
        afterWord?_none rfl rfl (by decide) h⟩
  have hsome : (afterWord? "NaN" s).isSome ∨ (afterWord? "Infinity" s).isSome ∨
      (afterWord? "-Infinity" s).isSome := by
    simp only [constantWords, List.mem_cons, List.not_mem_nil, or_false] at hword
    rcases hword with rfl | rfl | rfl
    · exact Or.inl (by rw [h]; rfl)
    · exact Or.inr (Or.inl (by rw [h]; rfl))
    · exact Or.inr (Or.inr (by rw [h]; rfl))
  have hread : readConstant s = (.float word.toList, rest) := by
    simp only [constantWords, List.mem_cons, List.not_mem_nil, or_false] at hword
    rcases hword with rfl | rfl | rfl
    · rw [readConstant, h]
    · have hnan : afterWord? "NaN" s = none := afterWord?_none rfl rfl (by decide) h
      rw [readConstant, hnan, h]
    · have hnan : afterWord? "NaN" s = none := afterWord?_none rfl rfl (by decide) h
      have hinfinity : afterWord? "Infinity" s = none := afterWord?_none rfl rfl (by decide) h
      have hlength : "-Infinity".length = (ofText "-Infinity".toList).length := rfl
      rw [readConstant, hnan, hinfinity]
      simp only
      rw [eq_of_afterWord? h, hlength, List.drop_left]
  unfold Reader.readScalar
  rw [hplain.1, hplain.2.1, hplain.2.2]
  simp only
  rw [if_pos hsome, hread]

/-- What the sign of a number does to its reading. -/
def readSigned (reader : Reader ε) : Str → Except ε (Value × Str)
  | .scalar '-' :: rest => reader.readUnsigned true rest
  | s => reader.readUnsigned false s

theorem readScalar_cases (reader : Reader ε) (s : Str) :
    (∃ rest, afterWord? "null" s = some rest) ∨ (∃ rest, afterWord? "true" s = some rest) ∨
      (∃ rest, afterWord? "false" s = some rest) ∨
      (∃ word ∈ constantWords, ∃ rest, afterWord? word s = some rest) ∨
      reader.readScalar s = readSigned reader s := by
  by_cases hall : ∃ word ∈ "null" :: "true" :: "false" :: constantWords,
      ∃ rest, afterWord? word s = some rest
  · obtain ⟨word, hin, hword⟩ := hall
    rcases List.mem_cons.mp hin with rfl | hin
    · exact Or.inl hword
    · rcases List.mem_cons.mp hin with rfl | hin
      · exact Or.inr (Or.inl hword)
      · rcases List.mem_cons.mp hin with rfl | hin
        · exact Or.inr (Or.inr (Or.inl hword))
        · exact Or.inr (Or.inr (Or.inr (Or.inl ⟨word, hin, hword⟩)))
  · have hnone : ∀ word ∈ "null" :: "true" :: "false" :: constantWords,
        afterWord? word s = none := by
      intro word hin
      by_contra hne
      exact hall ⟨word, hin, Option.ne_none_iff_exists'.mp hne⟩
    refine Or.inr (Or.inr (Or.inr (Or.inr ?_)))
    unfold Reader.readScalar readSigned
    rw [hnone "null" (by decide), hnone "true" (by decide), hnone "false" (by decide)]
    simp only
    rw [hnone "NaN" (by decide), hnone "Infinity" (by decide), hnone "-Infinity" (by decide)]
    rfl

theorem readScalar_of_notWord {s : Str}
    (h : ∀ word ∈ "null" :: "true" :: "false" :: constantWords, afterWord? word s = none) :
    reader.readScalar s = readSigned reader s := by
  rcases readScalar_cases reader s with ⟨rest, hword⟩ | ⟨rest, hword⟩ | ⟨rest, hword⟩ |
    ⟨word, hin, rest, hword⟩ | hsigned
  · rw [h "null" (by decide)] at hword
    cases hword
  · rw [h "true" (by decide)] at hword
    cases hword
  · rw [h "false" (by decide)] at hword
    cases hword
  · rw [h word (List.mem_cons_of_mem _ (List.mem_cons_of_mem _ (List.mem_cons_of_mem _ hin)))]
      at hword
    cases hword
  · exact hsigned

/-- A word or a number is the same when more stands behind something that does not continue it. -/
theorem readScalar_append {s rest : Str} {v : Value} (h : reader.readScalar s = .ok (v, rest))
    (hstops : Stops rest) (more : Str) : reader.readScalar (s ++ more) = .ok (v, rest ++ more) := by
  rcases readScalar_cases reader s with ⟨rest', hword⟩ | ⟨rest', hword⟩ |
    ⟨rest', hword⟩ | ⟨word, hin, rest', hword⟩ | hsigned
  · rw [readScalar_null hword] at h
    cases h
    exact readScalar_null (afterWord?_append hword more)
  · rw [readScalar_true hword] at h
    cases h
    exact readScalar_true (afterWord?_append hword more)
  · rw [readScalar_false hword] at h
    cases h
    exact readScalar_false (afterWord?_append hword more)
  · rw [readScalar_constant hin hword] at h
    rw [readScalar_constant hin (afterWord?_append hword more)]
    split_ifs at h ⊢
    cases h
    rfl
  · rw [hsigned] at h
    unfold readSigned at h
    split at h
    · next tail =>
        obtain ⟨c, more', rfl, hc⟩ := head_of_readUnsigned h
        have hword := not_word_of_minus hc (more' ++ more)
        exact (readScalar_of_notWord hword).trans (readUnsigned_append h hstops more)
    · next hminus =>
        obtain ⟨c, more', rfl, hc⟩ := head_of_readUnsigned h
        rw [List.cons_append, readScalar_of_notWord (not_word_of_digit hc (more' ++ more))]
        have hsign : readSigned reader (.scalar c :: (more' ++ more)) =
            reader.readUnsigned false (.scalar c :: (more' ++ more)) := by
          unfold readSigned
          split
          · next heq => cases heq; exact absurd hc (by decide)
          · rfl
        rw [hsign]
        exact readUnsigned_append h hstops more

/-! ## Values -/

/-- The characters that come after a value inside an array or an object. -/
def closers : Str :=
  ofText [',', ']', '\x7d']

theorem stops_of_skipSpace {rest tail : Str} {p : CodePoint} (hp : p ∈ closers)
    (h : skipSpace rest = p :: tail) : Stops rest := by
  have hends : ∀ q ∈ ofText [' ', '\t', '\n', '\r', ',', ']', '\x7d'],
      q.isDigit = false ∧ q ≠ .scalar '.' ∧ q ≠ .scalar 'e' ∧ q ≠ .scalar 'E' := by decide
  cases rest with
  | nil => cases h
  | cons q rest =>
      refine ⟨List.cons_ne_nil _ _, ?_⟩
      rintro _ ⟨⟩
      refine hends q ?_
      have hin : ∀ q ∈ closers, q ∈ ofText [' ', '\t', '\n', '\r', ',', ']', '\x7d'] := by decide
      cases q with
      | surrogate n =>
          cases h
          exact hin _ hp
      | scalar c =>
          rw [skipSpace] at h
          by_cases hspace : c = ' ' ∨ c = '\t' ∨ c = '\n' ∨ c = '\r'
          · rcases hspace with rfl | rfl | rfl | rfl <;> decide
          · rw [if_neg hspace] at h
            cases h
            exact hin _ hp

theorem readValue_array (fuel depth : Nat) (rest : Str) :
    reader.readValue (fuel + 1) (depth + 1) (.scalar '[' :: rest) =
      if (skipSpace rest).head? = some (.scalar ']') then .ok (.array [], (skipSpace rest).tail)
      else (reader.readItems fuel depth (skipSpace rest)).map fun r => (.array r.1, r.2) := by
  rw [Reader.readValue]
  split
  · next tail heq => rw [heq, List.head?_cons, if_pos rfl]; rfl
  · next hne =>
      rw [if_neg fun hhead => ?_]
      · cases reader.readItems fuel depth (skipSpace rest) with
        | error e => rfl
        | ok r => rfl
      · obtain ⟨tail, htail⟩ := List.head?_eq_some_iff.mp hhead
        exact hne tail htail

theorem readValue_object (fuel depth : Nat) (rest : Str) :
    reader.readValue (fuel + 1) (depth + 1) (.scalar '\x7b' :: rest) =
      if (skipSpace rest).head? = some (.scalar '\x7d') then
        (reader.checkMembers []).map fun _ => (.object [], (skipSpace rest).tail)
      else
        reader.readMembers fuel depth (skipSpace rest) >>= fun r =>
          (reader.checkMembers r.1).map fun _ => (.object r.1, r.2) := by
  rw [Reader.readValue]
  split
  · next tail heq =>
      rw [heq, List.head?_cons, if_pos rfl]
      cases reader.checkMembers [] with
      | error e => rfl
      | ok u => rfl
  · next hne =>
      rw [if_neg fun hhead => ?_]
      · cases reader.readMembers fuel depth (skipSpace rest) with
        | error e => rfl
        | ok r =>
            show (reader.checkMembers r.1 >>= _) = (reader.checkMembers r.1).map _
            cases reader.checkMembers r.1 with
            | error e => rfl
            | ok u => rfl
      · obtain ⟨tail, htail⟩ := List.head?_eq_some_iff.mp hhead
        exact hne tail htail

/-- What follows an item: the end of the array, or more items. -/
def afterItem (reader : Reader ε) (fuel depth : Nat) (v : Value) (rest : Str) :
    Except ε (List Value × Str) :=
  if rest.head? = some (.scalar ']') then .ok ([v], rest.tail)
  else if rest.head? = some (.scalar ',') then
    (reader.readItems fuel depth (skipSpace rest.tail)).map fun r => (v :: r.1, r.2)
  else .error reader.malformed

theorem readItems_eq (fuel depth : Nat) (s : Str) :
    reader.readItems (fuel + 1) depth s =
      reader.readValue fuel depth s >>= fun r => afterItem reader fuel depth r.1 (skipSpace r.2) := by
  rw [Reader.readItems]
  cases reader.readValue fuel depth s with
  | error e => rfl
  | ok r =>
      obtain ⟨v, rest⟩ := r
      show _ = afterItem reader fuel depth v (skipSpace rest)
      simp only [bind, Except.bind]
      unfold afterItem
      split
      · next tail heq => rw [heq, List.head?_cons, if_pos rfl]; rfl
      · next tail heq =>
          rw [heq, List.head?_cons, if_neg (by decide), if_pos rfl]
          simp only [List.tail_cons]
          cases reader.readItems fuel depth (skipSpace tail) with
          | error e => rfl
          | ok r => rfl
      · next hclose hcomma =>
          rw [if_neg fun hhead => ?_, if_neg fun hhead => ?_]
          · obtain ⟨tail, htail⟩ := List.head?_eq_some_iff.mp hhead
            exact hcomma tail htail
          · obtain ⟨tail, htail⟩ := List.head?_eq_some_iff.mp hhead
            exact hclose tail htail

/-- What follows a member: the end of the object, or more members. -/
def afterMember (reader : Reader ε) (fuel depth : Nat) (key : Str) (v : Value) (rest : Str) :
    Except ε (List (Str × Value) × Str) :=
  if rest.head? = some (.scalar '\x7d') then .ok ([(key, v)], rest.tail)
  else if rest.head? = some (.scalar ',') then
    (reader.readMembers fuel depth (skipSpace rest.tail)).map fun r => ((key, v) :: r.1, r.2)
  else .error reader.malformed

theorem readMembers_eq (fuel depth : Nat) (s : Str) :
    reader.readMembers (fuel + 1) depth (.scalar '"' :: s) =
      match readString s with
      | none => .error reader.malformed
      | some (key, rest) =>
          if (skipSpace rest).head? = some (.scalar ':') then
            reader.readValue fuel depth (skipSpace (skipSpace rest).tail) >>= fun r =>
              afterMember reader fuel depth key r.1 (skipSpace r.2)
          else .error reader.malformed := by
  rw [Reader.readMembers]
  cases readString s with
  | none => rfl
  | some r =>
      obtain ⟨key, rest⟩ := r
      simp only
      split
      · next tail heq =>
          rw [heq, List.head?_cons, if_pos rfl, List.tail_cons]
          cases reader.readValue fuel depth (skipSpace tail) with
          | error e => rfl
          | ok r =>
              obtain ⟨v, rest⟩ := r
              show _ = afterMember reader fuel depth key v (skipSpace rest)
              simp only [bind, Except.bind]
              unfold afterMember
              split
              · next tail heq => rw [heq, List.head?_cons, if_pos rfl]; rfl
              · next tail heq =>
                  rw [heq, List.head?_cons, if_neg (by decide), if_pos rfl]
                  simp only [List.tail_cons]
                  cases reader.readMembers fuel depth (skipSpace tail) with
                  | error e => rfl
                  | ok r => rfl
              · next hclose hcomma =>
                  rw [if_neg fun hhead => ?_, if_neg fun hhead => ?_]
                  · obtain ⟨tail, htail⟩ := List.head?_eq_some_iff.mp hhead
                    exact hcomma tail htail
                  · obtain ⟨tail, htail⟩ := List.head?_eq_some_iff.mp hhead
                    exact hclose tail htail
      · next hne =>
          rw [if_neg fun hhead => ?_]
          obtain ⟨tail, htail⟩ := List.head?_eq_some_iff.mp hhead
          exact hne tail htail

theorem readMembers_of_ne {fuel depth : Nat} {s : Str} (h : s.head? ≠ some (.scalar '"')) :
    reader.readMembers fuel depth s = .error reader.malformed := by
  cases fuel with
  | zero => rw [Reader.readMembers]
  | succ fuel =>
      rw [Reader.readMembers]
      rintro rest rfl
      exact h rfl

/-- The characters that begin a value with an end of its own. -/
def openers : Str :=
  ofText ['"', '[', '\x7b']

/-- A value that ends by itself, or before something that stops it, is the same when more stands
behind it. -/
def ValueLocal (reader : Reader ε) (fuel : Nat) : Prop :=
  ∀ {fuel' depth : Nat} {s rest : Str} {v : Value}, fuel ≤ fuel' →
    reader.readValue fuel depth s = .ok (v, rest) →
    (Stops rest ∨ ∃ p ∈ openers, s.head? = some p) → ∀ more,
      reader.readValue fuel' depth (s ++ more) = .ok (v, rest ++ more)

def ItemsLocal (reader : Reader ε) (fuel : Nat) : Prop :=
  ∀ {fuel' depth : Nat} {s rest : Str} {items : List Value}, fuel ≤ fuel' →
    reader.readItems fuel depth s = .ok (items, rest) → ∀ more,
      reader.readItems fuel' depth (s ++ more) = .ok (items, rest ++ more)

def MembersLocal (reader : Reader ε) (fuel : Nat) : Prop :=
  ∀ {fuel' depth : Nat} {s rest : Str} {members : List (Str × Value)}, fuel ≤ fuel' →
    reader.readMembers fuel depth s = .ok (members, rest) → ∀ more,
      reader.readMembers fuel' depth (s ++ more) = .ok (members, rest ++ more)

theorem readItems_nil (reader : Reader ε) (fuel depth : Nat) :
    ∃ e, reader.readItems fuel depth [] = .error e := by
  cases fuel with
  | zero => exact ⟨_, rfl⟩
  | succ fuel =>
      cases fuel with
      | zero => exact ⟨_, rfl⟩
      | succ fuel => exact ⟨_, rfl⟩

theorem head_append {s : Str} (h : s ≠ []) (more : Str) :
    (s ++ more).head? = s.head? ∧ (s ++ more).tail = s.tail ++ more := by
  obtain ⟨p, rest, rfl⟩ := List.exists_cons_of_ne_nil h
  exact ⟨rfl, rfl⟩

theorem itemsLocal_succ {fuel : Nat} (hvalue : ValueLocal reader fuel)
    (hitems : ItemsLocal reader fuel) : ItemsLocal reader (fuel + 1) := by
  intro fuel' depth s rest items hle h more
  obtain ⟨fuel', rfl⟩ : ∃ k, fuel' = k + 1 := ⟨fuel' - 1, by omega⟩
  rw [readItems_eq] at h ⊢
  rcases hv : reader.readValue fuel depth s with e | ⟨v, rest'⟩
  · rw [hv] at h
    cases h
  · rw [hv] at h
    change afterItem reader fuel depth v (skipSpace rest') = _ at h
    have hne : skipSpace rest' ≠ [] := by
      intro hnil
      rw [hnil] at h
      cases h
    obtain ⟨p, after, hafter⟩ := List.exists_cons_of_ne_nil hne
    have hstops : Stops rest' := by
      refine stops_of_skipSpace ?_ hafter
      unfold afterItem at h
      rw [hafter, List.head?_cons] at h
      by_cases hclose : some p = some (CodePoint.scalar ']')
      · rw [Option.some.inj hclose]
        decide
      · rw [if_neg hclose] at h
        by_cases hcomma : some p = some (CodePoint.scalar ',')
        · rw [Option.some.inj hcomma]
          decide
        · rw [if_neg hcomma] at h
          cases h
    rw [hvalue (by omega) hv (Or.inl hstops) more]
    change afterItem reader fuel' depth v (skipSpace (rest' ++ more)) = _
    rw [skipSpace_append hne]
    unfold afterItem at h ⊢
    obtain ⟨hhead, htail⟩ := head_append hne more
    rw [hhead, htail]
    by_cases hclose : (skipSpace rest').head? = some (CodePoint.scalar ']')
    · rw [if_pos hclose] at h ⊢
      cases h
      rfl
    · rw [if_neg hclose] at h ⊢
      by_cases hcomma : (skipSpace rest').head? = some (CodePoint.scalar ',')
      · rw [if_pos hcomma] at h ⊢
        rcases hi : reader.readItems fuel depth (skipSpace (skipSpace rest').tail) with e | ⟨is, r⟩
        · rw [hi] at h
          cases h
        · rw [hi] at h
          cases h
          have hspace : skipSpace (skipSpace rest').tail ≠ [] := by
            intro hnil
            obtain ⟨e, herror⟩ := readItems_nil reader fuel depth
            rw [hnil, herror] at hi
            cases hi
          rw [skipSpace_append hspace, hitems (by omega) hi more]
          rfl
      · rw [if_neg hcomma] at h
        cases h

theorem afterMember_append {fuel fuel' depth : Nat} (hmembers : MembersLocal reader fuel)
    (hle : fuel ≤ fuel') {key s rest : Str} {v : Value} {members : List (Str × Value)}
    (h : afterMember reader fuel depth key v s = .ok (members, rest)) (more : Str) :
    (∃ p ∈ closers, s.head? = some p) ∧
      afterMember reader fuel' depth key v (s ++ more) = .ok (members, rest ++ more) := by
  have hne : s ≠ [] := by
    rintro rfl
    cases h
  obtain ⟨hhead, htail⟩ := head_append hne more
  unfold afterMember at h ⊢
  rw [hhead, htail]
  by_cases hclose : s.head? = some (CodePoint.scalar '\x7d')
  · rw [if_pos hclose] at h ⊢
    cases h
    exact ⟨⟨_, by decide, hclose⟩, rfl⟩
  · rw [if_neg hclose] at h ⊢
    by_cases hcomma : s.head? = some (CodePoint.scalar ',')
    · rw [if_pos hcomma] at h ⊢
      refine ⟨⟨_, by decide, hcomma⟩, ?_⟩
      rcases hm : reader.readMembers fuel depth (skipSpace s.tail) with e | ⟨ms, r⟩
      · rw [hm] at h
        cases h
      · rw [hm] at h
        cases h
        have hspace : skipSpace s.tail ≠ [] := by
          intro hnil
          rw [hnil, readMembers_of_ne (by decide)] at hm
          cases hm
        rw [skipSpace_append hspace, hmembers hle hm more]
        rfl
    · rw [if_neg hcomma] at h
      cases h

theorem membersLocal_succ {fuel : Nat} (hvalue : ValueLocal reader fuel)
    (hmembers : MembersLocal reader fuel) : MembersLocal reader (fuel + 1) := by
  intro fuel' depth s rest members hle h more
  obtain ⟨fuel', rfl⟩ : ∃ k, fuel' = k + 1 := ⟨fuel' - 1, by omega⟩
  have hquote : s.head? = some (.scalar '"') := by
    by_contra hne
    rw [readMembers_of_ne hne] at h
    cases h
  obtain ⟨s, rfl⟩ := List.head?_eq_some_iff.mp hquote
  rw [readMembers_eq] at h
  rw [List.cons_append, readMembers_eq]
  rcases hkey : readString s with _ | ⟨key, behind⟩
  · rw [hkey] at h
    cases h
  · rw [hkey] at h
    rw [readString_append hkey]
    simp only at h ⊢
    by_cases hcolon : (skipSpace behind).head? = some (.scalar ':')
    · rw [if_pos hcolon] at h
      have hne : skipSpace behind ≠ [] := by
        intro hnil
        rw [hnil] at hcolon
        cases hcolon
      obtain ⟨hhead, htail⟩ := head_append hne more
      rw [skipSpace_append hne, hhead, htail, if_pos hcolon]
      rcases hv : reader.readValue fuel depth (skipSpace (skipSpace behind).tail) with e | ⟨v, r⟩
      · rw [hv] at h
        cases h
      · rw [hv] at h
        change afterMember reader fuel depth key v (skipSpace r) = _ at h
        obtain ⟨⟨p, hp, hhead'⟩, hafter⟩ :=
          afterMember_append hmembers (Nat.le_of_succ_le_succ hle) h more
        obtain ⟨tail', htail'⟩ := List.head?_eq_some_iff.mp hhead'
        have hstops := stops_of_skipSpace hp htail'
        have hspace : skipSpace (skipSpace behind).tail ≠ [] := by
          intro hnil
          rw [hnil] at hv
          cases fuel with
          | zero => cases hv
          | succ fuel => cases hv
        rw [skipSpace_append hspace, hvalue (by omega) hv (Or.inl hstops) more]
        change afterMember reader fuel' depth key v (skipSpace (r ++ more)) = _
        rw [skipSpace_append (List.ne_nil_of_mem (htail' ▸ List.mem_cons_self))]
        exact hafter
    · rw [if_neg hcolon] at h
      cases h

theorem valueLocal_succ {fuel : Nat} (hitems : ItemsLocal reader fuel)
    (hmembers : MembersLocal reader fuel) : ValueLocal reader (fuel + 1) := by
  intro fuel' depth s rest v hle h hend more
  obtain ⟨fuel', rfl⟩ : ∃ k, fuel' = k + 1 := ⟨fuel' - 1, by omega⟩
  cases s with
  | nil => cases h
  | cons p s =>
      rw [List.cons_append]
      by_cases hopener : p ∈ openers
      · have hcases : p = .scalar '"' ∨ p = .scalar '[' ∨ p = .scalar '\x7b' := by
          simpa [openers, ofText] using hopener
        rcases hcases with rfl | rfl | rfl
        · rw [Reader.readValue] at h ⊢
          rcases hs : readString s with _ | ⟨text, r⟩
          · rw [hs] at h
            cases h
          · rw [hs] at h
            cases h
            rw [readString_append hs]
        · cases depth with
          | zero =>
              rw [Reader.readValue] at h
              cases h
          | succ depth =>
              rw [readValue_array] at h ⊢
              have hne : skipSpace s ≠ [] := by
                intro hnil
                obtain ⟨e, herror⟩ := readItems_nil reader fuel depth
                rw [hnil, herror] at h
                cases h
              obtain ⟨hhead, htail⟩ := head_append hne more
              rw [skipSpace_append hne, hhead, htail]
              by_cases hclose : (skipSpace s).head? = some (.scalar ']')
              · rw [if_pos hclose] at h ⊢
                cases h
                rfl
              · rw [if_neg hclose] at h ⊢
                rcases hi : reader.readItems fuel depth (skipSpace s) with e | ⟨items, r⟩
                · rw [hi] at h
                  cases h
                · rw [hi] at h
                  cases h
                  rw [hitems (by omega) hi more]
                  rfl
        · cases depth with
          | zero =>
              rw [Reader.readValue] at h
              cases h
          | succ depth =>
              rw [readValue_object] at h ⊢
              have hne : skipSpace s ≠ [] := by
                intro hnil
                rw [hnil, readMembers_of_ne (by decide)] at h
                cases h
              obtain ⟨hhead, htail⟩ := head_append hne more
              rw [skipSpace_append hne, hhead, htail]
              by_cases hclose : (skipSpace s).head? = some (.scalar '\x7d')
              · rw [if_pos hclose] at h ⊢
                cases hcheck : reader.checkMembers [] with
                | error e =>
                    rw [hcheck] at h
                    cases h
                | ok u =>
                    rw [hcheck] at h
                    cases h
                    rfl
              · rw [if_neg hclose] at h ⊢
                rcases hm : reader.readMembers fuel depth (skipSpace s) with e | ⟨members, r⟩
                · rw [hm] at h
                  cases h
                · rw [hm] at h
                  rw [hmembers (by omega) hm more]
                  change (reader.checkMembers members).map _ = _ at h
                  change (reader.checkMembers members).map _ = _
                  cases hcheck : reader.checkMembers members with
                  | error e =>
                      rw [hcheck] at h
                      cases h
                  | ok u =>
                      rw [hcheck] at h
                      cases h
                      rfl
      · have hp : p ∉ ofText ['"', '[', '{'] := hopener
        rw [readValue_of_scalar hp] at h ⊢
        rcases hend with hstops | ⟨q, hq, hhead⟩
        · exact readScalar_append h hstops more
        · rw [List.head?_cons] at hhead
          exact absurd (Option.some.inj hhead ▸ hq) hopener

theorem valueLocal (reader : Reader ε) (fuel : Nat) : ValueLocal reader fuel := by
  have hall : ValueLocal reader fuel ∧ ItemsLocal reader fuel ∧ MembersLocal reader fuel := by
    induction fuel with
    | zero =>
        refine ⟨?_, ?_, ?_⟩
        · intro fuel' depth s rest v _ h
          cases h
        · intro fuel' depth s rest items _ h
          rw [Reader.readItems] at h
          cases h
        · intro fuel' depth s rest members _ h
          rw [Reader.readMembers] at h
          cases h
    | succ fuel ih =>
        obtain ⟨hvalue, hitems, hmembers⟩ := ih
        exact ⟨valueLocal_succ hitems hmembers, itemsLocal_succ hvalue hitems,
          membersLocal_succ hvalue hmembers⟩
  exact @And.left _ _ hall

theorem skipSpace_opener {p : CodePoint} (hp : p ∈ openers) {s : Str} (h : s.head? = some p) :
    skipSpace s = s := by
  obtain ⟨rest, rfl⟩ := List.head?_eq_some_iff.mp h
  have hcases : p = .scalar '"' ∨ p = .scalar '[' ∨ p = .scalar '\x7b' := by
    simpa [openers, ofText] using hp
  rcases hcases with rfl | rfl | rfl <;> rfl

/-- A proper beginning of a text that is an object, an array or a string is no value. -/
theorem not_read_of_append {front more : Str} {v : Value} {p : CodePoint} (hp : p ∈ openers)
    (hhead : front.head? = some p) (hmore : more ≠ [])
    (h : reader.readValue (2 * (front ++ more).length + 2) reader.nesting (front ++ more) =
      .ok (v, [])) (v' : Value) : reader.read front ≠ .ok v' := by
  intro hread
  unfold Reader.read at hread
  rw [skipSpace_opener hp hhead] at hread
  rcases hv : reader.readValue (2 * front.length + 2) reader.nesting front with e | ⟨w, rest⟩
  · rw [hv] at hread
    cases hread
  · have hlength : 2 * front.length + 2 ≤ 2 * (front ++ more).length + 2 := by
      rw [List.length_append]
      omega
    have hlocal := valueLocal reader _ hlength hv (Or.inr ⟨p, hp, hhead⟩) more
    rw [h] at hlocal
    have hnil := (Prod.mk.inj (Except.ok.inj hlocal)).2
    exact hmore (List.append_eq_nil_iff.mp hnil.symm).2

/-! ## Errors at the end of a text -/

mutual

/-- Some part of a value is a float. -/
def Value.HasFloat : Value → Prop
  | .float _ => True
  | .array items => itemsHaveFloat items
  | .object members => membersHaveFloat members
  | _ => False

def itemsHaveFloat : List Value → Prop
  | [] => False
  | v :: rest => v.HasFloat ∨ itemsHaveFloat rest

def membersHaveFloat : List (Str × Value) → Prop
  | [] => False
  | (_, v) :: rest => v.HasFloat ∨ membersHaveFloat rest

end

theorem length_readDigits_append (s more : Str) :
    (readDigits s).1.length ≤ (readDigits (s ++ more)).1.length := by
  induction s with
  | nil => exact Nat.zero_le _
  | cons p rest ih =>
      cases p with
      | surrogate n => exact le_rfl
      | scalar c =>
          by_cases hdigit : c.isDigit = true
          · rw [List.cons_append, readDigits, readDigits, if_pos hdigit, if_pos hdigit]
            exact Nat.succ_le_succ ih
          · rw [readDigits, if_neg hdigit]
            exact Nat.zero_le _

theorem length_readIntPart_append (s more : Str) :
    (readIntPart s).1.length ≤ (readIntPart (s ++ more)).1.length := by
  have hread : ∀ t : Str, t.head? ≠ some (.scalar '0') → readIntPart t = readDigits t := by
    intro t ht
    unfold readIntPart
    split
    · exact absurd rfl ht
    · rfl
  by_cases hzero : s.head? = some (.scalar '0')
  · obtain ⟨rest, rfl⟩ := List.head?_eq_some_iff.mp hzero
    exact le_rfl
  · cases s with
    | nil => exact Nat.zero_le _
    | cons p rest =>
        have hhead : (p :: rest ++ more).head? ≠ some (.scalar '0') := hzero
        rw [hread _ hzero, hread _ hhead]
        exact length_readDigits_append _ more

/-- An integer that is too long stays one, or it turns into a float. -/
theorem readUnsigned_error {negative : Bool} {s : Str} {e : ε}
    (h : reader.readUnsigned negative s = .error e) (he : e ≠ reader.malformed) (more : Str) :
    (∃ c tail, s = .scalar c :: tail ∧ c.isDigit = true) ∧
      ∀ v rest, reader.readUnsigned negative (s ++ more) = .ok (v, rest) → v.HasFloat := by
  have hlong : (readIntPart s).1 ≠ [] ∧ reader.intDigits < (readIntPart s).1.length := by
    unfold Reader.readUnsigned at h
    simp only at h
    by_cases hdigits : (readIntPart s).1 = []
    · rw [if_pos hdigits] at h
      exact absurd (Except.error.inj h).symm he
    · rw [if_neg hdigits] at h
      refine ⟨hdigits, ?_⟩
      split_ifs at h with hplain hlong
      exact hlong
  constructor
  · cases s with
    | nil => exact absurd rfl hlong.1
    | cons p tail =>
        cases p with
        | surrogate n => exact absurd rfl hlong.1
        | scalar c =>
            refine ⟨c, tail, rfl, ?_⟩
            by_contra hnot
            refine hlong.1 ?_
            unfold readIntPart
            split
            · next heq => cases heq; exact absurd rfl hnot
            · rw [readDigits, if_neg hnot]
  · intro v rest hok
    have hmore := lt_of_lt_of_le hlong.2 (length_readIntPart_append s more)
    unfold Reader.readUnsigned at hok
    simp only at hok
    by_cases hdigits : (readIntPart (s ++ more)).1 = []
    · rw [if_pos hdigits] at hok
      cases hok
    · rw [if_neg hdigits] at hok
      by_cases hplain : (readFraction (readIntPart (s ++ more)).2).1 = [] ∧
          (readExponent (readFraction (readIntPart (s ++ more)).2).2).1 = []
      · rw [if_pos hplain, if_pos hmore] at hok
        cases hok
      · rw [if_neg hplain] at hok
        rw [← (Prod.mk.inj (Except.ok.inj hok)).1]
        exact trivial

theorem readScalar_error {s more : Str} {e : ε} (h : reader.readScalar s = .error e)
    (he : e ≠ reader.malformed) {v : Value} {rest : Str}
    (hok : reader.readScalar (s ++ more) = .ok (v, rest)) : v.HasFloat := by
  rcases readScalar_cases reader s with ⟨rest', hword⟩ | ⟨rest', hword⟩ |
    ⟨rest', hword⟩ | ⟨word, hin, rest', hword⟩ | hsigned
  · rw [readScalar_null hword] at h
    cases h
  · rw [readScalar_true hword] at h
    cases h
  · rw [readScalar_false hword] at h
    cases h
  · rw [readScalar_constant hin hword] at h
    rw [readScalar_constant hin (afterWord?_append hword more)] at hok
    split_ifs at h hok
  · rw [hsigned] at h
    unfold readSigned at h
    split at h
    · next tail =>
        obtain ⟨⟨c, more', rfl, hc⟩, hfloat⟩ := readUnsigned_error h he more
        have hword := not_word_of_minus hc (more' ++ more)
        exact hfloat v rest ((readScalar_of_notWord hword).symm.trans hok)
    · next hminus =>
        obtain ⟨⟨c, more', rfl, hc⟩, hfloat⟩ := readUnsigned_error h he more
        refine hfloat v rest ?_
        rw [List.cons_append, readScalar_of_notWord (not_word_of_digit hc (more' ++ more))] at hok
        unfold readSigned at hok
        split at hok
        · next heq => cases heq; exact absurd hc (by decide)
        · exact hok

/-- A reading that ends with another error than a malformed text becomes one that succeeds only
where an integer that is too long turns into a float. -/
def ValueErrors (reader : Reader ε) (fuel : Nat) : Prop :=
  ∀ {fuel' depth : Nat} {s more rest : Str} {v : Value} {e : ε}, fuel ≤ fuel' →
    reader.readValue fuel depth s = .error e → e ≠ reader.malformed →
    reader.readValue fuel' depth (s ++ more) = .ok (v, rest) → v.HasFloat

def ItemsErrors (reader : Reader ε) (fuel : Nat) : Prop :=
  ∀ {fuel' depth : Nat} {s more rest : Str} {items : List Value} {e : ε}, fuel ≤ fuel' →
    reader.readItems fuel depth s = .error e → e ≠ reader.malformed →
    reader.readItems fuel' depth (s ++ more) = .ok (items, rest) → itemsHaveFloat items

def MembersErrors (reader : Reader ε) (fuel : Nat) : Prop :=
  ∀ {fuel' depth : Nat} {s more rest : Str} {members : List (Str × Value)} {e : ε}, fuel ≤ fuel' →
    reader.readMembers fuel depth s = .error e → e ≠ reader.malformed →
    reader.readMembers fuel' depth (s ++ more) = .ok (members, rest) → membersHaveFloat members

theorem readValue_nil (fuel depth : Nat) :
    reader.readValue fuel depth [] = .error reader.malformed := by
  cases fuel with
  | zero => rfl
  | succ fuel => rfl

theorem readItems_nil_malformed (fuel depth : Nat) :
    reader.readItems fuel depth [] = .error reader.malformed := by
  cases fuel with
  | zero => rfl
  | succ fuel => rw [readItems_eq, readValue_nil]; rfl

theorem itemsErrors_succ {fuel : Nat} (hvalue : ValueErrors reader fuel)
    (hitems : ItemsErrors reader fuel) : ItemsErrors reader (fuel + 1) := by
  intro fuel' depth s more rest items e hle h he hok
  obtain ⟨fuel', rfl⟩ : ∃ k, fuel' = k + 1 := ⟨fuel' - 1, by omega⟩
  rw [readItems_eq] at h hok
  rcases hv : reader.readValue fuel depth s with e' | ⟨v, rest'⟩
  · rw [hv] at h
    cases h
    rcases hv' : reader.readValue fuel' depth (s ++ more) with e' | ⟨w, r⟩
    · rw [hv'] at hok
      cases hok
    · rw [hv'] at hok
      have hfloat := hvalue (by omega) hv he hv'
      change afterItem reader fuel' depth w (skipSpace r) = _ at hok
      unfold afterItem at hok
      by_cases hclose : (skipSpace r).head? = some (CodePoint.scalar ']')
      · rw [if_pos hclose] at hok
        cases hok
        exact Or.inl hfloat
      · rw [if_neg hclose] at hok
        by_cases hcomma : (skipSpace r).head? = some (CodePoint.scalar ',')
        · rw [if_pos hcomma] at hok
          rcases hi : reader.readItems fuel' depth (skipSpace (skipSpace r).tail) with e' | ⟨is, r'⟩
          · rw [hi] at hok
            cases hok
          · rw [hi] at hok
            cases hok
            exact Or.inl hfloat
        · rw [if_neg hcomma] at hok
          cases hok
  · rw [hv] at h
    change afterItem reader fuel depth v (skipSpace rest') = _ at h
    unfold afterItem at h
    by_cases hclose : (skipSpace rest').head? = some (CodePoint.scalar ']')
    · rw [if_pos hclose] at h
      cases h
    · rw [if_neg hclose] at h
      by_cases hcomma : (skipSpace rest').head? = some (CodePoint.scalar ',')
      · rw [if_pos hcomma] at h
        rcases hi : reader.readItems fuel depth (skipSpace (skipSpace rest').tail) with e' | ⟨is, r'⟩
        · rw [hi] at h
          cases h
          obtain ⟨tail, htail⟩ := List.head?_eq_some_iff.mp hcomma
          have hstops := stops_of_skipSpace (by decide) htail
          have hne : skipSpace rest' ≠ [] := List.ne_nil_of_mem (htail ▸ List.mem_cons_self)
          have hspace : skipSpace (skipSpace rest').tail ≠ [] := by
            intro hnil
            rw [hnil, readItems_nil_malformed] at hi
            exact he (Except.error.inj hi).symm
          rw [valueLocal reader fuel (by omega) hv (Or.inl hstops) more] at hok
          change afterItem reader fuel' depth v (skipSpace (rest' ++ more)) = _ at hok
          unfold afterItem at hok
          obtain ⟨hhead, htail'⟩ := head_append hne more
          rw [skipSpace_append hne, hhead, htail', if_neg hclose, if_pos hcomma,
            skipSpace_append hspace] at hok
          rcases hi' : reader.readItems fuel' depth (skipSpace (skipSpace rest').tail ++ more)
            with e' | ⟨is, r'⟩
          · rw [hi'] at hok
            cases hok
          · rw [hi'] at hok
            cases hok
            exact Or.inr (hitems (by omega) hi he hi')
        · rw [hi] at h
          cases h
      · rw [if_neg hcomma] at h
        exact absurd (Except.error.inj h).symm he

theorem afterMember_ok {fuel depth : Nat} {key s rest : Str} {v : Value}
    {members : List (Str × Value)}
    (h : afterMember reader fuel depth key v s = .ok (members, rest)) :
    ∃ more, members = (key, v) :: more := by
  unfold afterMember at h
  by_cases hclose : s.head? = some (CodePoint.scalar '\x7d')
  · rw [if_pos hclose] at h
    cases h
    exact ⟨[], rfl⟩
  · rw [if_neg hclose] at h
    by_cases hcomma : s.head? = some (CodePoint.scalar ',')
    · rw [if_pos hcomma] at h
      rcases hm : reader.readMembers fuel depth (skipSpace s.tail) with e | ⟨ms, r⟩
      · rw [hm] at h
        cases h
      · rw [hm] at h
        cases h
        exact ⟨ms, rfl⟩
    · rw [if_neg hcomma] at h
      cases h

theorem afterMember_error {fuel fuel' depth : Nat} (hmembers : MembersErrors reader fuel)
    (hle : fuel ≤ fuel') {key s more rest : Str} {v : Value} {members : List (Str × Value)} {e : ε}
    (h : afterMember reader fuel depth key v s = .error e) (he : e ≠ reader.malformed)
    (hok : afterMember reader fuel' depth key v (s ++ more) = .ok (members, rest)) :
    membersHaveFloat members := by
  unfold afterMember at h
  by_cases hclose : s.head? = some (CodePoint.scalar '\x7d')
  · rw [if_pos hclose] at h
    cases h
  · rw [if_neg hclose] at h
    by_cases hcomma : s.head? = some (CodePoint.scalar ',')
    · rw [if_pos hcomma] at h
      rcases hm : reader.readMembers fuel depth (skipSpace s.tail) with e' | ⟨ms, r⟩
      · rw [hm] at h
        cases h
        have hne : s ≠ [] := by
          rintro rfl
          cases hcomma
        have hspace : skipSpace s.tail ≠ [] := by
          intro hnil
          rw [hnil, readMembers_of_ne (by decide)] at hm
          exact he (Except.error.inj hm).symm
        obtain ⟨hhead, htail⟩ := head_append hne more
        unfold afterMember at hok
        rw [hhead, htail, if_neg hclose, if_pos hcomma, skipSpace_append hspace] at hok
        rcases hm' : reader.readMembers fuel' depth (skipSpace s.tail ++ more) with e' | ⟨ms, r⟩
        · rw [hm'] at hok
          cases hok
        · rw [hm'] at hok
          cases hok
          exact Or.inr (hmembers hle hm he hm')
      · rw [hm] at h
        cases h
    · rw [if_neg hcomma] at h
      exact absurd (Except.error.inj h).symm he

theorem head_of_afterMember_error {fuel depth : Nat} {key s : Str} {v : Value} {e : ε}
    (h : afterMember reader fuel depth key v s = .error e) (he : e ≠ reader.malformed) :
    s.head? = some (.scalar ',') := by
  unfold afterMember at h
  by_cases hclose : s.head? = some (CodePoint.scalar '\x7d')
  · rw [if_pos hclose] at h
    cases h
  · rw [if_neg hclose] at h
    by_contra hcomma
    rw [if_neg hcomma] at h
    exact he (Except.error.inj h).symm

theorem membersErrors_succ {fuel : Nat} (hvalue : ValueErrors reader fuel)
    (hmembers : MembersErrors reader fuel) : MembersErrors reader (fuel + 1) := by
  intro fuel' depth s more rest members e hle h he hok
  obtain ⟨fuel', rfl⟩ : ∃ k, fuel' = k + 1 := ⟨fuel' - 1, by omega⟩
  have hquote : s.head? = some (.scalar '"') := by
    by_contra hne
    rw [readMembers_of_ne hne] at h
    exact he (Except.error.inj h).symm
  obtain ⟨s, rfl⟩ := List.head?_eq_some_iff.mp hquote
  rw [readMembers_eq] at h
  rw [List.cons_append, readMembers_eq] at hok
  rcases hkey : readString s with _ | ⟨key, behind⟩
  · rw [hkey] at h
    exact absurd (Except.error.inj h).symm he
  · rw [hkey] at h
    rw [readString_append hkey] at hok
    simp only at h hok
    by_cases hcolon : (skipSpace behind).head? = some (.scalar ':')
    · rw [if_pos hcolon] at h
      have hne : skipSpace behind ≠ [] := by
        intro hnil
        rw [hnil] at hcolon
        cases hcolon
      have hspace : skipSpace (skipSpace behind).tail ≠ [] := by
        intro hnil
        rw [hnil, readValue_nil] at h
        exact he (Except.error.inj h).symm
      obtain ⟨hhead, htail⟩ := head_append hne more
      rw [skipSpace_append hne, hhead, htail, if_pos hcolon, skipSpace_append hspace] at hok
      rcases hv : reader.readValue fuel depth (skipSpace (skipSpace behind).tail) with e' | ⟨v, r⟩
      · rw [hv] at h
        cases h
        rcases hv' : reader.readValue fuel' depth (skipSpace (skipSpace behind).tail ++ more)
          with e' | ⟨w, r⟩
        · rw [hv'] at hok
          cases hok
        · rw [hv'] at hok
          obtain ⟨others, rfl⟩ := afterMember_ok hok
          exact Or.inl (hvalue (by omega) hv he hv')
      · rw [hv] at h
        change afterMember reader fuel depth key v (skipSpace r) = _ at h
        have hcomma := head_of_afterMember_error h he
        obtain ⟨tail, htail'⟩ := List.head?_eq_some_iff.mp hcomma
        have hstops := stops_of_skipSpace (by decide) htail'
        rw [valueLocal reader fuel (by omega) hv (Or.inl hstops) more] at hok
        change afterMember reader fuel' depth key v (skipSpace (r ++ more)) = _ at hok
        rw [skipSpace_append (List.ne_nil_of_mem (htail' ▸ List.mem_cons_self))] at hok
        exact afterMember_error hmembers (by omega) h he hok
    · rw [if_neg hcolon] at h
      exact absurd (Except.error.inj h).symm he

theorem valueErrors_succ (hcheck : ∀ members, reader.checkMembers members = .ok ()) {fuel : Nat}
    (hitems : ItemsErrors reader fuel) (hmembers : MembersErrors reader fuel) :
    ValueErrors reader (fuel + 1) := by
  intro fuel' depth s more rest v e hle h he hok
  obtain ⟨fuel', rfl⟩ : ∃ k, fuel' = k + 1 := ⟨fuel' - 1, by omega⟩
  cases s with
  | nil =>
      rw [readValue_nil] at h
      exact absurd (Except.error.inj h).symm he
  | cons p s =>
      rw [List.cons_append] at hok
      by_cases hopener : p ∈ openers
      · have hcases : p = .scalar '"' ∨ p = .scalar '[' ∨ p = .scalar '\x7b' := by
          simpa [openers, ofText] using hopener
        rcases hcases with rfl | rfl | rfl
        · rw [Reader.readValue] at h
          rcases hs : readString s with _ | ⟨text, r⟩
          · rw [hs] at h
            exact absurd (Except.error.inj h).symm he
          · rw [hs] at h
            cases h
        · cases depth with
          | zero =>
              rw [Reader.readValue] at hok
              cases hok
          | succ depth =>
              rw [readValue_array] at h hok
              have hne : skipSpace s ≠ [] := by
                intro hnil
                rw [hnil, if_neg (by decide), readItems_nil_malformed] at h
                exact he (Except.error.inj h).symm
              obtain ⟨hhead, htail⟩ := head_append hne more
              rw [skipSpace_append hne, hhead, htail] at hok
              by_cases hclose : (skipSpace s).head? = some (.scalar ']')
              · rw [if_pos hclose] at h
                cases h
              · rw [if_neg hclose] at h hok
                rcases hi : reader.readItems fuel depth (skipSpace s) with e' | ⟨items, r⟩
                · rw [hi] at h
                  cases h
                  rcases hi' : reader.readItems fuel' depth (skipSpace s ++ more) with e' | ⟨is, r⟩
                  · rw [hi'] at hok
                    cases hok
                  · rw [hi'] at hok
                    cases hok
                    exact hitems (by omega) hi he hi'
                · rw [hi] at h
                  cases h
        · cases depth with
          | zero =>
              rw [Reader.readValue] at hok
              cases hok
          | succ depth =>
              rw [readValue_object] at h hok
              have hne : skipSpace s ≠ [] := by
                intro hnil
                rw [hnil, if_neg (by decide), readMembers_of_ne (by decide)] at h
                exact he (Except.error.inj h).symm
              obtain ⟨hhead, htail⟩ := head_append hne more
              rw [skipSpace_append hne, hhead, htail] at hok
              by_cases hclose : (skipSpace s).head? = some (.scalar '\x7d')
              · rw [if_pos hclose, hcheck] at h
                cases h
              · rw [if_neg hclose] at h hok
                rcases hm : reader.readMembers fuel depth (skipSpace s) with e' | ⟨members, r⟩
                · rw [hm] at h
                  cases h
                  rcases hm' : reader.readMembers fuel' depth (skipSpace s ++ more) with e' | ⟨ms, r⟩
                  · rw [hm'] at hok
                    cases hok
                  · rw [hm'] at hok
                    change (reader.checkMembers ms).map _ = _ at hok
                    rw [hcheck] at hok
                    cases hok
                    exact hmembers (by omega) hm he hm'
                · rw [hm] at h
                  change (reader.checkMembers members).map _ = _ at h
                  rw [hcheck] at h
                  cases h
      · have hp : p ∉ ofText ['"', '[', '{'] := hopener
        rw [readValue_of_scalar hp] at h hok
        exact readScalar_error h he hok

theorem valueErrors (hcheck : ∀ members, reader.checkMembers members = .ok ()) (fuel : Nat) :
    ValueErrors reader fuel := by
  have hall : ValueErrors reader fuel ∧ ItemsErrors reader fuel ∧ MembersErrors reader fuel := by
    induction fuel with
    | zero =>
        refine ⟨?_, ?_, ?_⟩
        · intro fuel' depth s more rest v e _ h he
          exact absurd (Except.error.inj h).symm he
        · intro fuel' depth s more rest items e _ h he
          rw [Reader.readItems] at h
          exact absurd (Except.error.inj h).symm he
        · intro fuel' depth s more rest members e _ h he
          rw [Reader.readMembers] at h
          exact absurd (Except.error.inj h).symm he
    | succ fuel ih =>
        obtain ⟨hvalue, hitems, hmembers⟩ := ih
        exact ⟨valueErrors_succ hcheck hitems hmembers, itemsErrors_succ hvalue hitems,
          membersErrors_succ hvalue hmembers⟩
  exact @And.left _ _ hall

/-- A proper beginning of a text that is an object, an array or a string without floats is a
malformed text. -/
theorem read_front (hcheck : ∀ members, reader.checkMembers members = .ok ()) {front more : Str}
    {v : Value} {p : CodePoint} (hp : p ∈ openers) (hhead : front.head? = some p) (hmore : more ≠ [])
    (h : reader.readValue (2 * (front ++ more).length + 2) reader.nesting (front ++ more) =
      .ok (v, [])) (hfloat : ¬ v.HasFloat) : reader.read front = .error reader.malformed := by
  rcases hread : reader.read front with e | v'
  · by_contra hne
    have he : e ≠ reader.malformed := fun heq => hne (congrArg Except.error heq)
    unfold Reader.read at hread
    rw [skipSpace_opener hp hhead] at hread
    rcases hv : reader.readValue (2 * front.length + 2) reader.nesting front with e' | ⟨w, rest⟩
    · rw [hv] at hread
      cases hread
      have hlength : 2 * front.length + 2 ≤ 2 * (front ++ more).length + 2 := by
        rw [List.length_append]
        omega
      exact hfloat (valueErrors hcheck _ hlength hv he h)
    · rw [hv] at hread
      change (if skipSpace rest = [] then Except.ok w else Except.error reader.malformed) = _
        at hread
      split_ifs at hread
      exact he (Except.error.inj hread).symm
  · exact absurd hread (not_read_of_append hp hhead hmore h v')

end Json
end Foundation
