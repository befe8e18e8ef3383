import Nauro.Foundation.Json

/-!
# Printed JSON reads back

* `read_print` — an accepted value reads back from its printed text.
-/

namespace Foundation
namespace Json

variable {ε : Type}

/-! ## Strings -/

theorem hexValue?_hexDigit {n : Nat} (hn : n < 16) : hexValue? (.scalar (hexDigit n)) = some n := by
  have hall : ∀ k < 16, hexValue? (.scalar (hexDigit k)) = some k := by decide
  exact hall n hn

/-- The characters that have an escape of their own. -/
def shortEscaped : List CodePoint :=
  ofText ['"', '\\', '\n', '\r', '\t', '\x08', '\x0c']

theorem escape_of_notMem {p : CodePoint} (hp : p ∉ shortEscaped) :
    escape p =
      if p.toNat < 0x20 then
        ofText ['\\', 'u', '0', '0', hexDigit (p.toNat / 16), hexDigit (p.toNat % 16)]
      else [p] := by
  unfold escape
  split <;> first | rfl | exact absurd (by decide) hp

theorem codePoint_toNat_of_lt {p : CodePoint} (hp : p.toNat < 0x20) : codePoint p.toNat = p := by
  cases p with
  | surrogate n =>
      simp only [CodePoint.toNat] at hp
      omega
  | scalar c =>
      unfold CodePoint.toNat at hp ⊢
      simp only at hp ⊢
      rw [codePoint, dif_neg (by omega), Char.ofNat_toNat]

/-- One character of a literal is read as one unit, which stands for it. -/
theorem readUnits_escape (p : CodePoint) (rest : Str) :
    ∃ unit, (unit = .plain p ∨ unit = .escaped p.toNat ∧ p.toNat < 0x20) ∧
      readUnits (escape p ++ rest) =
        (readUnits rest).map fun r => (unit :: r.1, r.2) := by
  by_cases hshort : p ∈ shortEscaped
  · refine ⟨.plain p, Or.inl rfl, ?_⟩
    simp only [shortEscaped, ofText, List.map_cons, List.map_nil, List.mem_cons,
      List.not_mem_nil, or_false] at hshort
    rcases hshort with rfl | rfl | rfl | rfl | rfl | rfl | rfl <;>
      simp [escape, ofText, readUnits, shortEscape?]
  · rw [escape_of_notMem hshort]
    by_cases hcontrol : p.toNat < 0x20
    · refine ⟨.escaped p.toNat, Or.inr ⟨rfl, hcontrol⟩, ?_⟩
      have hzero : hexValue? (.scalar '0') = some 0 := by decide
      have hhigh := hexValue?_hexDigit (n := p.toNat / 16) (by omega)
      have hlow := hexValue?_hexDigit (n := p.toNat % 16) (by omega)
      have hunit : hexUnit? (.scalar '0') (.scalar '0') (.scalar (hexDigit (p.toNat / 16)))
          (.scalar (hexDigit (p.toNat % 16))) = some p.toNat := by
        simp only [hexUnit?, hzero, hhigh, hlow, Option.bind_eq_bind, Option.bind_some,
          Option.pure_def, Option.some.injEq]
        omega
      rw [if_pos hcontrol]
      simp only [ofText, List.map_cons, List.map_nil, List.cons_append, List.nil_append]
      rw [readUnits, hunit]
    · refine ⟨.plain p, Or.inl rfl, ?_⟩
      rw [if_neg hcontrol, List.singleton_append]
      have hquote : p ≠ .scalar '"' := by
        rintro rfl
        exact hshort (by decide)
      have hslash : p ≠ .scalar '\\' := by
        rintro rfl
        exact hshort (by decide)
      rw [readUnits.eq_def]
      split
      · simp_all
      · simp_all
      · simp_all
      · simp_all
      · next q rest' _ _ heq =>
          cases heq
          simp [hslash, hcontrol]

theorem joinUnits_cons_plain (p : CodePoint) (rest : List StringUnit) :
    joinUnits (.plain p :: rest) = p :: joinUnits rest := by
  simp [joinUnits]

/-- A unit of a control character joins with no other. -/
theorem joinUnits_cons_control {n : Nat} (hn : n < 0x20) (rest : List StringUnit) :
    joinUnits (.escaped n :: rest) = codePoint n :: joinUnits rest := by
  cases rest with
  | nil => simp [joinUnits]
  | cons unit rest =>
      cases unit with
      | plain p => simp [joinUnits]
      | escaped m =>
          rw [joinUnits, if_neg]
          omega

theorem readString_flatMap_escape (s rest : Str) :
    readString (s.flatMap escape ++ .scalar '"' :: rest) = some (s, rest) := by
  induction s with
  | nil => simp [readString, readUnits, joinUnits]
  | cons p s ih =>
      obtain ⟨unit, hunit, hread⟩ := readUnits_escape p (s.flatMap escape ++ .scalar '"' :: rest)
      unfold readString at ih ⊢
      obtain ⟨⟨units, rest'⟩, hrest, heq⟩ := Option.map_eq_some_iff.mp ih
      obtain ⟨hjoin, rfl⟩ := Prod.mk.inj heq
      rw [List.flatMap_cons, List.append_assoc, hread, hrest]
      simp only [Option.map_some, Option.some.injEq, Prod.mk.injEq, and_true]
      rcases hunit with rfl | ⟨rfl, hcontrol⟩
      · rw [joinUnits_cons_plain, hjoin]
      · rw [joinUnits_cons_control hcontrol, hjoin, codePoint_toNat_of_lt hcontrol]

/-! ## Integers -/

/-- What may follow an integer: nothing that continues a number. -/
def EndsNumber (rest : Str) : Prop :=
  ∀ p ∈ rest.head?, p.isDigit = false ∧ p ≠ .scalar '.' ∧ p ≠ .scalar 'e' ∧ p ≠ .scalar 'E'

theorem readDigits_append {digits : List Char} (hdigits : ∀ c ∈ digits, c.isDigit = true)
    {rest : Str} (hrest : EndsNumber rest) :
    readDigits (ofText digits ++ rest) = (digits, rest) := by
  induction digits with
  | nil =>
      cases rest with
      | nil => rfl
      | cons p rest =>
          have hp := (hrest p rfl).1
          cases p with
          | scalar c =>
              unfold CodePoint.isDigit at hp
              simp only at hp
              simp [ofText, readDigits, hp]
          | surrogate n => rfl
  | cons c digits ih =>
      obtain ⟨hc, htail⟩ := List.forall_mem_cons.mp hdigits
      have hmore := ih htail
      simp only [ofText, List.map_cons, List.cons_append] at hmore ⊢
      rw [readDigits, if_pos hc, hmore]

/-- A positive number does not begin with a zero. -/
theorem toDigits_head {n : Nat} (hn : 0 < n) :
    ∃ c digits, Nat.toDigits 10 n = c :: digits ∧ c ≠ '0' := by
  induction n using Nat.strongRecOn with
  | ind n ih =>
      by_cases hlt : n < 10
      · refine ⟨n.digitChar, [], Nat.toDigits_of_lt_base hlt, ?_⟩
        have hall : ∀ k < 10, 0 < k → k.digitChar ≠ '0' := by decide
        exact hall n hlt hn
      · obtain ⟨c, digits, hdigits, hc⟩ := ih (n / 10) (by omega) (by omega)
        refine ⟨c, digits ++ [(n % 10).digitChar], ?_, hc⟩
        rw [Nat.toDigits_of_base_le (by decide) (by omega), hdigits, List.cons_append]

theorem readIntPart_toDigits (n : Nat) {rest : Str} (hrest : EndsNumber rest) :
    readIntPart (ofText (Nat.toDigits 10 n) ++ rest) = (Nat.toDigits 10 n, rest) := by
  by_cases hn : n = 0
  · subst hn
    rw [Nat.toDigits_zero]
    rfl
  · obtain ⟨c, digits, hdigits, hc⟩ := toDigits_head (Nat.pos_of_ne_zero hn)
    have hall : ∀ x ∈ Nat.toDigits 10 n, x.isDigit = true := fun _ hx =>
      Nat.isDigit_of_mem_toDigits (by decide) (by decide) hx
    have hread := readDigits_append hall hrest
    rw [← hread]
    rw [hdigits]
    simp only [ofText, List.map_cons, List.cons_append]
    unfold readIntPart
    split
    · next heq =>
        simp only [List.cons.injEq, CodePoint.scalar.injEq] at heq
        exact absurd heq.1 hc
    · rfl

theorem readFraction_of_ends {rest : Str} (hrest : EndsNumber rest) :
    readFraction rest = ([], rest) := by
  unfold readFraction
  split
  · exact absurd rfl (hrest _ rfl).2.1
  · rfl

theorem readExponent_of_ends {rest : Str} (hrest : EndsNumber rest) :
    readExponent rest = ([], rest) := by
  unfold readExponent
  split
  · next e rest =>
      obtain ⟨-, -, he, hE⟩ := hrest _ rfl
      rw [if_neg]
      rintro (rfl | rfl)
      · exact he rfl
      · exact hE rfl
  · rfl

theorem readUnsigned_toDigits (reader : Reader ε) {n : Nat}
    (hlength : (Nat.toDigits 10 n).length ≤ reader.intDigits) {rest : Str}
    (hrest : EndsNumber rest) (negative : Bool) :
    reader.readUnsigned negative (ofText (Nat.toDigits 10 n) ++ rest) =
      .ok (.int (if negative then -(n : Int) else n), rest) := by
  simp only [Reader.readUnsigned, readIntPart_toDigits n hrest, readFraction_of_ends hrest,
    readExponent_of_ends hrest]
  rw [if_neg Nat.toDigits_ne_nil, if_pos ⟨trivial, trivial⟩, if_neg (by omega),
    Nat.ofDigitChars_ten_toDigits]

theorem afterWord?_cons_of_ne {word : String} {d : Char} {more : List Char}
    (hword : word.toList = d :: more) {p : CodePoint} (hp : p ≠ .scalar d) (rest : Str) :
    afterWord? word (p :: rest) = none := by
  rw [afterWord?, if_neg]
  simp [hword, ofText, List.isPrefixOf, Ne.symm hp]

theorem not_word_of_digit {c : Char} (hc : c.isDigit = true) (rest : Str) :
    ∀ word ∈ ["null", "true", "false", "NaN", "Infinity", "-Infinity"],
      afterWord? word (.scalar c :: rest) = none := by
  have hne : ∀ d : Char, d.isDigit = false → CodePoint.scalar c ≠ .scalar d := by
    intro d hd heq
    rw [CodePoint.scalar.inj heq, hd] at hc
    cases hc
  intro word hword
  simp only [List.mem_cons, List.not_mem_nil, or_false] at hword
  rcases hword with rfl | rfl | rfl | rfl | rfl | rfl
  · exact afterWord?_cons_of_ne rfl (hne 'n' rfl) rest
  · exact afterWord?_cons_of_ne rfl (hne 't' rfl) rest
  · exact afterWord?_cons_of_ne rfl (hne 'f' rfl) rest
  · exact afterWord?_cons_of_ne rfl (hne 'N' rfl) rest
  · exact afterWord?_cons_of_ne rfl (hne 'I' rfl) rest
  · exact afterWord?_cons_of_ne rfl (hne '-' rfl) rest

theorem not_word_of_minus {c : Char} (hc : c.isDigit = true) (rest : Str) :
    ∀ word ∈ ["null", "true", "false", "NaN", "Infinity", "-Infinity"],
      afterWord? word (.scalar '-' :: .scalar c :: rest) = none := by
  intro word hword
  simp only [List.mem_cons, List.not_mem_nil, or_false] at hword
  rcases hword with rfl | rfl | rfl | rfl | rfl | rfl
  · rfl
  · rfl
  · rfl
  · rfl
  · rfl
  · rw [afterWord?, if_neg]
    have hne : c ≠ 'I' := by
      rintro rfl
      exact absurd hc (by decide)
    simp [ofText, List.isPrefixOf, Ne.symm hne]

/-- A printed integer reads back. -/
theorem readScalar_printInt {reader : Reader ε} {n : Int}
    (hlength : (Nat.toDigits 10 n.natAbs).length ≤ reader.intDigits) {rest : Str}
    (hrest : EndsNumber rest) :
    reader.readScalar (printInt n ++ rest) = .ok (.int n, rest) := by
  obtain ⟨c, digits, hdigits⟩ := List.exists_cons_of_ne_nil
    (Nat.toDigits_ne_nil (n := n.natAbs) (b := 10))
  have hc : c.isDigit = true :=
    Nat.isDigit_of_mem_toDigits (by decide) (by decide) (hdigits ▸ List.mem_cons_self ..)
  have hread := fun negative => readUnsigned_toDigits reader hlength hrest negative
  unfold printInt
  split
  · next hneg =>
      have hvalue : -(n.natAbs : Int) = n := by omega
      have hword := not_word_of_minus hc (ofText digits ++ rest)
      have hshape : ofText (Nat.toDigits 10 n.natAbs) ++ rest =
          .scalar c :: (ofText digits ++ rest) := by
        rw [hdigits]
        rfl
      rw [List.cons_append, hshape, Reader.readScalar, hword "null" (by simp),
        hword "true" (by simp), hword "false" (by simp)]
      simp only [hword "NaN" (by simp), hword "Infinity" (by simp), hword "-Infinity" (by simp),
        Option.isSome_none, Bool.false_eq_true, or_self, if_false]
      rw [← hshape, hread true, if_pos rfl, hvalue]
  · next hneg =>
      have hvalue : (n.natAbs : Int) = n := by omega
      have hword := not_word_of_digit hc (ofText digits ++ rest)
      have hshape : ofText (Nat.toDigits 10 n.natAbs) ++ rest =
          .scalar c :: (ofText digits ++ rest) := by
        rw [hdigits]
        rfl
      rw [hshape, Reader.readScalar, hword "null" (by simp),
        hword "true" (by simp), hword "false" (by simp)]
      simp only [hword "NaN" (by simp), hword "Infinity" (by simp), hword "-Infinity" (by simp),
        Option.isSome_none, Bool.false_eq_true, or_self, if_false]
      · rw [← hshape, hread false]
        simp [hvalue]
      · intro more heq
        simp only [List.cons.injEq, CodePoint.scalar.injEq] at heq
        rw [heq.1] at hc
        exact absurd hc (by decide)

/-! ## Values -/

mutual

/-- The values that nest no deeper than `depth`, and whose integers and objects a reader
accepts; a float is not printed from its value. -/
def Reader.Accepts (reader : Reader ε) : Nat → Value → Prop
  | _, .null => True
  | _, .bool _ => True
  | _, .string _ => True
  | _, .int n => (Nat.toDigits 10 n.natAbs).length ≤ reader.intDigits
  | _, .float _ => False
  | 0, .array _ => False
  | depth + 1, .array items => reader.AcceptsItems depth items
  | 0, .object _ => False
  | depth + 1, .object members =>
      reader.checkMembers members = .ok () ∧ reader.AcceptsMembers depth members

def Reader.AcceptsItems (reader : Reader ε) : Nat → List Value → Prop
  | _, [] => True
  | depth, v :: rest => reader.Accepts depth v ∧ reader.AcceptsItems depth rest

def Reader.AcceptsMembers (reader : Reader ε) : Nat → List (Str × Value) → Prop
  | _, [] => True
  | depth, (_, v) :: rest => reader.Accepts depth v ∧ reader.AcceptsMembers depth rest

end

mutual

/-- How many calls it takes to read a printed value. -/
def calls : Value → Nat
  | .array items => 1 + callsItems items
  | .object members => 1 + callsMembers members
  | _ => 1

def callsItems : List Value → Nat
  | [] => 0
  | v :: rest => 1 + calls v + callsItems rest

def callsMembers : List (Str × Value) → Nat
  | [] => 0
  | (_, v) :: rest => 1 + calls v + callsMembers rest

end

/-- The characters that follow a value inside an array or an object. -/
def isDelimiter (p : CodePoint) : Prop :=
  p = .scalar ',' ∨ p = .scalar ']' ∨ p = .scalar '}'

theorem endsNumber_cons {p : CodePoint} (hp : isDelimiter p) (rest : Str) :
    EndsNumber (p :: rest) := by
  intro q hq
  cases hq
  rcases hp with rfl | rfl | rfl <;> decide

theorem skipSpace_cons {p : CodePoint} (hp : isDelimiter p ∨ p = .scalar ':' ∨ p = .scalar '"')
    (rest : Str) : skipSpace (p :: rest) = p :: rest := by
  rcases hp with (rfl | rfl | rfl) | rfl | rfl <;> rfl

/-- A character that begins a printed value. -/
def beginsValue (p : CodePoint) : Prop :=
  p.isDigit = true ∨
    p ∈ ofText ['-', 'n', 't', 'f', '"', '[', '{']

theorem skipSpace_beginsValue {p : CodePoint} (hp : beginsValue p) (rest : Str) :
    skipSpace (p :: rest) = p :: rest := by
  cases p with
  | surrogate n => rfl
  | scalar c =>
      have hspace : ¬ (c = ' ' ∨ c = '\t' ∨ c = '\n' ∨ c = '\r') := by
        rcases hp with hdigit | hlist
        · rintro (rfl | rfl | rfl | rfl) <;> exact absurd hdigit (by decide)
        · rintro (rfl | rfl | rfl | rfl) <;> exact absurd hlist (by decide)
      rw [skipSpace, if_neg hspace]

theorem print_head {reader : Reader ε} {depth : Nat} {v : Value} (h : reader.Accepts depth v) :
    ∃ p more, print v = p :: more ∧ beginsValue p := by
  cases v with
  | null => exact ⟨_, _, rfl, Or.inr (by decide)⟩
  | bool b => cases b <;> exact ⟨_, _, rfl, Or.inr (by decide)⟩
  | int n =>
      obtain ⟨c, digits, hdigits⟩ := List.exists_cons_of_ne_nil
        (Nat.toDigits_ne_nil (n := n.natAbs) (b := 10))
      have hc : c.isDigit = true :=
        Nat.isDigit_of_mem_toDigits (by decide) (by decide) (hdigits ▸ List.mem_cons_self ..)
      rw [print, printInt]
      split
      · exact ⟨_, _, rfl, Or.inr (by decide)⟩
      · rw [hdigits]
        exact ⟨_, _, rfl, Or.inl hc⟩
  | float lexeme => cases depth <;> exact h.elim
  | string s => exact ⟨_, _, rfl, Or.inr (by decide)⟩
  | array items => cases items <;> exact ⟨_, _, rfl, Or.inr (by decide)⟩
  | object members =>
      match members with
      | [] => exact ⟨_, _, rfl, Or.inr (by decide)⟩
      | (key, v) :: rest => exact ⟨_, _, rfl, Or.inr (by decide)⟩

/-- Before a value there is no white space to skip. -/
theorem skipSpace_print {reader : Reader ε} {depth : Nat} {v : Value}
    (h : reader.Accepts depth v) (rest : Str) :
    skipSpace (print v ++ rest) = print v ++ rest := by
  obtain ⟨p, more, hprint, hp⟩ := print_head h
  rw [hprint]
  exact skipSpace_beginsValue hp _

theorem printItems_head (items : List Value) :
    ∃ p more, printItems items = p :: more ∧ isDelimiter p := by
  cases items with
  | nil => exact ⟨_, _, rfl, Or.inr (Or.inl rfl)⟩
  | cons v rest => exact ⟨_, _, rfl, Or.inl rfl⟩

theorem printMembers_head (members : List (Str × Value)) :
    ∃ p more, printMembers members = p :: more ∧ isDelimiter p := by
  match members with
  | [] => exact ⟨_, _, rfl, Or.inr (Or.inr rfl)⟩
  | (key, v) :: rest => exact ⟨_, _, rfl, Or.inl rfl⟩

theorem endsNumber_printItems (items : List Value) (rest : Str) :
    EndsNumber (printItems items ++ rest) := by
  obtain ⟨p, more, hprint, hp⟩ := printItems_head items
  rw [hprint]
  exact endsNumber_cons hp _

theorem endsNumber_printMembers (members : List (Str × Value)) (rest : Str) :
    EndsNumber (printMembers members ++ rest) := by
  obtain ⟨p, more, hprint, hp⟩ := printMembers_head members
  rw [hprint]
  exact endsNumber_cons hp _

/-- A text that begins neither a string, an array nor an object is read as a scalar. -/
theorem readValue_of_scalar {reader : Reader ε} {fuel depth : Nat} {p : CodePoint} {rest : Str}
    (hp : p ∉ ofText ['"', '[', '{']) :
    reader.readValue (fuel + 1) depth (p :: rest) = reader.readScalar (p :: rest) := by
  rw [Reader.readValue.eq_def]
  split
  · simp_all
  · next heq => cases heq; exact absurd (by decide) hp
  · next heq => cases heq; exact absurd (by decide) hp
  · next heq => cases heq; exact absurd (by decide) hp
  · next heq => simp_all

theorem readValue_string {reader : Reader ε} {fuel depth : Nat} (s rest : Str) :
    reader.readValue (fuel + 1) depth (printString s ++ rest) = .ok (.string s, rest) := by
  have hread := readString_flatMap_escape s rest
  have hshape : printString s ++ rest = .scalar '"' :: (s.flatMap escape ++ .scalar '"' :: rest) := by
    simp [printString]
  rw [hshape, Reader.readValue, hread]

/-- The first character of a value does not end an array or an object. -/
theorem beginsValue_ne_close {p : CodePoint} (hp : beginsValue p) :
    p ≠ .scalar ']' ∧ p ≠ .scalar '}' := by
  constructor <;>
    · rintro rfl
      rcases hp with h | h <;> exact absurd h (by decide)

mutual

theorem readValue_print (reader : Reader ε) : ∀ (v : Value) (fuel depth : Nat) (rest : Str),
    calls v ≤ fuel → reader.Accepts depth v → EndsNumber rest →
      reader.readValue fuel depth (print v ++ rest) = .ok (v, rest)
  | .null, fuel + 1, depth, rest, _, _, _ => by
      rw [print]
      exact (readValue_of_scalar (by decide)).trans rfl
  | .bool true, fuel + 1, depth, rest, _, _, _ => by
      rw [print]
      exact (readValue_of_scalar (by decide)).trans rfl
  | .bool false, fuel + 1, depth, rest, _, _, _ => by
      rw [print]
      exact (readValue_of_scalar (by decide)).trans rfl
  | .int n, fuel + 1, depth, rest, _, haccepts, hrest => by
      rw [Reader.Accepts] at haccepts
      obtain ⟨c, digits, hdigits⟩ := List.exists_cons_of_ne_nil
        (Nat.toDigits_ne_nil (n := n.natAbs) (b := 10))
      have hc : c.isDigit = true :=
        Nat.isDigit_of_mem_toDigits (by decide) (by decide) (hdigits ▸ List.mem_cons_self ..)
      have hscalar := readScalar_printInt haccepts hrest
      have hhead : ∃ p more, printInt n ++ rest = p :: more ∧ p ∉ ofText ['"', '[', '{'] := by
        unfold printInt
        split
        · exact ⟨_, _, rfl, by decide⟩
        · rw [hdigits]
          refine ⟨_, _, rfl, ?_⟩
          simp only [ofText, List.map_cons, List.map_nil, List.mem_cons, CodePoint.scalar.injEq,
            List.not_mem_nil, or_false]
          rintro (rfl | rfl | rfl) <;> exact absurd hc (by decide)
      obtain ⟨p, more, hshape, hp⟩ := hhead
      rw [print, ← hscalar, hshape]
      exact readValue_of_scalar hp
  | .float _, _, depth, _, _, haccepts, _ => by cases depth <;> exact haccepts.elim
  | .string s, fuel + 1, depth, rest, _, _, _ => by
      rw [print]
      exact readValue_string s rest
  | .array [], fuel + 1, depth + 1, rest, _, _, _ => rfl
  | .array (v :: items), fuel + 1, depth + 1, rest, hcalls, haccepts, _ => by
      rw [Reader.Accepts, Reader.AcceptsItems] at haccepts
      rw [calls, callsItems] at hcalls
      obtain ⟨p, more, hprint, hp⟩ := print_head haccepts.1
      have hspace := skipSpace_print haccepts.1 (printItems items ++ rest)
      have hitems := readItems_print reader v items fuel depth rest (by omega) haccepts.1
        haccepts.2
      have hclose := (beginsValue_ne_close hp).1
      rw [print, List.cons_append, List.append_assoc, Reader.readValue, hspace]
      split
      · next heq =>
          rw [hprint, List.cons_append, List.cons.injEq] at heq
          exact absurd heq.1 hclose
      · rw [hitems]
        rfl
  | .object [], fuel + 1, depth + 1, rest, _, haccepts, _ => by
      rw [Reader.Accepts] at haccepts
      change (do reader.checkMembers []; return (Value.object [], rest) : Except ε _) = _
      rw [haccepts.1]
      rfl
  | .object ((key, v) :: members), fuel + 1, depth + 1, rest, hcalls, haccepts, _ => by
      rw [Reader.Accepts, Reader.AcceptsMembers] at haccepts
      rw [calls, callsMembers] at hcalls
      have hmembers := readMembers_print reader key v members fuel depth rest (by omega)
        haccepts.2.1 haccepts.2.2
      have hshape : print (.object ((key, v) :: members)) ++ rest =
          .scalar '{' :: .scalar '"' :: ((printString key).drop 1 ++ .scalar ':' ::
            (print v ++ (printMembers members ++ rest))) := by
        simp [print, printString]
      have hmembersShape : printString key ++ .scalar ':' ::
            (print v ++ (printMembers members ++ rest)) =
          .scalar '"' :: ((printString key).drop 1 ++ .scalar ':' ::
            (print v ++ (printMembers members ++ rest))) := by
        simp [printString]
      rw [hmembersShape] at hmembers
      rw [hshape, Reader.readValue, skipSpace_cons (Or.inr (Or.inr rfl))]
      split
      · next heq => cases heq
      · rw [hmembers]
        change (do reader.checkMembers ((key, v) :: members)
                   return (Value.object ((key, v) :: members), rest) : Except ε _) = _
        rw [haccepts.1]
        rfl
  | .array _, _, 0, _, _, haccepts, _ => haccepts.elim
  | .object _, _, 0, _, _, haccepts, _ => haccepts.elim
  | .null, 0, _, _, hcalls, _, _ => by simp [calls] at hcalls
  | .bool _, 0, _, _, hcalls, _, _ => by simp [calls] at hcalls
  | .int _, 0, _, _, hcalls, _, _ => by simp [calls] at hcalls
  | .string _, 0, _, _, hcalls, _, _ => by simp [calls] at hcalls
  | .array _, 0, _, _, hcalls, _, _ => by simp [calls] at hcalls
  | .object _, 0, _, _, hcalls, _, _ => by simp [calls] at hcalls

theorem readItems_print (reader : Reader ε) : ∀ (v : Value) (items : List Value)
    (fuel depth : Nat) (rest : Str), 1 + calls v + callsItems items ≤ fuel →
      reader.Accepts depth v → reader.AcceptsItems depth items →
        reader.readItems fuel depth (print v ++ (printItems items ++ rest)) =
          .ok (v :: items, rest)
  | v, items, 0, _, _, hcalls, _, _ => by omega
  | v, [], fuel + 1, depth, rest, hcalls, hv, _ => by
      have hvalue := readValue_print reader v fuel depth (printItems [] ++ rest) (by omega) hv
        (endsNumber_printItems [] rest)
      rw [Reader.readItems, hvalue]
      rfl
  | v, w :: items, fuel + 1, depth, rest, hcalls, hv, hitems => by
      rw [callsItems] at hcalls
      rw [Reader.AcceptsItems] at hitems
      have hvalue := readValue_print reader v fuel depth (printItems (w :: items) ++ rest)
        (by omega) hv (endsNumber_printItems (w :: items) rest)
      have hmore := readItems_print reader w items fuel depth rest (by omega) hitems.1 hitems.2
      have hspace := skipSpace_print hitems.1 (printItems items ++ rest)
      have hshape : printItems (w :: items) ++ rest =
          .scalar ',' :: (print w ++ (printItems items ++ rest)) := by
        simp [printItems]
      rw [Reader.readItems, hvalue, hshape]
      change (do let (items, rest) ← reader.readItems fuel depth
                   (skipSpace (print w ++ (printItems items ++ rest)))
                 return (v :: items, rest) : Except ε _) = _
      rw [hspace, hmore]
      rfl

theorem readMembers_print (reader : Reader ε) : ∀ (key : Str) (v : Value)
    (members : List (Str × Value)) (fuel depth : Nat) (rest : Str),
    1 + calls v + callsMembers members ≤ fuel → reader.Accepts depth v →
      reader.AcceptsMembers depth members →
        reader.readMembers fuel depth
            (printString key ++ .scalar ':' :: (print v ++ (printMembers members ++ rest))) =
          .ok ((key, v) :: members, rest)
  | _, _, _, 0, _, _, hcalls, _, _ => by omega
  | key, v, members, fuel + 1, depth, rest, hcalls, hv, hmembers => by
      have hvalue := readValue_print reader v fuel depth (printMembers members ++ rest) (by omega)
        hv (endsNumber_printMembers members rest)
      have hspace := skipSpace_print hv (printMembers members ++ rest)
      have hkey := readString_flatMap_escape key
        (.scalar ':' :: (print v ++ (printMembers members ++ rest)))
      have hshape : printString key ++ .scalar ':' :: (print v ++ (printMembers members ++ rest)) =
          .scalar '"' :: (key.flatMap escape ++ .scalar '"' :: .scalar ':' ::
            (print v ++ (printMembers members ++ rest))) := by
        simp [printString]
      rw [hshape, Reader.readMembers, hkey]
      change (do let (v, rest) ← reader.readValue fuel depth
                   (skipSpace (print v ++ (printMembers members ++ rest)))
                 match skipSpace rest with
                 | .scalar '}' :: rest => return ([(key, v)], rest)
                 | .scalar ',' :: rest =>
                     let (members, rest) ← reader.readMembers fuel depth (skipSpace rest)
                     return ((key, v) :: members, rest)
                 | _ => .error reader.malformed : Except ε _) = _
      rw [hspace, hvalue]
      match members, hcalls, hmembers with
      | [], _, _ => rfl
      | (key', w) :: members, hcalls, hmembers =>
          rw [callsMembers] at hcalls
          rw [Reader.AcceptsMembers] at hmembers
          have hmore := readMembers_print reader key' w members fuel depth rest (by omega)
            hmembers.1 hmembers.2
          have htail : printMembers ((key', w) :: members) ++ rest =
              .scalar ',' :: (printString key' ++ .scalar ':' ::
                (print w ++ (printMembers members ++ rest))) := by
            simp [printMembers]
          have hquote : skipSpace (printString key' ++ .scalar ':' ::
                (print w ++ (printMembers members ++ rest))) =
              printString key' ++ .scalar ':' :: (print w ++ (printMembers members ++ rest)) :=
            skipSpace_cons (Or.inr (Or.inr rfl)) _
          rw [htail]
          change (do let (members, rest) ← reader.readMembers fuel depth
                       (skipSpace (printString key' ++ .scalar ':' ::
                         (print w ++ (printMembers members ++ rest))))
                     return ((key, v) :: members, rest) : Except ε _) = _
          rw [hquote, hmore]
          rfl

end

/-! ## Whole texts -/

mutual

theorem calls_le (reader : Reader ε) : ∀ (v : Value) (depth : Nat), reader.Accepts depth v →
    calls v ≤ 2 * (print v).length
  | .null, _, _ => by simp [calls, print, ofText]
  | .bool true, _, _ => by simp [calls, print, ofText]
  | .bool false, _, _ => by simp [calls, print, ofText]
  | .int n, depth, haccepts => by
      obtain ⟨p, more, hprint, -⟩ := print_head haccepts
      simp only [hprint, calls, List.length_cons]
      omega
  | .float _, depth, haccepts => by cases depth <;> exact haccepts.elim
  | .string s, _, _ => by
      simp [calls, print, printString]
      omega
  | .array [], _, _ => by simp [calls, callsItems, print, ofText]
  | .array (v :: items), depth + 1, haccepts => by
      rw [Reader.Accepts, Reader.AcceptsItems] at haccepts
      have hv := calls_le reader v depth haccepts.1
      have hitems := callsItems_le reader items depth haccepts.2
      rw [calls, callsItems, print, List.length_cons, List.length_append]
      omega
  | .object [], _, _ => by simp [calls, callsMembers, print, ofText]
  | .object ((key, v) :: members), depth + 1, haccepts => by
      rw [Reader.Accepts, Reader.AcceptsMembers] at haccepts
      have hv := calls_le reader v depth haccepts.2.1
      have hmembers := callsMembers_le reader members depth haccepts.2.2
      rw [calls, callsMembers, print, List.length_cons, List.length_append, List.length_cons,
        List.length_append]
      omega
  | .array (_ :: _), 0, haccepts => haccepts.elim
  | .object (_ :: _), 0, haccepts => haccepts.elim

theorem callsItems_le (reader : Reader ε) : ∀ (items : List Value) (depth : Nat),
    reader.AcceptsItems depth items → callsItems items ≤ 2 * (printItems items).length
  | [], _, _ => by simp [callsItems]
  | v :: items, depth, haccepts => by
      rw [Reader.AcceptsItems] at haccepts
      have hv := calls_le reader v depth haccepts.1
      have hitems := callsItems_le reader items depth haccepts.2
      rw [callsItems, printItems, List.length_cons, List.length_append]
      omega

theorem callsMembers_le (reader : Reader ε) : ∀ (members : List (Str × Value)) (depth : Nat),
    reader.AcceptsMembers depth members → callsMembers members ≤ 2 * (printMembers members).length
  | [], _, _ => by simp [callsMembers]
  | (key, v) :: members, depth, haccepts => by
      rw [Reader.AcceptsMembers] at haccepts
      have hv := calls_le reader v depth haccepts.1
      have hmembers := callsMembers_le reader members depth haccepts.2
      rw [callsMembers, printMembers, List.length_cons, List.length_append, List.length_cons,
        List.length_append]
      omega

end

/-- A printed value reads back, with white space after it. -/
theorem read_print {reader : Reader ε} {v : Value} (haccepts : reader.Accepts reader.nesting v)
    {rest : Str} (hspace : skipSpace rest = []) (hrest : EndsNumber rest) :
    reader.read (print v ++ rest) = .ok v := by
  have hcalls := calls_le reader v _ haccepts
  have hfuel : calls v ≤ 2 * (print v ++ rest).length + 2 := by
    rw [List.length_append]
    omega
  rw [Reader.read, skipSpace_print haccepts, readValue_print reader v _ _ rest hfuel haccepts hrest]
  change (if skipSpace rest = [] then pure v else .error reader.malformed : Except ε Value) = _
  rw [if_pos hspace]
  rfl

/-! ## Texts of values without surrogates -/

mutual

/-- Every string of the value is a text. -/
def Value.IsPlain : Value → Prop
  | .string s => ∃ text, s = ofText text
  | .array items => itemsPlain items
  | .object members => membersPlain members
  | _ => True

def itemsPlain : List Value → Prop
  | [] => True
  | v :: rest => v.IsPlain ∧ itemsPlain rest

def membersPlain : List (Str × Value) → Prop
  | [] => True
  | (key, v) :: rest => (∃ text, key = ofText text) ∧ v.IsPlain ∧ membersPlain rest

end

theorem ofText_append (front rest : List Char) :
    ofText (front ++ rest) = ofText front ++ ofText rest :=
  List.map_append ..

theorem toText?_ofText (text : List Char) : toText? (ofText text) = some text := by
  induction text with
  | nil => rfl
  | cons c text ih =>
      unfold toText? ofText at ih ⊢
      rw [List.map_cons, List.mapM_cons, ih]
      rfl

theorem ofText_injective : Function.Injective ofText := by
  intro a b h
  have hread := toText?_ofText a
  rw [h, toText?_ofText] at hread
  exact (Option.some.inj hread).symm

theorem escape_scalar (c : Char) : ∃ text, escape (.scalar c) = ofText text := by
  unfold escape
  split
  · exact ⟨_, rfl⟩
  · exact ⟨_, rfl⟩
  · exact ⟨_, rfl⟩
  · exact ⟨_, rfl⟩
  · exact ⟨_, rfl⟩
  · exact ⟨_, rfl⟩
  · exact ⟨_, rfl⟩
  · split
    · exact ⟨_, rfl⟩
    · exact ⟨[c], rfl⟩

theorem printString_ofText (text : List Char) : ∃ printed, printString (ofText text) = ofText printed := by
  have hbody : ∃ body, (ofText text).flatMap escape = ofText body := by
    induction text with
    | nil => exact ⟨[], rfl⟩
    | cons c text ih =>
        obtain ⟨body, hbody⟩ := ih
        obtain ⟨first, hfirst⟩ := escape_scalar c
        refine ⟨first ++ body, ?_⟩
        rw [ofText_append, ← hfirst, ← hbody]
        rfl
  obtain ⟨body, hbody⟩ := hbody
  refine ⟨'"' :: (body ++ ['"']), ?_⟩
  rw [printString, hbody]
  simp [ofText]

mutual

/-- A value whose strings are texts prints a text. -/
theorem print_isText : ∀ v : Value, v.IsPlain → ∃ text, print v = ofText text
  | .null, _ => ⟨_, rfl⟩
  | .bool true, _ => ⟨_, rfl⟩
  | .bool false, _ => ⟨_, rfl⟩
  | .int n, _ => by
      rw [print, printInt]
      split
      · exact ⟨'-' :: Nat.toDigits 10 n.natAbs, rfl⟩
      · exact ⟨_, rfl⟩
  | .float lexeme, _ => ⟨lexeme, rfl⟩
  | .string s, h => by
      obtain ⟨text, rfl⟩ := h
      exact printString_ofText text
  | .array [], _ => ⟨_, rfl⟩
  | .array (v :: items), h => by
      rw [Value.IsPlain, itemsPlain] at h
      obtain ⟨first, hfirst⟩ := print_isText v h.1
      obtain ⟨more, hmore⟩ := printItems_isText items h.2
      refine ⟨'[' :: (first ++ more), ?_⟩
      rw [print, hfirst, hmore, ← ofText_append]
      rfl
  | .object [], _ => ⟨_, rfl⟩
  | .object ((key, v) :: members), h => by
      rw [Value.IsPlain, membersPlain] at h
      obtain ⟨⟨text, rfl⟩, hv, hmembers⟩ := h
      obtain ⟨name, hname⟩ := printString_ofText text
      obtain ⟨first, hfirst⟩ := print_isText v hv
      obtain ⟨more, hmore⟩ := printMembers_isText members hmembers
      refine ⟨'{' :: (name ++ ':' :: (first ++ more)), ?_⟩
      rw [print, hname, hfirst, hmore, ← ofText_append]
      simp [ofText]

theorem printItems_isText : ∀ items : List Value, itemsPlain items →
    ∃ text, printItems items = ofText text
  | [], _ => ⟨[']'], rfl⟩
  | v :: items, h => by
      rw [itemsPlain] at h
      obtain ⟨first, hfirst⟩ := print_isText v h.1
      obtain ⟨more, hmore⟩ := printItems_isText items h.2
      refine ⟨',' :: (first ++ more), ?_⟩
      rw [printItems, hfirst, hmore, ← ofText_append]
      rfl

theorem printMembers_isText : ∀ members : List (Str × Value), membersPlain members →
    ∃ text, printMembers members = ofText text
  | [], _ => ⟨['}'], rfl⟩
  | (key, v) :: members, h => by
      rw [membersPlain] at h
      obtain ⟨⟨text, rfl⟩, hv, hmembers⟩ := h
      obtain ⟨name, hname⟩ := printString_ofText text
      obtain ⟨first, hfirst⟩ := print_isText v hv
      obtain ⟨more, hmore⟩ := printMembers_isText members hmembers
      refine ⟨',' :: (name ++ ':' :: (first ++ more)), ?_⟩
      rw [printMembers, hname, hfirst, hmore, ← ofText_append]
      simp [ofText]

end

theorem membersPlain_iff {members : List (Str × Value)} :
    membersPlain members ↔ ∀ m ∈ members, (∃ text, m.1 = ofText text) ∧ m.2.IsPlain := by
  induction members with
  | nil => exact ⟨fun _ => List.forall_mem_nil _, fun _ => trivial⟩
  | cons m members ih =>
      obtain ⟨key, v⟩ := m
      rw [membersPlain, ih, List.forall_mem_cons, and_assoc]

theorem itemsPlain_iff {items : List Value} : itemsPlain items ↔ ∀ v ∈ items, v.IsPlain := by
  induction items with
  | nil => exact ⟨fun _ => List.forall_mem_nil _, fun _ => trivial⟩
  | cons v items ih => rw [itemsPlain, ih, List.forall_mem_cons]

mutual

/-- Sorting the members of a value leaves its strings alone. -/
theorem sortKeys_isPlain : ∀ v : Value, v.IsPlain → (sortKeys v).IsPlain
  | .null, _ => trivial
  | .bool _, _ => trivial
  | .int _, _ => trivial
  | .float _, _ => trivial
  | .string _, h => h
  | .array items, h => by
      rw [sortKeys]
      exact sortItems_isPlain items h
  | .object members, h => by
      rw [sortKeys]
      have hsorted := membersPlain_iff.mp (sortValues_isPlain members h)
      refine membersPlain_iff.mpr fun m hm => hsorted m ?_
      exact (List.perm_insertionSort _ _).mem_iff.mp hm

theorem sortItems_isPlain : ∀ items : List Value, itemsPlain items → itemsPlain (sortItems items)
  | [], _ => trivial
  | v :: items, h => by
      rw [itemsPlain] at h
      rw [sortItems, itemsPlain]
      exact ⟨sortKeys_isPlain v h.1, sortItems_isPlain items h.2⟩

theorem sortValues_isPlain : ∀ members : List (Str × Value), membersPlain members →
    membersPlain (sortValues members)
  | [], _ => trivial
  | (key, v) :: members, h => by
      rw [membersPlain] at h
      rw [sortValues, membersPlain]
      exact ⟨h.1, sortKeys_isPlain v h.2.1, sortValues_isPlain members h.2.2⟩

end

end Json
end Foundation
