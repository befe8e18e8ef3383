import Nauro.Foundation.JsonLocal

/-!
# JSON in ASCII

The printer that escapes every character outside ASCII and puts a blank after each comma and colon.

* `isPrintable_dumps` — a printed value has no control characters and is in ASCII.
-/

namespace Foundation
namespace Json

variable {ε : Type}

/-! ## Printing -/

/-- The escape of a UTF-16 unit. -/
def escapeUnit (n : Nat) : List Char :=
  ['\\', 'u', hexDigit (n / 4096 % 16), hexDigit (n / 256 % 16), hexDigit (n / 16 % 16),
    hexDigit (n % 16)]

/-- A character of a string literal in ASCII. -/
def escapeAscii : CodePoint → List Char
  | .scalar '"' => ['\\', '"']
  | .scalar '\\' => ['\\', '\\']
  | .scalar '\n' => ['\\', 'n']
  | .scalar '\r' => ['\\', 'r']
  | .scalar '\t' => ['\\', 't']
  | .scalar '\x08' => ['\\', 'b']
  | .scalar '\x0c' => ['\\', 'f']
  | .scalar c =>
      if 0x20 ≤ c.toNat ∧ c.toNat ≤ 0x7E then [c]
      else if c.toNat < 0x10000 then escapeUnit c.toNat
      else
        escapeUnit (0xD800 + (c.toNat - 0x10000) / 0x400) ++
          escapeUnit (0xDC00 + (c.toNat - 0x10000) % 0x400)
  | .surrogate n => escapeUnit (0xD800 + n.val)

def dumpsString (s : Str) : List Char :=
  '"' :: (s.flatMap escapeAscii ++ ['"'])

def dumpsInt (n : Int) : List Char :=
  if n < 0 then '-' :: Nat.toDigits 10 n.natAbs else Nat.toDigits 10 n.natAbs

mutual

/-- `json.dumps(value)`. -/
def dumps : Value → List Char
  | .null => "null".toList
  | .bool true => "true".toList
  | .bool false => "false".toList
  | .int n => dumpsInt n
  | .float lexeme => lexeme
  | .string s => dumpsString s
  | .array [] => "[]".toList
  | .array (v :: rest) => '[' :: (dumps v ++ dumpsItems rest)
  | .object [] => "{}".toList
  | .object ((key, v) :: rest) => '{' :: (dumpsString key ++ ':' :: ' ' :: (dumps v ++ dumpsMembers rest))

def dumpsItems : List Value → List Char
  | [] => [']']
  | v :: rest => ',' :: ' ' :: (dumps v ++ dumpsItems rest)

def dumpsMembers : List (Str × Value) → List Char
  | [] => ['}']
  | (key, v) :: rest =>
      ',' :: ' ' :: (dumpsString key ++ ':' :: ' ' :: (dumps v ++ dumpsMembers rest))

end

/-! ## Strings -/

theorem readUnits_escapeUnit {n : Nat} (hn : n < 0x10000) (rest : Str) :
    readUnits (ofText (escapeUnit n) ++ rest) =
      (readUnits rest).map fun r => (.escaped n :: r.1, r.2) := by
  have hunit : hexUnit? (.scalar (hexDigit (n / 4096 % 16))) (.scalar (hexDigit (n / 256 % 16)))
      (.scalar (hexDigit (n / 16 % 16))) (.scalar (hexDigit (n % 16))) = some n := by
    have ha := hexValue?_hexDigit (show n / 4096 % 16 < 16 by omega)
    have hb := hexValue?_hexDigit (show n / 256 % 16 < 16 by omega)
    have hc := hexValue?_hexDigit (show n / 16 % 16 < 16 by omega)
    have hd := hexValue?_hexDigit (show n % 16 < 16 by omega)
    simp only [hexUnit?, ha, hb, hc, hd, Option.bind_eq_bind, Option.bind_some, Option.pure_def,
      Option.some.injEq]
    omega
  unfold escapeUnit ofText
  simp only [List.map_cons, List.map_nil, List.cons_append, List.nil_append]
  rw [readUnits, hunit]

theorem joinUnits_escaped {n : Nat} (hn : ¬ (0xD800 ≤ n ∧ n < 0xDC00)) (more : List StringUnit) :
    joinUnits (.escaped n :: more) = codePoint n :: joinUnits more := by
  cases more with
  | nil => rfl
  | cons unit more =>
      cases unit with
      | plain p => rfl
      | escaped m =>
          rw [joinUnits, if_neg]
          omega

theorem not_surrogate (c : Char) : ¬ (0xD800 ≤ c.toNat ∧ c.toNat < 0xE000) := by
  have h := c.valid
  change c.toNat.isValidChar at h
  rcases h with h | h
  · omega
  · omega

theorem codePoint_toNat (c : Char) : codePoint c.toNat = .scalar c := by
  rw [codePoint, dif_neg (not_surrogate c), Char.ofNat_toNat]

/-- The units of a character stand for it, whatever comes behind. -/
def Spells (units : List StringUnit) (c : Char) : Prop :=
  ∀ more, joinUnits (units ++ more) = .scalar c :: joinUnits more

theorem spells_plain (c : Char) : Spells [.plain (.scalar c)] c :=
  fun more => joinUnits_cons_plain _ more

theorem escapeAscii_of_notMem {c : Char} (hc : .scalar c ∉ shortEscaped) :
    escapeAscii (.scalar c) =
      if 0x20 ≤ c.toNat ∧ c.toNat ≤ 0x7E then [c]
      else if c.toNat < 0x10000 then escapeUnit c.toNat
      else
        escapeUnit (0xD800 + (c.toNat - 0x10000) / 0x400) ++
          escapeUnit (0xDC00 + (c.toNat - 0x10000) % 0x400) := by
  unfold escapeAscii
  split
  iterate 7
    · next heq =>
        cases heq
        exact absurd (by decide) hc
  · next heq =>
      cases heq
      rfl
  · next heq => cases heq

theorem toNat_lt (c : Char) : c.toNat < 0x110000 := by
  have h := c.valid
  change c.toNat.isValidChar at h
  rcases h with h | h
  · omega
  · omega

/-- An escaped pair of surrogates stands for the character it was made from. -/
theorem spells_pair {c : Char} (hc : 0x10000 ≤ c.toNat) :
    Spells [.escaped (0xD800 + (c.toNat - 0x10000) / 0x400),
      .escaped (0xDC00 + (c.toNat - 0x10000) % 0x400)] c := by
  intro more
  have hlt := toNat_lt c
  have hvalue : 0x10000 + (0xD800 + (c.toNat - 0x10000) / 0x400 - 0xD800) * 0x400 +
      (0xDC00 + (c.toNat - 0x10000) % 0x400 - 0xDC00) = c.toNat := by
    omega
  simp only [List.cons_append, List.nil_append]
  rw [joinUnits, if_pos (by omega), hvalue, codePoint_toNat]

/-- An escaped character reads back, whatever comes behind. -/
theorem readUnits_escapeAscii (c : Char) :
    ∃ units, Spells units c ∧ ∀ rest, readUnits (ofText (escapeAscii (.scalar c)) ++ rest) =
      (readUnits rest).map fun r => (units ++ r.1, r.2) := by
  by_cases hshort : .scalar c ∈ shortEscaped
  · refine ⟨[.plain (.scalar c)], spells_plain c, fun rest => ?_⟩
    simp only [shortEscaped, ofText, List.map_cons, List.map_nil, List.mem_cons,
      CodePoint.scalar.injEq, List.not_mem_nil, or_false] at hshort
    rcases hshort with rfl | rfl | rfl | rfl | rfl | rfl | rfl <;>
      exact readUnits_short rfl rest
  · rw [escapeAscii_of_notMem hshort]
    by_cases hplain : 0x20 ≤ c.toNat ∧ c.toNat ≤ 0x7E
    · rw [if_pos hplain]
      refine ⟨[.plain (.scalar c)], spells_plain c, fun rest => ?_⟩
      refine readUnits_plain ?_ ?_ rest
      · intro heq
        cases heq
        exact hshort (by decide)
      · rintro (heq | hcontrol)
        · cases heq
          exact hshort (by decide)
        · exact absurd hcontrol (by simp only [CodePoint.toNat]; omega)
    · rw [if_neg hplain]
      by_cases hunit : c.toNat < 0x10000
      · rw [if_pos hunit]
        refine ⟨[.escaped c.toNat], fun more => ?_, fun rest => readUnits_escapeUnit hunit rest⟩
        have hnot := not_surrogate c
        rw [List.singleton_append, joinUnits_escaped (by omega), codePoint_toNat]
      · rw [if_neg hunit]
        have hlt := toNat_lt c
        refine ⟨_, spells_pair (by omega), fun rest => ?_⟩
        rw [ofText_append, List.append_assoc, readUnits_escapeUnit (by omega),
          readUnits_escapeUnit (by omega), Option.map_map]
        rfl

/-- A string literal of a text, after its opening quote, reads back. -/
theorem readString_dumpsString (text : List Char) (rest : Str) :
    readString ((ofText ((ofText text).flatMap escapeAscii)) ++ .scalar '"' :: rest) =
      some (ofText text, rest) := by
  induction text with
  | nil => rfl
  | cons c text ih =>
      obtain ⟨units, hspells, hread⟩ := readUnits_escapeAscii c
      unfold readString at ih ⊢
      obtain ⟨⟨tail, rest'⟩, hrest, heq⟩ := Option.map_eq_some_iff.mp ih
      obtain ⟨hjoin, rfl⟩ := Prod.mk.inj heq
      have hshape : (ofText (c :: text)).flatMap escapeAscii =
          escapeAscii (.scalar c) ++ (ofText text).flatMap escapeAscii := rfl
      rw [hshape, ofText_append, List.append_assoc, hread, hrest]
      simp only [Option.map_some, Option.some.injEq, Prod.mk.injEq, and_true]
      rw [hspells tail, hjoin]
      rfl

/-! ## Values -/

theorem dumpsInt_eq (n : Int) : ofText (dumpsInt n) = printInt n := by
  unfold dumpsInt printInt
  split <;> rfl

theorem dumps_head {reader : Reader ε} {depth : Nat} {v : Value} (h : reader.Accepts depth v) :
    ∃ p more, ofText (dumps v) = p :: more ∧ beginsValue p := by
  cases v with
  | null => exact ⟨_, _, rfl, Or.inr (by decide)⟩
  | bool b => cases b <;> exact ⟨_, _, rfl, Or.inr (by decide)⟩
  | int n =>
      obtain ⟨p, more, hprint, hp⟩ := print_head h
      refine ⟨p, more, ?_, hp⟩
      rw [dumps, dumpsInt_eq, ← hprint, print]
  | float lexeme => cases depth <;> exact h.elim
  | string s => exact ⟨_, _, rfl, Or.inr (by decide)⟩
  | array items => cases items <;> exact ⟨_, _, rfl, Or.inr (by decide)⟩
  | object members =>
      match members with
      | [] => exact ⟨_, _, rfl, Or.inr (by decide)⟩
      | (key, v) :: rest => exact ⟨_, _, rfl, Or.inr (by decide)⟩

/-- Before a value there is no white space to skip. -/
theorem skipSpace_dumps {reader : Reader ε} {depth : Nat} {v : Value}
    (h : reader.Accepts depth v) (rest : Str) :
    skipSpace (ofText (dumps v) ++ rest) = ofText (dumps v) ++ rest := by
  obtain ⟨p, more, hprint, hp⟩ := dumps_head h
  rw [hprint]
  exact skipSpace_beginsValue hp _

theorem endsNumber_dumpsItems (items : List Value) (rest : Str) :
    EndsNumber (ofText (dumpsItems items) ++ rest) := by
  cases items with
  | nil => exact endsNumber_cons (Or.inr (Or.inl rfl)) _
  | cons v items => exact endsNumber_cons (Or.inl rfl) _

theorem endsNumber_dumpsMembers (members : List (Str × Value)) (rest : Str) :
    EndsNumber (ofText (dumpsMembers members) ++ rest) := by
  match members with
  | [] => exact endsNumber_cons (Or.inr (Or.inr rfl)) _
  | (key, v) :: members => exact endsNumber_cons (Or.inl rfl) _

theorem readValue_dumpsString {reader : Reader ε} {fuel depth : Nat} (text : List Char)
    (rest : Str) :
    reader.readValue (fuel + 1) depth (ofText (dumpsString (ofText text)) ++ rest) =
      .ok (.string (ofText text), rest) := by
  have hread := readString_dumpsString text rest
  have hshape : ofText (dumpsString (ofText text)) ++ rest =
      .scalar '"' :: (ofText ((ofText text).flatMap escapeAscii) ++ .scalar '"' :: rest) := by
    simp [dumpsString, ofText]
  rw [hshape, Reader.readValue, hread]

/-- The literal of an integer is no string, array or object. -/
theorem dumpsInt_head (n : Int) (rest : Str) :
    ∃ p more, ofText (dumpsInt n) ++ rest = p :: more ∧ p ∉ ofText ['"', '[', '\x7b'] := by
  obtain ⟨c, digits, hdigits⟩ := List.exists_cons_of_ne_nil
    (Nat.toDigits_ne_nil (n := n.natAbs) (b := 10))
  have hc : c.isDigit = true :=
    Nat.isDigit_of_mem_toDigits (by decide) (by decide) (hdigits ▸ List.mem_cons_self ..)
  unfold dumpsInt
  split
  · exact ⟨_, _, rfl, by decide⟩
  · rw [hdigits]
    refine ⟨_, _, rfl, ?_⟩
    simp only [ofText, List.map_cons, List.map_nil, List.mem_cons, CodePoint.scalar.injEq,
      List.not_mem_nil, or_false]
    rintro (rfl | rfl | rfl) <;> exact absurd hc (by decide)

mutual

theorem readValue_dumps (reader : Reader ε) : ∀ (v : Value) (fuel depth : Nat) (rest : Str),
    v.IsPlain → calls v ≤ fuel → reader.Accepts depth v → EndsNumber rest →
      reader.readValue fuel depth (ofText (dumps v) ++ rest) = .ok (v, rest)
  | .null, fuel + 1, depth, rest, _, _, _, _ => by
      rw [dumps]
      exact (readValue_of_scalar (by decide)).trans rfl
  | .bool true, fuel + 1, depth, rest, _, _, _, _ => by
      rw [dumps]
      exact (readValue_of_scalar (by decide)).trans rfl
  | .bool false, fuel + 1, depth, rest, _, _, _, _ => by
      rw [dumps]
      exact (readValue_of_scalar (by decide)).trans rfl
  | .int n, fuel + 1, depth, rest, _, _, haccepts, hrest => by
      rw [Reader.Accepts] at haccepts
      obtain ⟨p, more, hshape, hp⟩ := dumpsInt_head n rest
      have hscalar := readScalar_printInt haccepts hrest
      rw [← dumpsInt_eq, hshape] at hscalar
      rw [dumps, hshape, readValue_of_scalar hp]
      exact hscalar
  | .float _, _, depth, _, _, _, haccepts, _ => by cases depth <;> exact haccepts.elim
  | .string s, fuel + 1, depth, rest, hplain, _, _, _ => by
      rw [Value.IsPlain] at hplain
      obtain ⟨text, rfl⟩ := hplain
      rw [dumps]
      exact readValue_dumpsString text rest
  | .array [], fuel + 1, depth + 1, rest, _, _, _, _ => rfl
  | .array (v :: items), fuel + 1, depth + 1, rest, hplain, hcalls, haccepts, _ => by
      rw [Value.IsPlain, itemsPlain] at hplain
      rw [Reader.Accepts, Reader.AcceptsItems] at haccepts
      rw [calls, callsItems] at hcalls
      obtain ⟨p, more, hprint, hp⟩ := dumps_head haccepts.1
      have hshape : ofText (dumps (.array (v :: items))) ++ rest =
          .scalar '[' :: (ofText (dumps v) ++ (ofText (dumpsItems items) ++ rest)) := by
        simp [dumps, ofText]
      rw [hshape, readValue_array, skipSpace_dumps haccepts.1, if_neg]
      · rw [readItems_dumps reader v items fuel depth rest hplain.1 hplain.2 (by omega) haccepts.1
          haccepts.2]
        rfl
      · rw [hprint]
        intro hhead
        exact (beginsValue_ne_close hp).1 (Option.some.inj hhead)
  | .object [], fuel + 1, depth + 1, rest, _, _, haccepts, _ => by
      rw [Reader.Accepts] at haccepts
      have hshape : ofText (dumps (.object [])) ++ rest = .scalar '\x7b' :: .scalar '\x7d' :: rest :=
        rfl
      rw [hshape, readValue_object, skipSpace_cons (Or.inl (Or.inr (Or.inr rfl))), List.head?_cons,
        if_pos rfl, haccepts.1]
      rfl
  | .object ((key, v) :: members), fuel + 1, depth + 1, rest, hplain, hcalls, haccepts, _ => by
      rw [Value.IsPlain, membersPlain] at hplain
      rw [Reader.Accepts, Reader.AcceptsMembers] at haccepts
      rw [calls, callsMembers] at hcalls
      obtain ⟨⟨text, rfl⟩, hv, hmembers⟩ := hplain
      have hshape : ofText (dumps (.object ((ofText text, v) :: members))) ++ rest =
          .scalar '\x7b' :: (ofText (dumpsString (ofText text)) ++ .scalar ':' :: .scalar ' ' ::
            (ofText (dumps v) ++ (ofText (dumpsMembers members) ++ rest))) := by
        simp [dumps, ofText]
      have hquote : skipSpace (ofText (dumpsString (ofText text)) ++ .scalar ':' :: .scalar ' ' ::
            (ofText (dumps v) ++ (ofText (dumpsMembers members) ++ rest))) =
          ofText (dumpsString (ofText text)) ++ .scalar ':' :: .scalar ' ' ::
            (ofText (dumps v) ++ (ofText (dumpsMembers members) ++ rest)) :=
        skipSpace_cons (Or.inr (Or.inr rfl)) _
      have hread := readMembers_dumps reader text v members fuel depth rest hv hmembers (by omega)
        haccepts.2.1 haccepts.2.2
      rw [hshape, readValue_object, hquote, if_neg (by exact fun h => by cases h), hread]
      show (reader.checkMembers ((ofText text, v) :: members)).map _ = _
      rw [haccepts.1]
      rfl
  | .array _, _, 0, _, _, _, haccepts, _ => haccepts.elim
  | .object _, _, 0, _, _, _, haccepts, _ => haccepts.elim
  | .null, 0, _, _, _, hcalls, _, _ => by simp [calls] at hcalls
  | .bool _, 0, _, _, _, hcalls, _, _ => by simp [calls] at hcalls
  | .int _, 0, _, _, _, hcalls, _, _ => by simp [calls] at hcalls
  | .string _, 0, _, _, _, hcalls, _, _ => by simp [calls] at hcalls
  | .array _, 0, _, _, _, hcalls, _, _ => by simp [calls] at hcalls
  | .object _, 0, _, _, _, hcalls, _, _ => by simp [calls] at hcalls

theorem readItems_dumps (reader : Reader ε) : ∀ (v : Value) (items : List Value)
    (fuel depth : Nat) (rest : Str), v.IsPlain → itemsPlain items →
      1 + calls v + callsItems items ≤ fuel → reader.Accepts depth v →
        reader.AcceptsItems depth items →
          reader.readItems fuel depth (ofText (dumps v) ++ (ofText (dumpsItems items) ++ rest)) =
            .ok (v :: items, rest)
  | v, items, 0, _, _, _, _, hcalls, _, _ => by omega
  | v, [], fuel + 1, depth, rest, hplain, _, hcalls, hv, _ => by
      have hvalue := readValue_dumps reader v fuel depth (ofText (dumpsItems []) ++ rest) hplain
        (by omega) hv (endsNumber_dumpsItems [] rest)
      rw [readItems_eq, hvalue]
      rfl
  | v, w :: items, fuel + 1, depth, rest, hplain, hplains, hcalls, hv, hitems => by
      rw [itemsPlain] at hplains
      rw [callsItems] at hcalls
      rw [Reader.AcceptsItems] at hitems
      have hvalue := readValue_dumps reader v fuel depth (ofText (dumpsItems (w :: items)) ++ rest)
        hplain (by omega) hv (endsNumber_dumpsItems (w :: items) rest)
      have hmore := readItems_dumps reader w items fuel depth rest hplains.1 hplains.2 (by omega)
        hitems.1 hitems.2
      have hspace := skipSpace_dumps hitems.1 (ofText (dumpsItems items) ++ rest)
      have hshape : ofText (dumpsItems (w :: items)) ++ rest =
          .scalar ',' :: .scalar ' ' :: (ofText (dumps w) ++ (ofText (dumpsItems items) ++ rest)) := by
        simp [dumpsItems, ofText]
      rw [readItems_eq, hvalue, hshape]
      show (reader.readItems fuel depth
        (skipSpace (ofText (dumps w) ++ (ofText (dumpsItems items) ++ rest)))).map _ = _
      rw [hspace, hmore]
      rfl

theorem readMembers_dumps (reader : Reader ε) : ∀ (text : List Char) (v : Value)
    (members : List (Str × Value)) (fuel depth : Nat) (rest : Str), v.IsPlain →
      membersPlain members → 1 + calls v + callsMembers members ≤ fuel →
        reader.Accepts depth v → reader.AcceptsMembers depth members →
          reader.readMembers fuel depth
              (ofText (dumpsString (ofText text)) ++ .scalar ':' :: .scalar ' ' ::
                (ofText (dumps v) ++ (ofText (dumpsMembers members) ++ rest))) =
            .ok ((ofText text, v) :: members, rest)
  | _, _, _, 0, _, _, _, _, hcalls, _, _ => by omega
  | text, v, members, fuel + 1, depth, rest, hplain, hplains, hcalls, hv, hmembers => by
      have hvalue := readValue_dumps reader v fuel depth (ofText (dumpsMembers members) ++ rest)
        hplain (by omega) hv (endsNumber_dumpsMembers members rest)
      have hspace := skipSpace_dumps hv (ofText (dumpsMembers members) ++ rest)
      have hkey := readString_dumpsString text
        (.scalar ':' :: .scalar ' ' :: (ofText (dumps v) ++ (ofText (dumpsMembers members) ++ rest)))
      have hshape : ofText (dumpsString (ofText text)) ++ .scalar ':' :: .scalar ' ' ::
            (ofText (dumps v) ++ (ofText (dumpsMembers members) ++ rest)) =
          .scalar '"' :: (ofText ((ofText text).flatMap escapeAscii) ++ .scalar '"' ::
            .scalar ':' :: .scalar ' ' ::
              (ofText (dumps v) ++ (ofText (dumpsMembers members) ++ rest))) := by
        simp [dumpsString, ofText]
      rw [hshape, readMembers_eq, hkey]
      show (reader.readValue fuel depth
        (skipSpace (ofText (dumps v) ++ (ofText (dumpsMembers members) ++ rest))) >>= _) = _
      rw [hspace, hvalue]
      match members, hplains, hcalls, hmembers with
      | [], _, _, _ => rfl
      | (key, w) :: members, hplains, hcalls, hmembers =>
          rw [membersPlain] at hplains
          rw [callsMembers] at hcalls
          rw [Reader.AcceptsMembers] at hmembers
          obtain ⟨⟨text', rfl⟩, hw, hplains⟩ := hplains
          have hmore := readMembers_dumps reader text' w members fuel depth rest hw hplains
            (by omega) hmembers.1 hmembers.2
          have htail : ofText (dumpsMembers ((ofText text', w) :: members)) ++ rest =
              .scalar ',' :: .scalar ' ' :: (ofText (dumpsString (ofText text')) ++ .scalar ':' ::
                .scalar ' ' :: (ofText (dumps w) ++ (ofText (dumpsMembers members) ++ rest))) := by
            simp [dumpsMembers, ofText]
          rw [htail]
          show (reader.readMembers fuel depth (ofText (dumpsString (ofText text')) ++ .scalar ':' ::
            .scalar ' ' :: (ofText (dumps w) ++ (ofText (dumpsMembers members) ++ rest)))).map _ = _
          rw [hmore]
          rfl

end

/-! ## Whole texts -/

mutual

theorem calls_le_dumps (reader : Reader ε) : ∀ (v : Value) (depth : Nat), reader.Accepts depth v →
    calls v ≤ 2 * (dumps v).length
  | .null, _, _ => by simp [calls, dumps]
  | .bool true, _, _ => by simp [calls, dumps]
  | .bool false, _, _ => by simp [calls, dumps]
  | .int n, depth, haccepts => by
      obtain ⟨p, more, hdumps, -⟩ := dumps_head haccepts
      have hlength := congrArg List.length hdumps
      rw [ofText, List.length_map, List.length_cons] at hlength
      have hcalls : calls (.int n) = 1 := by simp [calls]
      omega
  | .float _, depth, haccepts => by cases depth <;> exact haccepts.elim
  | .string s, _, _ => by
      have hcalls : calls (.string s) = 1 := by simp [calls]
      rw [hcalls, dumps, dumpsString, List.length_cons]
      omega
  | .array [], _, _ => by simp [calls, callsItems, dumps]
  | .array (v :: items), depth + 1, haccepts => by
      rw [Reader.Accepts, Reader.AcceptsItems] at haccepts
      have hv := calls_le_dumps reader v depth haccepts.1
      have hitems := callsItems_le_dumps reader items depth haccepts.2
      rw [calls, callsItems, dumps, List.length_cons, List.length_append]
      omega
  | .object [], _, _ => by simp [calls, callsMembers, dumps]
  | .object ((key, v) :: members), depth + 1, haccepts => by
      rw [Reader.Accepts, Reader.AcceptsMembers] at haccepts
      have hv := calls_le_dumps reader v depth haccepts.2.1
      have hmembers := callsMembers_le_dumps reader members depth haccepts.2.2
      rw [calls, callsMembers, dumps, List.length_cons, List.length_append, List.length_cons,
        List.length_cons, List.length_append]
      omega
  | .array (_ :: _), 0, haccepts => haccepts.elim
  | .object (_ :: _), 0, haccepts => haccepts.elim

theorem callsItems_le_dumps (reader : Reader ε) : ∀ (items : List Value) (depth : Nat),
    reader.AcceptsItems depth items → callsItems items ≤ 2 * (dumpsItems items).length
  | [], _, _ => by simp [callsItems]
  | v :: items, depth, haccepts => by
      rw [Reader.AcceptsItems] at haccepts
      have hv := calls_le_dumps reader v depth haccepts.1
      have hitems := callsItems_le_dumps reader items depth haccepts.2
      rw [callsItems, dumpsItems, List.length_cons, List.length_cons, List.length_append]
      omega

theorem callsMembers_le_dumps (reader : Reader ε) : ∀ (members : List (Str × Value)) (depth : Nat),
    reader.AcceptsMembers depth members → callsMembers members ≤ 2 * (dumpsMembers members).length
  | [], _, _ => by simp [callsMembers]
  | (key, v) :: members, depth, haccepts => by
      rw [Reader.AcceptsMembers] at haccepts
      have hv := calls_le_dumps reader v depth haccepts.1
      have hmembers := callsMembers_le_dumps reader members depth haccepts.2
      rw [callsMembers, dumpsMembers, List.length_cons, List.length_cons, List.length_append,
        List.length_cons, List.length_cons, List.length_append]
      omega

end

theorem readValue_dumps_whole {reader : Reader ε} {v : Value} (hplain : v.IsPlain)
    (haccepts : reader.Accepts reader.nesting v) :
    reader.readValue (2 * (ofText (dumps v)).length + 2) reader.nesting (ofText (dumps v)) =
      .ok (v, []) := by
  have hcalls := calls_le_dumps reader v _ haccepts
  have hlength : (ofText (dumps v)).length = (dumps v).length := List.length_map ..
  have hread := readValue_dumps reader v (2 * (ofText (dumps v)).length + 2) reader.nesting []
    hplain (by omega) haccepts (by rintro p ⟨⟩)
  rwa [List.append_nil] at hread

/-- A printed value reads back. -/
theorem read_dumps {reader : Reader ε} {v : Value} (hplain : v.IsPlain)
    (haccepts : reader.Accepts reader.nesting v) : reader.read (ofText (dumps v)) = .ok v := by
  have hspace := skipSpace_dumps haccepts []
  rw [List.append_nil] at hspace
  rw [Reader.read, hspace, readValue_dumps_whole hplain haccepts]
  rfl

mutual

theorem not_hasFloat_of_accepts (reader : Reader ε) : ∀ (v : Value) (depth : Nat),
    reader.Accepts depth v → ¬ v.HasFloat
  | .null, _, _, h => h
  | .bool _, _, _, h => h
  | .int _, _, _, h => h
  | .float _, depth, haccepts, _ => by cases depth <;> exact haccepts.elim
  | .string _, _, _, h => h
  | .array items, depth + 1, haccepts, h => by
      rw [Reader.Accepts] at haccepts
      rw [Value.HasFloat] at h
      exact not_itemsHaveFloat_of_accepts reader items depth haccepts h
  | .object members, depth + 1, haccepts, h => by
      rw [Reader.Accepts] at haccepts
      rw [Value.HasFloat] at h
      exact not_membersHaveFloat_of_accepts reader members depth haccepts.2 h
  | .array _, 0, haccepts, _ => haccepts.elim
  | .object _, 0, haccepts, _ => haccepts.elim

theorem not_itemsHaveFloat_of_accepts (reader : Reader ε) : ∀ (items : List Value) (depth : Nat),
    reader.AcceptsItems depth items → ¬ itemsHaveFloat items
  | [], _, _, h => h
  | v :: items, depth, haccepts, h => by
      rw [Reader.AcceptsItems] at haccepts
      rcases h with h | h
      · exact not_hasFloat_of_accepts reader v depth haccepts.1 h
      · exact not_itemsHaveFloat_of_accepts reader items depth haccepts.2 h

theorem not_membersHaveFloat_of_accepts (reader : Reader ε) : ∀ (members : List (Str × Value))
    (depth : Nat), reader.AcceptsMembers depth members → ¬ membersHaveFloat members
  | [], _, _, h => h
  | (_, v) :: members, depth, haccepts, h => by
      rw [Reader.AcceptsMembers] at haccepts
      rcases h with h | h
      · exact not_hasFloat_of_accepts reader v depth haccepts.1 h
      · exact not_membersHaveFloat_of_accepts reader members depth haccepts.2 h

end

/-- A proper beginning of a printed object is a malformed text. -/
theorem read_front_dumps {reader : Reader ε} (hcheck : ∀ members, reader.checkMembers members = .ok ())
    {members : List (Str × Value)} (hplain : (Value.object members).IsPlain)
    (haccepts : reader.Accepts reader.nesting (.object members)) {front more : List Char}
    (hsplit : dumps (.object members) = front ++ more) (hfront : front ≠ []) (hmore : more ≠ []) :
    reader.read (ofText front) = .error reader.malformed := by
  have hhead : (ofText front).head? = some (.scalar '\x7b') := by
    obtain ⟨c, tail, rfl⟩ := List.exists_cons_of_ne_nil hfront
    have hopen : ∀ members, (dumps (.object members)).head? = some '\x7b' := by
      intro members
      match members with
      | [] => rfl
      | (key, v) :: members => rfl
    have hc := hopen members
    rw [hsplit] at hc
    rw [Option.some.inj hc]
    rfl
  have hread := readValue_dumps_whole hplain haccepts
  rw [hsplit, ofText_append] at hread
  refine read_front hcheck (by decide) hhead ?_ hread
    (not_hasFloat_of_accepts reader _ _ haccepts)
  intro hnil
  exact hmore (List.map_eq_nil_iff.mp hnil)

/-! ## The characters of a printed value -/

/-- The characters from the blank to the tilde. -/
def IsPrintable (text : List Char) : Prop :=
  ∀ c ∈ text, 0x20 ≤ c.toNat ∧ c.toNat < 0x7F

theorem IsPrintable.append {front rest : List Char} (hfront : IsPrintable front)
    (hrest : IsPrintable rest) : IsPrintable (front ++ rest) := by
  intro c hc
  rcases List.mem_append.mp hc with hc | hc
  · exact hfront c hc
  · exact hrest c hc

theorem IsPrintable.cons {c : Char} {rest : List Char} (hc : 0x20 ≤ c.toNat ∧ c.toNat < 0x7F)
    (hrest : IsPrintable rest) : IsPrintable (c :: rest) :=
  List.forall_mem_cons.mpr ⟨hc, hrest⟩

instance (text : List Char) : Decidable (IsPrintable text) :=
  List.decidableBAll (fun c : Char => 0x20 ≤ c.toNat ∧ c.toNat < 0x7F) text

theorem isPrintable_escapeUnit (n : Nat) : IsPrintable (escapeUnit n) := by
  have hdigit : ∀ k < 16, 0x20 ≤ (hexDigit k).toNat ∧ (hexDigit k).toNat < 0x7F := by decide
  have hhex := fun k => hdigit (k % 16) (Nat.mod_lt _ (by decide))
  exact ((IsPrintable.cons (hhex _) (IsPrintable.cons (hhex _) (IsPrintable.cons (hhex _)
    (IsPrintable.cons (hhex _) (by decide))))).cons (by decide)).cons (by decide)

theorem isPrintable_escapeAscii (p : CodePoint) : IsPrintable (escapeAscii p) := by
  cases p with
  | surrogate n => exact isPrintable_escapeUnit _
  | scalar c =>
      by_cases hshort : .scalar c ∈ shortEscaped
      · simp only [shortEscaped, ofText, List.map_cons, List.map_nil, List.mem_cons,
          CodePoint.scalar.injEq, List.not_mem_nil, or_false] at hshort
        rcases hshort with rfl | rfl | rfl | rfl | rfl | rfl | rfl <;> decide
      · rw [escapeAscii_of_notMem hshort]
        split_ifs with hplain hunit
        · exact IsPrintable.cons (by omega) (by decide)
        · exact isPrintable_escapeUnit _
        · exact (isPrintable_escapeUnit _).append (isPrintable_escapeUnit _)

theorem isPrintable_dumpsString (s : Str) : IsPrintable (dumpsString s) := by
  refine IsPrintable.cons (by decide) (IsPrintable.append ?_ (by decide))
  intro c hc
  obtain ⟨p, -, hp⟩ := List.mem_flatMap.mp hc
  exact isPrintable_escapeAscii p c hp

theorem isPrintable_dumpsInt (n : Int) : IsPrintable (dumpsInt n) := by
  have hdigits : IsPrintable (Nat.toDigits 10 n.natAbs) := by
    intro c hc
    have hdigit : c.isDigit = true := Nat.isDigit_of_mem_toDigits (by decide) (by decide) hc
    rw [Char.isDigit, Bool.and_eq_true, decide_eq_true_eq, decide_eq_true_eq] at hdigit
    have hlow : 48 ≤ c.toNat := hdigit.1
    have hhigh : c.toNat ≤ 57 := hdigit.2
    omega
  unfold dumpsInt
  split
  · exact hdigits.cons (by decide)
  · exact hdigits

mutual

theorem isPrintable_dumps (reader : Reader ε) : ∀ (v : Value) (depth : Nat),
    reader.Accepts depth v → IsPrintable (dumps v)
  | .null, _, _ => by decide
  | .bool true, _, _ => by decide
  | .bool false, _, _ => by decide
  | .int n, _, _ => isPrintable_dumpsInt n
  | .float _, depth, haccepts => by cases depth <;> exact haccepts.elim
  | .string s, _, _ => isPrintable_dumpsString s
  | .array [], _, _ => by decide
  | .array (v :: items), depth + 1, haccepts => by
      rw [Reader.Accepts, Reader.AcceptsItems] at haccepts
      rw [dumps]
      exact ((isPrintable_dumps reader v depth haccepts.1).append
        (isPrintable_dumpsItems reader items depth haccepts.2)).cons (by decide)
  | .object [], _, _ => by decide
  | .object ((key, v) :: members), depth + 1, haccepts => by
      rw [Reader.Accepts, Reader.AcceptsMembers] at haccepts
      rw [dumps]
      exact ((isPrintable_dumpsString key).append (((isPrintable_dumps reader v depth
        haccepts.2.1).append (isPrintable_dumpsMembers reader members depth haccepts.2.2)).cons
          (by decide) |>.cons (by decide))).cons (by decide)
  | .array (_ :: _), 0, haccepts => haccepts.elim
  | .object (_ :: _), 0, haccepts => haccepts.elim

theorem isPrintable_dumpsItems (reader : Reader ε) : ∀ (items : List Value) (depth : Nat),
    reader.AcceptsItems depth items → IsPrintable (dumpsItems items)
  | [], _, _ => by decide
  | v :: items, depth, haccepts => by
      rw [Reader.AcceptsItems] at haccepts
      rw [dumpsItems]
      exact (((isPrintable_dumps reader v depth haccepts.1).append
        (isPrintable_dumpsItems reader items depth haccepts.2)).cons (by decide)).cons (by decide)

theorem isPrintable_dumpsMembers (reader : Reader ε) : ∀ (members : List (Str × Value))
    (depth : Nat), reader.AcceptsMembers depth members → IsPrintable (dumpsMembers members)
  | [], _, _ => by decide
  | (key, v) :: members, depth, haccepts => by
      rw [Reader.AcceptsMembers] at haccepts
      rw [dumpsMembers]
      exact (((isPrintable_dumpsString key).append (((isPrintable_dumps reader v depth
        haccepts.1).append (isPrintable_dumpsMembers reader members depth haccepts.2)).cons
          (by decide) |>.cons (by decide))).cons (by decide)).cons (by decide)

end

end Json
end Foundation
