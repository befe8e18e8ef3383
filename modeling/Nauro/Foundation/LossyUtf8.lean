import Nauro.Foundation.EscapedUtf8

/-!
# UTF-8 with replaced bytes

A total decoder from bytes to characters: a well-formed UTF-8 sequence decodes to its
character, and every longest beginning of a sequence that is not completed decodes to one
replacement character.

* `decode_append_newline` — decoding starts anew after a newline.
-/

namespace Foundation
namespace LossyUtf8

/-- What stands for bytes that encode nothing. -/
def replacement : Char := '\uFFFD'

def continues (b : UInt8) : Bool :=
  0x80 ≤ b && b ≤ 0xBF

/-- Whether the second byte may follow the first in a sequence of three or four bytes. -/
def follows (first second : UInt8) : Bool :=
  if first = 0xE0 then 0xA0 ≤ second && second ≤ 0xBF
  else if first = 0xED then 0x80 ≤ second && second ≤ 0x9F
  else if first = 0xF0 then 0x90 ≤ second && second ≤ 0xBF
  else if first = 0xF4 then 0x80 ≤ second && second ≤ 0x8F
  else 0xE1 ≤ first && first ≤ 0xF3 && continues second

/-- How many bytes one replacement stands for, where no character begins. -/
def brokenLength : List UInt8 → Nat
  | first :: second :: rest =>
      if !follows first second then 1
      else if 0xF0 ≤ first && rest.head?.any continues then 3
      else 2
  | _ => 1

/-- Decode with at most `fuel` characters. -/
def decodeWith : Nat → List UInt8 → List Char
  | 0, _ => []
  | _ + 1, [] => []
  | fuel + 1, b :: rest =>
      match EscapedUtf8.leadingChar? (b :: rest) with
      | some c => c :: decodeWith fuel ((b :: rest).drop c.utf8Size)
      | none => replacement :: decodeWith fuel ((b :: rest).drop (brokenLength (b :: rest)))

/-- Decode a byte string; each character takes at least one byte. -/
def decode (bytes : List UInt8) : List Char :=
  decodeWith bytes.length bytes

/-! ## Encoded characters -/

theorem utf8_cons (c : Char) (rest : List Char) :
    EscapedUtf8.utf8 (c :: rest) = String.utf8EncodeChar c ++ EscapedUtf8.utf8 rest := rfl

theorem decodeWith_utf8 (chars : List Char) (fuel : Nat)
    (hfuel : (EscapedUtf8.utf8 chars).length ≤ fuel) :
    decodeWith fuel (EscapedUtf8.utf8 chars) = chars := by
  induction chars generalizing fuel with
  | nil => cases fuel <;> rfl
  | cons c rest ih =>
      have hlead := EscapedUtf8.leadingChar?_encodeChar_append c (EscapedUtf8.utf8 rest)
      have hsize : (String.utf8EncodeChar c).length = c.utf8Size := String.length_utf8EncodeChar c
      have hpos := c.utf8Size_pos
      rw [utf8_cons, List.length_append, hsize] at hfuel
      obtain ⟨b, tail, htail⟩ := List.exists_cons_of_length_pos (hsize ▸ hpos)
      have hdrop : (b :: (tail ++ EscapedUtf8.utf8 rest)).drop c.utf8Size =
          EscapedUtf8.utf8 rest := by
        rw [← List.cons_append, ← htail, ← hsize, List.drop_left]
      cases fuel with
      | zero => omega
      | succ fuel =>
          rw [htail, List.cons_append] at hlead
          rw [utf8_cons, htail, List.cons_append, decodeWith, hlead]
          show c :: decodeWith fuel _ = c :: rest
          rw [hdrop, ih fuel (by omega)]

/-- Decoding undoes encoding. -/
@[simp] theorem decode_utf8 (chars : List Char) : decode (EscapedUtf8.utf8 chars) = chars :=
  decodeWith_utf8 chars _ (Nat.le_refl _)

/-! ## One character at a time -/

theorem decode_eq_nil_iff {bytes : List UInt8} : decode bytes = [] ↔ bytes = [] := by
  constructor
  · intro h
    cases bytes with
    | nil => rfl
    | cons b rest =>
        rw [decode, List.length_cons, decodeWith] at h
        split at h
        · cases h
        · cases h
  · rintro rfl
    rfl

theorem brokenLength_pos (bytes : List UInt8) : 0 < brokenLength bytes := by
  unfold brokenLength
  split
  · split
    · exact Nat.one_pos
    · split
      · exact Nat.succ_pos _
      · exact Nat.succ_pos _
  · exact Nat.one_pos

/-- The decoder does not depend on spare fuel. -/
theorem decodeWith_of_le (fuel more : Nat) (bytes : List UInt8) (hfuel : bytes.length ≤ fuel)
    (hmore : bytes.length ≤ more) : decodeWith fuel bytes = decodeWith more bytes := by
  induction fuel generalizing bytes more with
  | zero =>
      have hnil : bytes = [] := List.length_eq_zero_iff.mp (by omega)
      subst hnil
      cases more <;> rfl
  | succ fuel ih =>
      cases bytes with
      | nil => cases more <;> rfl
      | cons b rest =>
          simp only [List.length_cons] at hfuel hmore
          obtain ⟨more, rfl⟩ : ∃ m, more = m + 1 := ⟨more - 1, by omega⟩
          have hdrop {k : Nat} (hk : 0 < k) : ((b :: rest).drop k).length ≤ rest.length := by
            simp only [List.length_drop, List.length_cons]
            omega
          unfold decodeWith
          cases EscapedUtf8.leadingChar? (b :: rest) with
          | some c =>
              have hlength := hdrop c.utf8Size_pos
              simp only
              rw [ih more _ (by omega) (by omega)]
          | none =>
              have hlength := hdrop (brokenLength_pos (b :: rest))
              simp only
              rw [ih more _ (by omega) (by omega)]

theorem decode_of_leadingChar? {b : UInt8} {rest : List UInt8} {c : Char}
    (h : EscapedUtf8.leadingChar? (b :: rest) = some c) :
    decode (b :: rest) = c :: decode ((b :: rest).drop c.utf8Size) := by
  have hpos := c.utf8Size_pos
  have hlength : ((b :: rest).drop c.utf8Size).length ≤ rest.length := by
    simp only [List.length_drop, List.length_cons]
    omega
  rw [decode, List.length_cons, decodeWith, h]
  simp only
  rw [decodeWith_of_le rest.length _ _ hlength (Nat.le_refl _), decode]

theorem decode_of_broken {b : UInt8} {rest : List UInt8}
    (h : EscapedUtf8.leadingChar? (b :: rest) = none) :
    decode (b :: rest) = replacement :: decode ((b :: rest).drop (brokenLength (b :: rest))) := by
  have hpos := brokenLength_pos (b :: rest)
  have hlength : ((b :: rest).drop (brokenLength (b :: rest))).length ≤ rest.length := by
    simp only [List.length_drop, List.length_cons]
    omega
  rw [decode, List.length_cons, decodeWith, h]
  simp only
  rw [decodeWith_of_le rest.length _ _ hlength (Nat.le_refl _), decode]

/-- Encoded characters decode to themselves before whatever follows them. -/
theorem decode_utf8_append (chars : List Char) (rest : List UInt8) :
    decode (EscapedUtf8.utf8 chars ++ rest) = chars ++ decode rest := by
  induction chars with
  | nil => rfl
  | cons c chars ih =>
      have hsize : (String.utf8EncodeChar c).length = c.utf8Size := String.length_utf8EncodeChar c
      obtain ⟨b, tail, htail⟩ := List.exists_cons_of_length_pos (hsize ▸ c.utf8Size_pos)
      have hlead := EscapedUtf8.leadingChar?_encodeChar_append c (EscapedUtf8.utf8 chars ++ rest)
      rw [htail, List.cons_append] at hlead
      rw [utf8_cons, List.append_assoc, htail, List.cons_append, decode_of_leadingChar? hlead,
        ← List.cons_append, ← htail, ← hsize, List.drop_left, ih, List.cons_append]

/-! ## Newlines -/

theorem brokenLength_append_newline (b : UInt8) (rest more : List UInt8) :
    brokenLength (b :: rest ++ EscapedUtf8.newlineByte :: more) = brokenLength (b :: rest) ∧
      brokenLength (b :: rest) ≤ (b :: rest).length := by
  have hfollows : follows b EscapedUtf8.newlineByte = false := by
    unfold follows
    split_ifs <;> simp [continues, EscapedUtf8.newlineByte]
  cases rest with
  | nil => simp [brokenLength, hfollows]
  | cons second rest =>
      have hnewline : continues EscapedUtf8.newlineByte = false := by decide
      cases rest with
      | nil =>
          constructor
          · simp [brokenLength, hnewline]
          · simp only [brokenLength, List.head?_nil, Option.any_none, Bool.and_false,
              Bool.false_eq_true, if_false, List.length_cons, List.length_nil]
            split_ifs <;> omega
      | cons third rest =>
          constructor
          · simp [brokenLength]
          · simp only [brokenLength, List.length_cons]
            split_ifs <;> omega

/-- A newline ends whatever precedes it. -/
theorem decode_append_newline (front more : List UInt8) :
    decode (front ++ EscapedUtf8.newlineByte :: more) = decode front ++ '\n' :: decode more := by
  induction hn : front.length using Nat.strongRecOn generalizing front with
  | _ n ih =>
      cases front with
      | nil =>
          have hlead : EscapedUtf8.leadingChar? (EscapedUtf8.newlineByte :: more) = some '\n' :=
            EscapedUtf8.leadingChar?_ascii (by decide) more
          rw [List.nil_append, decode_of_leadingChar? hlead]
          rfl
      | cons b rest =>
          have hshorter {k : Nat} (hk : 0 < k) : ((b :: rest).drop k).length < n := by
            rw [List.length_drop, hn]
            rw [List.length_cons] at hn
            omega
          cases hlead : EscapedUtf8.leadingChar? (b :: rest) with
          | some c =>
              have hle : c.utf8Size ≤ (b :: rest).length := by
                have hlen := congrArg List.length (EscapedUtf8.eq_encodeChar_append hlead)
                simp only [List.length_append, String.length_utf8EncodeChar,
                  List.length_drop] at hlen
                omega
              have hmore := EscapedUtf8.leadingChar?_append hlead (EscapedUtf8.newlineByte :: more)
              rw [List.cons_append] at hmore
              rw [decode_of_leadingChar? hlead, List.cons_append, decode_of_leadingChar? hmore,
                ← List.cons_append, List.drop_append_of_le_length hle, List.cons_append,
                ih _ (hshorter c.utf8Size_pos) _ rfl]
          | none =>
              have hmore := EscapedUtf8.leadingChar?_append_newline more hlead
              obtain ⟨hlength, hle⟩ := brokenLength_append_newline b rest more
              rw [List.cons_append] at hmore hlength
              rw [decode_of_broken hlead, List.cons_append, decode_of_broken hmore, hlength,
                ← List.cons_append, List.drop_append_of_le_length hle, List.cons_append,
                ih _ (hshorter (brokenLength_pos _)) _ rfl]

end LossyUtf8
end Foundation
