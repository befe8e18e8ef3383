import Mathlib.Data.List.Basic
import Nauro.Foundation.LineText

/-!
# UTF-8 with escaped bytes

A total decoder from bytes to code points: a well-formed UTF-8 sequence decodes to its
character, and every byte that belongs to no such sequence is carried through as an escape.
Encoding writes the character or the escaped byte back.

* `decode_append_char` — a character is a boundary of the decoder, so decoding commutes with
  splitting into lines (`splitOn_decode`), and a decoded text stays one when whole lines are taken
  out of it (`Decoded`).
-/

namespace Foundation
namespace EscapedUtf8

/-- One decoded code point: a character, or a byte `≥ 0x80` no UTF-8 sequence accounts for. -/
inductive Point where
  | scalar (c : Char)
  | escaped (b : { b : UInt8 // 0x80 ≤ b })
deriving DecidableEq

/-- The bytes a code point stands for. -/
def encodePoint : Point → List UInt8
  | .scalar c => String.utf8EncodeChar c
  | .escaped b => [b.val]

/-- Encode a decoded text. -/
def encode (text : List Point) : List UInt8 :=
  text.flatMap encodePoint

/-- The character whose encoding begins the byte string, if there is one. -/
def leadingChar? (bytes : List UInt8) : Option Char :=
  bytes.toByteArray.utf8DecodeChar? 0

/-- Decode with at most `fuel` code points. -/
def decodeWith : Nat → List UInt8 → List Point
  | 0, _ => []
  | _ + 1, [] => []
  | fuel + 1, b :: rest =>
      match leadingChar? (b :: rest) with
      | some c => .scalar c :: decodeWith fuel ((b :: rest).drop c.utf8Size)
      | none =>
          if h : 0x80 ≤ b then
            .escaped ⟨b, h⟩ :: decodeWith fuel rest
          else
            .scalar (Char.ofUInt8 b) :: decodeWith fuel rest

/-- Decode a byte string; each code point takes at least one byte. -/
def decode (bytes : List UInt8) : List Point :=
  decodeWith bytes.length bytes

/-! ## The leading character -/

theorem leadingChar?_encodeChar_append (c : Char) (rest : List UInt8) :
    leadingChar? (String.utf8EncodeChar c ++ rest) = some c := by
  unfold leadingChar?
  rw [List.toByteArray_append]
  exact ByteArray.utf8DecodeChar?_utf8EncodeChar_append

theorem toByteArray_injective {xs ys : List UInt8}
    (h : xs.toByteArray = ys.toByteArray) : xs = ys := by
  have hdata := congrArg ByteArray.data h
  simpa [List.data_toByteArray] using hdata

theorem eq_encodeChar_append {bytes : List UInt8} {c : Char}
    (h : leadingChar? bytes = some c) :
    bytes = String.utf8EncodeChar c ++ bytes.drop c.utf8Size := by
  obtain ⟨tail, htail⟩ := ByteArray.exists_of_utf8DecodeChar?_eq_some h
  have hlist : bytes = String.utf8EncodeChar c ++ tail.data.toList := by
    apply toByteArray_injective
    rw [htail, List.toByteArray_append]
    congr 1
    ext1
    simp [List.data_toByteArray]
  have hdrop : bytes.drop c.utf8Size = tail.data.toList := by
    rw [hlist]
    simp [← String.length_utf8EncodeChar]
  rw [hdrop]
  exact hlist

theorem encodeChar_ofUInt8 {b : UInt8} (h : ¬ 0x80 ≤ b) :
    String.utf8EncodeChar (Char.ofUInt8 b) = [b] := by
  have hlt : b.toNat < 128 := by
    simpa [UInt8.le_iff_toNat_le] using h
  have hsize : (Char.ofUInt8 b).utf8Size = 1 := by
    rw [Char.utf8Size_eq_one_iff]
    delta Char.ofUInt8
    simp only [UInt32.le_iff_toNat_le, UInt8.toNat_toUInt32]
    simpa using Nat.le_of_lt_succ hlt
  rw [String.utf8EncodeChar_eq_singleton hsize]
  delta Char.ofUInt8
  simp

theorem leadingChar?_ascii {b : UInt8} (h : ¬ 0x80 ≤ b) (rest : List UInt8) :
    leadingChar? (b :: rest) = some (Char.ofUInt8 b) := by
  have henc := leadingChar?_encodeChar_append (Char.ofUInt8 b) rest
  rw [encodeChar_ofUInt8 h] at henc
  exact henc

/-- More bytes after a decodable prefix do not change its first character. -/
theorem leadingChar?_append {bytes : List UInt8} {c : Char}
    (h : leadingChar? bytes = some c) (more : List UInt8) :
    leadingChar? (bytes ++ more) = some c := by
  rw [eq_encodeChar_append h, List.append_assoc]
  exact leadingChar?_encodeChar_append c _

theorem and_eq_zero_of_lt {b : UInt8} (h : ¬ 0x80 ≤ b) : b &&& 0x80 = 0 := by
  have hlt : b.toNat < 128 := by
    simpa [UInt8.le_iff_toNat_le] using h
  have hall : ∀ n < 128, UInt8.ofNat n &&& 0x80 = 0 := by decide
  simpa using hall b.toNat hlt

/-- Past its first byte, an encoded character has no byte below `0x80`. -/
theorem le_of_mem_tail_encodeChar {c : Char} {b : UInt8}
    (hb : b ∈ (String.utf8EncodeChar c).tail) : 0x80 ≤ b := by
  by_contra hlow
  obtain ⟨i, hi, rfl⟩ := List.getElem_of_mem hb
  have hlen : i + 1 < (String.utf8EncodeChar c).length := by
    rw [List.length_tail] at hi
    omega
  have hfirst : ((String.utf8EncodeChar c)[i + 1]).IsUTF8FirstByte := by
    left
    simp only [List.getElem_tail] at hlow
    exact and_eq_zero_of_lt hlow
  rw [UInt8.isUTF8FirstByte_getElem_utf8EncodeChar] at hfirst
  omega

/-- The first byte of an encoded character is below `0x80` only for a one-byte character. -/
theorem encodeChar_of_head_lt {c : Char} {b : UInt8} {tail : List UInt8}
    (hc : String.utf8EncodeChar c = b :: tail) (hb : ¬ 0x80 ≤ b) : tail = [] := by
  have hlead := leadingChar?_ascii hb tail
  have hself := leadingChar?_encodeChar_append c []
  rw [List.append_nil, hc, hlead] at hself
  have hchar : Char.ofUInt8 b = c := Option.some.inj hself
  rw [← hchar, encodeChar_ofUInt8 hb] at hc
  exact (List.cons.inj hc).2.symm

/-! ## Decoding loses no byte -/

theorem encode_decodeWith (fuel : Nat) (bytes : List UInt8) (hfuel : bytes.length ≤ fuel) :
    encode (decodeWith fuel bytes) = bytes := by
  induction fuel generalizing bytes with
  | zero =>
      have hnil : bytes = [] := List.length_eq_zero_iff.mp (by omega)
      subst hnil
      rfl
  | succ fuel ih =>
      cases bytes with
      | nil => rfl
      | cons b rest =>
          simp only [List.length_cons] at hfuel
          unfold decodeWith
          cases hlead : leadingChar? (b :: rest) with
          | some c =>
              have hpos := c.utf8Size_pos
              have hdrop : ((b :: rest).drop c.utf8Size).length ≤ fuel := by
                simp only [List.length_drop, List.length_cons]
                omega
              have hrest := ih _ hdrop
              simp only [encode, List.flatMap_cons] at hrest ⊢
              rw [hrest]
              exact (eq_encodeChar_append hlead).symm
          | none =>
              have hrest := ih rest (by omega)
              by_cases hb : 0x80 ≤ b
              · simp only [encode, hb, dite_true, List.flatMap_cons] at hrest ⊢
                rw [hrest]
                rfl
              · rw [leadingChar?_ascii hb] at hlead
                cases hlead

/-- Encoding undoes decoding on every byte string, well-formed or not. -/
theorem encode_decode (bytes : List UInt8) : encode (decode bytes) = bytes :=
  encode_decodeWith bytes.length bytes (Nat.le_refl _)

theorem decode_injective : Function.Injective decode := by
  intro xs ys h
  rw [← encode_decode xs, h, encode_decode]

/-! ## The decoder does not depend on spare fuel -/

theorem decodeWith_of_le (fuel more : Nat) (bytes : List UInt8)
    (hfuel : bytes.length ≤ fuel) (hmore : bytes.length ≤ more) :
    decodeWith fuel bytes = decodeWith more bytes := by
  induction fuel generalizing bytes more with
  | zero =>
      have hnil : bytes = [] := List.length_eq_zero_iff.mp (by omega)
      subst hnil
      cases more <;> rfl
  | succ fuel ih =>
      cases bytes with
      | nil => cases more <;> rfl
      | cons b rest =>
          simp only [List.length_cons] at hfuel hmore
          obtain ⟨more, rfl⟩ : ∃ m, more = m + 1 := ⟨more - 1, by omega⟩
          unfold decodeWith
          cases hlead : leadingChar? (b :: rest) with
          | some c =>
              have hpos := c.utf8Size_pos
              have hlen : ((b :: rest).drop c.utf8Size).length ≤ rest.length := by
                simp only [List.length_drop, List.length_cons]
                omega
              simp only
              rw [ih more _ (by omega) (by omega)]
          | none =>
              simp only
              rw [ih more rest (by omega) (by omega)]

theorem decode_nil : decode [] = [] := rfl

theorem decode_of_leadingChar? {b : UInt8} {rest : List UInt8} {c : Char}
    (h : leadingChar? (b :: rest) = some c) :
    decode (b :: rest) = .scalar c :: decode ((b :: rest).drop c.utf8Size) := by
  have hpos := c.utf8Size_pos
  have hlen : ((b :: rest).drop c.utf8Size).length ≤ rest.length := by
    simp only [List.length_drop, List.length_cons]
    omega
  unfold decode
  rw [List.length_cons, decodeWith, h]
  simp only
  rw [decodeWith_of_le rest.length ((b :: rest).drop c.utf8Size).length _ hlen
    (Nat.le_refl _)]

theorem decode_of_escaped {b : UInt8} {rest : List UInt8} (hb : 0x80 ≤ b)
    (h : leadingChar? (b :: rest) = none) :
    decode (b :: rest) = .escaped ⟨b, hb⟩ :: decode rest := by
  unfold decode
  rw [List.length_cons, decodeWith, h]
  simp [hb]

/-- Valid UTF-8 decodes to its characters, with no escape. -/
theorem decode_map_scalar (chars : List Char) :
    decode (encode (chars.map .scalar)) = chars.map .scalar := by
  induction chars with
  | nil => rfl
  | cons c chars ih =>
      simp only [List.map_cons, encode, List.flatMap_cons, encodePoint] at ih ⊢
      have hlead := leadingChar?_encodeChar_append c
        ((chars.map Point.scalar).flatMap encodePoint)
      cases hbytes : String.utf8EncodeChar c with
      | nil =>
          have hlen := String.length_utf8EncodeChar c
          have hpos := c.utf8Size_pos
          rw [hbytes] at hlen
          simp at hlen
          omega
      | cons b tail =>
          rw [hbytes, List.cons_append] at hlead
          rw [List.cons_append, decode_of_leadingChar? hlead, ← List.cons_append, ← hbytes]
          have hdrop : (String.utf8EncodeChar c ++
              (chars.map Point.scalar).flatMap encodePoint).drop c.utf8Size =
                (chars.map Point.scalar).flatMap encodePoint := by
            rw [← String.length_utf8EncodeChar c]
            exact List.drop_left
          rw [hdrop, ih]

/-! ## Characters are boundaries -/

theorem encodeChar_ne_nil (c : Char) : String.utf8EncodeChar c ≠ [] := by
  intro h
  have hlength := String.length_utf8EncodeChar c
  have hpos := c.utf8Size_pos
  rw [h, List.length_nil] at hlength
  omega

/-- A sequence that does not decode keeps not decoding when a character follows it: no encoding has
the first byte of a character past its own. -/
theorem leadingChar?_append_char {b : UInt8} {rest : List UInt8} (c : Char) (more : List UInt8)
    (h : leadingChar? (b :: rest) = none) :
    leadingChar? (b :: rest ++ (String.utf8EncodeChar c ++ more)) = none := by
  cases hlead : leadingChar? (b :: rest ++ (String.utf8EncodeChar c ++ more)) with
  | none => rfl
  | some c' =>
      exfalso
      have hsplit := eq_encodeChar_append hlead
      by_cases hlen : c'.utf8Size ≤ (b :: rest).length
      · have hfront : (b :: rest) =
            String.utf8EncodeChar c' ++ (b :: rest).drop c'.utf8Size := by
          have htake := congrArg (List.take c'.utf8Size) hsplit
          rw [List.take_append_of_le_length hlen,
            List.take_left' (String.length_utf8EncodeChar c')] at htake
          rw [← htake, List.take_append_drop]
        rw [hfront, leadingChar?_encodeChar_append] at h
        cases h
      · obtain ⟨first, tail, hfirst⟩ := List.exists_cons_of_ne_nil (encodeChar_ne_nil c)
        have hindex : (String.utf8EncodeChar c')[(b :: rest).length]? = some first := by
          have hget := congrArg (fun l : List UInt8 => l[(b :: rest).length]?) hsplit
          have hinner : (b :: rest).length < (String.utf8EncodeChar c').length := by
            rw [String.length_utf8EncodeChar]
            omega
          simp only [List.getElem?_append_right (Nat.le_refl _), Nat.sub_self] at hget
          rw [List.getElem?_append_left hinner, hfirst] at hget
          exact hget.symm
        obtain ⟨hbound, hinside⟩ := List.getElem?_eq_some_iff.mp hindex
        have hpos : 0 < (String.utf8EncodeChar c).length := by
          rw [hfirst]
          exact Nat.succ_pos _
        have hhead : (String.utf8EncodeChar c)[0] = first := by
          simp only [hfirst, List.getElem_cons_zero]
        have hstarts : ((String.utf8EncodeChar c')[(b :: rest).length]).IsUTF8FirstByte := by
          rw [hinside, ← hhead]
          exact UInt8.isUTF8FirstByte_getElem_utf8EncodeChar.mpr rfl
        rw [UInt8.isUTF8FirstByte_getElem_utf8EncodeChar, List.length_cons] at hstarts
        omega

/-- A character ends whatever precedes it: decoding restarts after it. -/
theorem decode_append_char (front : List UInt8) (c : Char) (more : List UInt8) :
    decode (front ++ (String.utf8EncodeChar c ++ more)) =
      decode front ++ .scalar c :: decode more := by
  induction hn : front.length using Nat.strongRecOn generalizing front with
  | _ n ih =>
      cases front with
      | nil =>
          obtain ⟨first, tail, hfirst⟩ := List.exists_cons_of_ne_nil (encodeChar_ne_nil c)
          have hlead := leadingChar?_encodeChar_append c more
          rw [hfirst, List.cons_append] at hlead
          have hdrop : (first :: (tail ++ more)).drop c.utf8Size = more := by
            rw [← List.cons_append, ← hfirst, ← String.length_utf8EncodeChar c]
            exact List.drop_left
          rw [List.nil_append, hfirst, List.cons_append, decode_of_leadingChar? hlead, hdrop]
          rfl
      | cons b rest =>
          cases hlead : leadingChar? (b :: rest) with
          | some c' =>
              have hpos := c'.utf8Size_pos
              have hle : c'.utf8Size ≤ (b :: rest).length := by
                have hlen := congrArg List.length (eq_encodeChar_append hlead)
                simp only [List.length_append, String.length_utf8EncodeChar,
                  List.length_drop] at hlen
                omega
              have hmore := leadingChar?_append hlead (String.utf8EncodeChar c ++ more)
              rw [List.cons_append] at hmore
              rw [decode_of_leadingChar? hlead, List.cons_append,
                decode_of_leadingChar? hmore, ← List.cons_append,
                List.drop_append_of_le_length hle, List.cons_append]
              congr 1
              refine ih ((b :: rest).drop c'.utf8Size).length ?_ _ rfl
              rw [List.length_drop]
              omega
          | none =>
              have hb : 0x80 ≤ b := by
                by_contra hlow
                rw [leadingChar?_ascii hlow] at hlead
                cases hlead
              have hmore := leadingChar?_append_char c more hlead
              rw [List.cons_append] at hmore
              rw [decode_of_escaped hb hlead, List.cons_append,
                decode_of_escaped hb hmore, List.cons_append]
              congr 1
              refine ih rest.length ?_ rest rfl
              rw [← hn, List.length_cons]
              exact Nat.lt_succ_self _

/-! ## Lines -/

/-- The newline as a byte. -/
def newlineByte : UInt8 := 0x0A

/-- The newline as a code point. -/
def newline : Point := .scalar '\n'

/-- A sequence that does not decode keeps not decoding when a newline follows it. -/
theorem leadingChar?_append_newline {b : UInt8} {rest : List UInt8} (more : List UInt8)
    (h : leadingChar? (b :: rest) = none) :
    leadingChar? (b :: rest ++ newlineByte :: more) = none :=
  leadingChar?_append_char '\n' more h

/-- A newline byte ends whatever precedes it: decoding restarts after it. -/
theorem decode_append_newline (front more : List UInt8) :
    decode (front ++ newlineByte :: more) = decode front ++ newline :: decode more :=
  decode_append_char front '\n' more

theorem newline_notMem_decode {bytes : List UInt8} (h : newlineByte ∉ bytes) :
    newline ∉ decode bytes := by
  intro hmem
  apply h
  have henc : newlineByte ∈ encode (decode bytes) := by
    refine List.mem_flatMap.mpr ⟨newline, hmem, ?_⟩
    decide
  rwa [encode_decode] at henc

theorem decode_intercalate (lines : List (List UInt8)) :
    decode ([newlineByte].intercalate lines) = [newline].intercalate (lines.map decode) := by
  induction lines with
  | nil => rfl
  | cons first others ih =>
      cases others with
      | nil => simp
      | cons second others =>
          rw [LineText.intercalate_cons_cons, decode_append_newline, ih]
          simp

/-- The lines of a decoded text are the decoded lines of the bytes. -/
theorem splitOn_decode (bytes : List UInt8) :
    (decode bytes).splitOn newline = (bytes.splitOn newlineByte).map decode := by
  have hjoin : bytes = [newlineByte].intercalate (bytes.splitOn newlineByte) :=
    (List.intercalate_splitOn newlineByte).symm
  have hlines : ∀ line ∈ bytes.splitOn newlineByte, newlineByte ∉ line :=
    fun line hline => LineText.notMem_of_mem_splitOn hline
  have hdecoded : decode ([newlineByte].intercalate (bytes.splitOn newlineByte)) =
      [newline].intercalate ((bytes.splitOn newlineByte).map decode) :=
    decode_intercalate (bytes.splitOn newlineByte)
  conv_lhs => rw [hjoin, hdecoded]
  refine List.splitOn_intercalate newline ?_ (by simp)
  intro line hline
  obtain ⟨raw, hraw, rfl⟩ := List.mem_map.mp hline
  exact newline_notMem_decode (hlines raw hraw)

/-- Only the newline itself is written with a newline byte. -/
theorem newlineByte_mem_encodePoint {p : Point} (h : newlineByte ∈ encodePoint p) :
    p = newline := by
  cases p with
  | escaped b =>
      have heq : newlineByte = b.val := List.mem_singleton.mp h
      exact absurd (heq ▸ b.property) (by decide)
  | scalar c =>
      have hbytes : newlineByte ∈ String.utf8EncodeChar c := h
      cases hc : String.utf8EncodeChar c with
      | nil => rw [hc] at hbytes; cases hbytes
      | cons b tail =>
          rw [hc] at hbytes
          rcases List.mem_cons.mp hbytes with rfl | htail
          · have hlow : ¬ 0x80 ≤ newlineByte := by decide
            have hnil := encodeChar_of_head_lt hc hlow
            subst hnil
            have hself := leadingChar?_encodeChar_append c []
            rw [hc, List.append_nil, leadingChar?_ascii hlow] at hself
            rw [← Option.some.inj hself]
            rfl
          · have hmem : newlineByte ∈ (String.utf8EncodeChar c).tail := by
              rwa [hc]
            exact absurd (le_of_mem_tail_encodeChar hmem) (by decide)

theorem newlineByte_notMem_encode {text : List Point} (h : newline ∉ text) :
    newlineByte ∉ encode text := by
  intro hmem
  obtain ⟨p, hp, hbyte⟩ := List.mem_flatMap.mp hmem
  exact h (newlineByte_mem_encodePoint hbyte ▸ hp)

theorem encode_append (front rest : List Point) :
    encode (front ++ rest) = encode front ++ encode rest :=
  List.flatMap_append ..

theorem encode_newline_cons (rest : List Point) :
    encode (newline :: rest) = newlineByte :: encode rest := rfl

theorem encode_intercalate (lines : List (List Point)) :
    encode ([newline].intercalate lines) = [newlineByte].intercalate (lines.map encode) := by
  induction lines with
  | nil => rfl
  | cons first others ih =>
      cases others with
      | nil => simp
      | cons second others =>
          rw [LineText.intercalate_cons_cons, encode_append, encode_newline_cons, ih]
          simp

theorem getLast?_decode (bytes : List UInt8) :
    (decode bytes).getLast? = some newline ↔ bytes.getLast? = some newlineByte := by
  constructor
  · intro h
    obtain ⟨front, hfront⟩ := List.getLast?_eq_some_iff.mp h
    have hbytes := congrArg encode hfront
    rw [encode_decode, encode_append] at hbytes
    rw [hbytes]
    exact List.getLast?_concat
  · intro h
    obtain ⟨front, rfl⟩ := List.getLast?_eq_some_iff.mp h
    rw [decode_append_newline]
    exact List.getLast?_concat

theorem documentLines_decode (bytes : List UInt8) :
    LineText.documentLines newline (decode bytes) =
      (LineText.documentLines newlineByte bytes).map decode := by
  unfold LineText.documentLines
  by_cases h : bytes.getLast? = some newlineByte
  · rw [if_pos h, if_pos ((getLast?_decode bytes).mpr h)]
    obtain ⟨front, rfl⟩ := List.getLast?_eq_some_iff.mp h
    have hdecode : decode (front ++ [newlineByte]) = decode front ++ [newline] :=
      decode_append_newline front []
    rw [hdecode, List.dropLast_concat, List.dropLast_concat, splitOn_decode]
  · rw [if_neg h, if_neg (fun hd => h ((getLast?_decode bytes).mp hd)), splitOn_decode]

/-- An ASCII prefix can be recognised before or after decoding. -/
theorem decode_ascii_append {front : List UInt8} (hfront : ∀ b ∈ front, ¬ 0x80 ≤ b)
    (rest : List UInt8) :
    decode (front ++ rest) = front.map (fun b => .scalar (Char.ofUInt8 b)) ++ decode rest := by
  induction front with
  | nil => rfl
  | cons b front ih =>
      obtain ⟨hb, hfront⟩ := List.forall_mem_cons.mp hfront
      have hsize : (Char.ofUInt8 b).utf8Size = 1 := by
        rw [← String.length_utf8EncodeChar, encodeChar_ofUInt8 hb]
        rfl
      rw [List.cons_append, decode_of_leadingChar? (leadingChar?_ascii hb _), hsize]
      simp [ih hfront]

/-! ## Plain UTF-8 -/

/-- The UTF-8 bytes of a text. -/
def utf8 (chars : List Char) : List UInt8 :=
  encode (chars.map .scalar)

theorem utf8_append (front rest : List Char) : utf8 (front ++ rest) = utf8 front ++ utf8 rest := by
  simp [utf8, encode_append]

theorem decode_utf8 (chars : List Char) : decode (utf8 chars) = chars.map .scalar :=
  decode_map_scalar chars

theorem utf8_injective : Function.Injective utf8 := by
  intro xs ys h
  have hpoints := congrArg decode h
  rw [decode_utf8, decode_utf8] at hpoints
  exact List.map_injective_iff.mpr (fun _ _ heq => Point.scalar.inj heq) hpoints

theorem newline_mem_map_scalar {chars : List Char} :
    newline ∈ chars.map .scalar ↔ '\n' ∈ chars := by
  constructor
  · intro h
    obtain ⟨c, hc, heq⟩ := List.mem_map.mp h
    rwa [← Point.scalar.inj heq]
  · exact fun h => List.mem_map_of_mem h

theorem utf8_intercalate (lines : List (List Char)) :
    utf8 (['\n'].intercalate lines) = [newlineByte].intercalate (lines.map utf8) := by
  induction lines with
  | nil => rfl
  | cons first others ih =>
      cases others with
      | nil => simp
      | cons second others =>
          rw [LineText.intercalate_cons_cons, utf8_append]
          change utf8 first ++ newlineByte :: utf8 _ = _
          rw [ih]
          simp

theorem splitOn_utf8 (chars : List Char) :
    (utf8 chars).splitOn newlineByte = (chars.splitOn '\n').map utf8 := by
  have hplain : ∀ line ∈ (chars.splitOn '\n').map utf8, newlineByte ∉ line := by
    intro line hline
    obtain ⟨text, htext, rfl⟩ := List.mem_map.mp hline
    apply newlineByte_notMem_encode
    rw [newline_mem_map_scalar]
    exact LineText.notMem_of_mem_splitOn htext
  have hne : (chars.splitOn '\n').map utf8 ≠ [] := by
    simp [List.splitOn_ne_nil]
  have hjoin : ['\n'].intercalate (chars.splitOn '\n') = chars :=
    List.intercalate_splitOn '\n'
  conv_lhs => rw [← hjoin, utf8_intercalate]
  exact List.splitOn_intercalate newlineByte hplain hne

/-- Encoded characters are cut at a newline into encoded characters. -/
theorem utf8_eq_append_newline {chars : List Char} {front rest : List UInt8}
    (h : utf8 chars = front ++ newlineByte :: rest) :
    ∃ before after, chars = before ++ '\n' :: after ∧ front = utf8 before ∧ rest = utf8 after := by
  have hpoints := congrArg decode h
  rw [decode_utf8, decode_append_newline] at hpoints
  obtain ⟨before, more, rfl, hfront, hmore⟩ := List.map_eq_append_iff.mp hpoints
  obtain ⟨c, after, rfl, hc, hrest⟩ := List.map_eq_cons_iff.mp hmore
  refine ⟨before, after, by rw [Point.scalar.inj hc], ?_, ?_⟩
  · rw [utf8, hfront, encode_decode]
  · rw [utf8, hrest, encode_decode]

theorem getLast?_utf8 (chars : List Char) :
    (utf8 chars).getLast? = some newlineByte ↔ chars.getLast? = some '\n' := by
  rw [← getLast?_decode, decode_utf8, List.getLast?_map]
  cases chars.getLast? with
  | none => simp
  | some c => simp [newline]

theorem documentLines_utf8 (chars : List Char) :
    LineText.documentLines newlineByte (utf8 chars) =
      (LineText.documentLines '\n' chars).map utf8 := by
  unfold LineText.documentLines
  by_cases h : chars.getLast? = some '\n'
  · rw [if_pos h, if_pos ((getLast?_utf8 chars).mpr h)]
    obtain ⟨front, rfl⟩ := List.getLast?_eq_some_iff.mp h
    have hbytes : utf8 (front ++ ['\n']) = utf8 front ++ [newlineByte] := by
      rw [utf8_append]
      rfl
    rw [hbytes, List.dropLast_concat, List.dropLast_concat, splitOn_utf8]
  · rw [if_neg h, if_neg (fun hd => h ((getLast?_utf8 chars).mp hd)), splitOn_utf8]

/-! ## Decoded texts -/

/-- A text that some bytes decode to. -/
def Decoded (text : List Point) : Prop :=
  decode (encode text) = text

theorem decoded_decode (bytes : List UInt8) : Decoded (decode bytes) := by
  rw [Decoded, encode_decode]

theorem encode_cons (p : Point) (text : List Point) :
    encode (p :: text) = encodePoint p ++ encode text :=
  List.flatMap_cons

theorem Decoded.tail {p : Point} {text : List Point} (h : Decoded (p :: text)) : Decoded text := by
  rw [Decoded, encode_cons] at h
  cases p with
  | scalar c =>
      have hsplit := decode_append_char [] c (encode text)
      rw [List.nil_append] at hsplit
      exact (List.cons.inj (hsplit.symm.trans h)).2
  | escaped b =>
      cases hlead : leadingChar? (b.val :: encode text) with
      | some c =>
          rw [encodePoint, List.singleton_append, decode_of_leadingChar? hlead] at h
          cases (List.cons.inj h).1
      | none =>
          rw [encodePoint, List.singleton_append, decode_of_escaped b.property hlead] at h
          exact (List.cons.inj h).2

theorem Decoded.drop {front text : List Point} (h : Decoded (front ++ text)) : Decoded text := by
  induction front with
  | nil => exact h
  | cons p front ih => exact ih h.tail

/-- Decoded texts can be joined behind a character. -/
theorem decoded_append {front text : List Point} {c : Char} (hfront : Decoded front)
    (htext : Decoded text) : Decoded (front ++ .scalar c :: text) := by
  rw [Decoded, encode_append, encode_cons, encodePoint, decode_append_char, hfront, htext]

/-- A decoded text is one up to a character. -/
theorem Decoded.take {front text : List Point} {c : Char} (h : Decoded (front ++ .scalar c :: text)) :
    Decoded front := by
  have htext : Decoded text := h.drop.tail
  rw [Decoded, encode_append, encode_cons, encodePoint, decode_append_char, htext] at h
  exact List.append_cancel_right h

theorem Decoded.eq_of_encode {text text' : List Point} (h : Decoded text) (h' : Decoded text')
    (heq : encode text = encode text') : text = text' :=
  h.symm.trans ((congrArg decode heq).trans h')

end EscapedUtf8
end Foundation
