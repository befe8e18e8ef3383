import Nauro.Foundation.LossyUtf8

/-!
# Percent-encoded bytes

* `Spelling.take_at_escape`, `Spelling.take_clear` — cuts that split no escape.
-/

namespace Foundation
namespace PercentEncoding

/-! ## Escapes -/

/-- An upper-case hexadecimal digit. -/
def upperHex (n : Nat) : Char :=
  if n < 10 then Char.ofNat ('0'.toNat + n) else Char.ofNat ('A'.toNat + (n - 10))

theorem upperHex_ne_percent {n : Nat} (h : n < 16) : upperHex n ≠ '%' := by
  have hall : ∀ k < 16, upperHex k ≠ '%' := by decide
  exact hall n h

/-- `%XX`. -/
def escapeByte (b : UInt8) : List Char :=
  ['%', upperHex (b.toNat / 16), upperHex (b.toNat % 16)]

/-- Every plain byte as itself, every other one as an escape. -/
def escape (plain : UInt8 → Bool) (bytes : List UInt8) : List Char :=
  bytes.flatMap fun b => if plain b then [Char.ofUInt8 b] else escapeByte b

/-- Read escapes with a reader of two digits; what is no escape stands for its own bytes. -/
def unescape (digits : Char → Char → Option UInt8) : List Char → List UInt8
  | '%' :: high :: low :: rest =>
      match digits high low with
      | some b => b :: unescape digits rest
      | none => EscapedUtf8.utf8 ['%'] ++ unescape digits (high :: low :: rest)
  | c :: rest => EscapedUtf8.utf8 [c] ++ unescape digits rest
  | [] => []

/-- The plain bytes stand for themselves, as ASCII other than the escape. -/
structure PlainBytes (plain : UInt8 → Bool) : Prop where
  ascii : ∀ b, plain b = true → ¬ 0x80 ≤ b
  percent : ∀ b, plain b = true → Char.ofUInt8 b ≠ '%'

/-- A text spells the bytes. -/
inductive Spelling (plain : UInt8 → Bool) : List UInt8 → List Char → Prop where
  | nil : Spelling plain [] []
  | plain {b : UInt8} {bytes : List UInt8} {text : List Char} (hplain : plain b = true)
      (rest : Spelling plain bytes text) : Spelling plain (b :: bytes) (Char.ofUInt8 b :: text)
  | escaped (b : UInt8) {bytes : List UInt8} {text : List Char}
      (rest : Spelling plain bytes text) : Spelling plain (b :: bytes) (escapeByte b ++ text)

variable {plain : UInt8 → Bool}

theorem Spelling.append {bytes more : List UInt8} {text later : List Char}
    (h : Spelling plain bytes text) (hmore : Spelling plain more later) :
    Spelling plain (bytes ++ more) (text ++ later) := by
  induction h with
  | nil => exact hmore
  | plain hplain rest ih => exact Spelling.plain hplain ih
  | escaped b rest ih =>
      rw [List.append_assoc]
      exact Spelling.escaped b ih

theorem spelling_escape (bytes : List UInt8) : Spelling plain bytes (escape plain bytes) := by
  induction bytes with
  | nil => exact Spelling.nil
  | cons b bytes ih =>
      rw [escape, List.flatMap_cons]
      by_cases hplain : plain b = true
      · rw [if_pos hplain]
        exact Spelling.plain hplain ih
      · rw [if_neg hplain]
        exact Spelling.escaped b ih

theorem Spelling.eq_nil_iff {bytes : List UInt8} {text : List Char}
    (h : Spelling plain bytes text) : text = [] ↔ bytes = [] := by
  cases h with
  | nil => simp
  | plain hplain rest => simp
  | escaped b rest => simp [escapeByte]

/-! ## Reading -/

/-- A reader of two digits that reads what is written for a byte. -/
def ReadsBytes (digits : Char → Char → Option UInt8) : Prop :=
  ∀ b : UInt8, digits (upperHex (b.toNat / 16)) (upperHex (b.toNat % 16)) = some b

theorem utf8_ofUInt8 {b : UInt8} (h : ¬ 0x80 ≤ b) : EscapedUtf8.utf8 [Char.ofUInt8 b] = [b] := by
  rw [← EscapedUtf8.encodeChar_ofUInt8 h]
  exact List.append_nil _

/-- Every spelling is read back. -/
theorem Spelling.unescape {digits : Char → Char → Option UInt8} (hdigits : ReadsBytes digits)
    (hplain : PlainBytes plain) {bytes : List UInt8} {text : List Char}
    (h : Spelling plain bytes text) : unescape digits text = bytes := by
  induction h with
  | nil => rfl
  | @plain b bytes text hb rest ih =>
      have hstep : PercentEncoding.unescape digits (Char.ofUInt8 b :: text) =
          EscapedUtf8.utf8 [Char.ofUInt8 b] ++ PercentEncoding.unescape digits text := by
        rw [PercentEncoding.unescape]
        exact fun high low rest hpercent _ => hplain.percent b hb hpercent
      rw [hstep, ih, utf8_ofUInt8 (hplain.ascii b hb)]
      rfl
  | @escaped b bytes text rest ih =>
      rw [escapeByte, List.cons_append, List.cons_append, List.cons_append, List.nil_append,
        PercentEncoding.unescape, hdigits b]
      simp only [ih]

/-! ## Cuts -/

/-- A cut ahead of an escape splits none. -/
theorem Spelling.take_at_escape {bytes : List UInt8}
    {text : List Char} (h : Spelling plain bytes text) {n : Nat} (hn : text[n]? = some '%') :
    ∃ k, Spelling plain (bytes.take k) (text.take n) := by
  induction h generalizing n with
  | nil => cases hn
  | plain hb rest ih =>
      cases n with
      | zero => exact ⟨0, Spelling.nil⟩
      | succ n =>
          obtain ⟨k, hk⟩ := ih hn
          exact ⟨k + 1, Spelling.plain hb hk⟩
  | escaped b rest ih =>
      have hb := b.toNat_lt
      rcases n with - | - | - | n
      · exact ⟨0, Spelling.nil⟩
      · exact absurd (Option.some.inj hn) (upperHex_ne_percent (by omega))
      · exact absurd (Option.some.inj hn) (upperHex_ne_percent (by omega))
      · obtain ⟨k, hk⟩ := ih (n := n) hn
        exact ⟨k + 1, Spelling.escaped b hk⟩

/-- A cut with no escape begun in the two characters before it splits none. -/
theorem Spelling.take_clear {bytes : List UInt8} {text : List Char}
    (h : Spelling plain bytes text) {n : Nat}
    (hclear : ∀ i < n, n ≤ i + 2 → text[i]? ≠ some '%') :
    ∃ k, Spelling plain (bytes.take k) (text.take n) := by
  induction h generalizing n with
  | nil =>
      refine ⟨0, ?_⟩
      rw [List.take_nil, List.take_nil]
      exact Spelling.nil
  | plain hb rest ih =>
      cases n with
      | zero => exact ⟨0, Spelling.nil⟩
      | succ n =>
          obtain ⟨k, hk⟩ := ih (n := n) fun i hi hnear =>
            hclear (i + 1) (by omega) (by omega)
          exact ⟨k + 1, Spelling.plain hb hk⟩
  | escaped b rest ih =>
      rcases n with - | - | - | n
      · exact ⟨0, Spelling.nil⟩
      · exact absurd rfl (hclear 0 (by omega) (by omega))
      · exact absurd rfl (hclear 0 (by omega) (by omega))
      · obtain ⟨k, hk⟩ := ih (n := n) fun i hi hnear => hclear (i + 3) (by omega) (by omega)
        exact ⟨k + 1, Spelling.escaped b hk⟩

end PercentEncoding
end Foundation
