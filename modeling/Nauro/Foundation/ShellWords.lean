import Mathlib.Data.List.Basic

/-!
# Words of a shell

Words are quoted for a shell and a line is split into words, as POSIX shells do it for words
and quotes. What the symbols are is a parameter.

* `split_line` — the words of a line of quoted and plain words.
-/

namespace Foundation
namespace ShellWords

/-- The symbols that a shell sets apart. -/
structure Alphabet (α : Type) where
  blank : α → Bool
  single : α
  double : α
  escape : α
  /-- The symbols of words that need no quotes. -/
  safe : α → Bool
  single_ne_double : single ≠ double
  single_ne_escape : single ≠ escape
  double_ne_escape : double ≠ escape
  blank_mark : blank single = false ∧ blank double = false ∧ blank escape = false
  safe_plain : ∀ a, safe a = true → blank a = false ∧ a ≠ single ∧ a ≠ double ∧ a ≠ escape

variable {α : Type} [DecidableEq α] (alphabet : Alphabet α)

/-! ## Quoting -/

/-- A single quote within single quotes: they end, the quote stands in double ones, they begin. -/
def quoteSymbol (a : α) : List α :=
  if a = alphabet.single then
    [alphabet.single, alphabet.double, alphabet.single, alphabet.double, alphabet.single]
  else [a]

/-- `shlex.quote`. -/
def quote (word : List α) : List α :=
  if word ≠ [] ∧ word.all alphabet.safe then word
  else alphabet.single :: word.flatMap (quoteSymbol alphabet) ++ [alphabet.single]

/-! ## Splitting -/

inductive State (α : Type) where
  /-- No word has begun. -/
  | between
  | word
  /-- Inside quotes. -/
  | quoted (mark : α)
  /-- After an escape, outside quotes or inside double ones. -/
  | escaped (inside : Bool)

/-- The words of the rest of a line, after a part of a word; `marked` tells whether quotes have
begun in it. -/
def scan : State α → List α → Bool → List α → Option (List (List α))
  | .between, _, _, [] => some []
  | .between, _, _, a :: rest =>
      if alphabet.blank a then scan .between [] false rest
      else if a = alphabet.escape then scan (.escaped false) [] false rest
      else if a = alphabet.single ∨ a = alphabet.double then scan (.quoted a) [] true rest
      else scan .word [a] false rest
  | .word, token, marked, [] => if token ≠ [] ∨ marked then some [token] else some []
  | .word, token, marked, a :: rest =>
      if alphabet.blank a then
        if token ≠ [] ∨ marked then (scan .between [] false rest).map (token :: ·)
        else scan .between [] false rest
      else if a = alphabet.single ∨ a = alphabet.double then scan (.quoted a) token true rest
      else if a = alphabet.escape then scan (.escaped false) token marked rest
      else scan .word (token ++ [a]) marked rest
  | .quoted _, _, _, [] => none
  | .quoted mark, token, marked, a :: rest =>
      if a = mark then scan .word token marked rest
      else if a = alphabet.escape ∧ mark = alphabet.double then scan (.escaped true) token marked rest
      else scan (.quoted mark) (token ++ [a]) marked rest
  | .escaped _, _, _, [] => none
  | .escaped inside, token, marked, a :: rest =>
      if inside then
        let kept := if a ≠ alphabet.escape ∧ a ≠ alphabet.double then [alphabet.escape, a] else [a]
        scan (.quoted alphabet.double) (token ++ kept) marked rest
      else scan .word (token ++ [a]) marked rest

/-- `shlex.split`. -/
def split (line : List α) : Option (List (List α)) :=
  scan alphabet .between [] false line

/-! ## Words on a line -/

variable {alphabet}

/-- A symbol that stands for itself outside quotes. -/
def IsPlain (alphabet : Alphabet α) (a : α) : Prop :=
  alphabet.blank a = false ∧ a ≠ alphabet.single ∧ a ≠ alphabet.double ∧ a ≠ alphabet.escape

/-- A way to write a word on a line. -/
inductive Writes (alphabet : Alphabet α) : List α → List α → Prop
  | plain {word : List α} (hne : word ≠ []) (hplain : ∀ a ∈ word, IsPlain alphabet a) :
      Writes alphabet word word
  | quoted (word : List α) : Writes alphabet word (quote alphabet word)

theorem scan_word_plain {a : α} (ha : IsPlain alphabet a) (token : List α) (marked : Bool)
    (rest : List α) :
    scan alphabet .word token marked (a :: rest) = scan alphabet .word (token ++ [a]) marked rest := by
  obtain ⟨hblank, hsingle, hdouble, hescape⟩ := ha
  rw [scan, hblank, if_neg Bool.false_ne_true, if_neg (not_or.mpr ⟨hsingle, hdouble⟩),
    if_neg hescape]

theorem scan_between_plain {a : α} (ha : IsPlain alphabet a) (token : List α) (marked : Bool)
    (rest : List α) :
    scan alphabet .between token marked (a :: rest) = scan alphabet .word [a] false rest := by
  obtain ⟨hblank, hsingle, hdouble, hescape⟩ := ha
  rw [scan, hblank, if_neg Bool.false_ne_true, if_neg hescape,
    if_neg (not_or.mpr ⟨hsingle, hdouble⟩)]

theorem scan_word_all_plain {word : List α} (hplain : ∀ a ∈ word, IsPlain alphabet a)
    (token : List α) (marked : Bool) (rest : List α) :
    scan alphabet .word token marked (word ++ rest) =
      scan alphabet .word (token ++ word) marked rest := by
  induction word generalizing token with
  | nil => rw [List.nil_append, List.append_nil]
  | cons a word ih =>
      obtain ⟨ha, hword⟩ := List.forall_mem_cons.mp hplain
      rw [List.cons_append, scan_word_plain ha, ih hword, List.append_assoc]
      rfl

/-- A mark outside quotes opens them. -/
theorem scan_word_mark {a : α} (ha : a = alphabet.single ∨ a = alphabet.double) (token : List α)
    (marked : Bool) (rest : List α) :
    scan alphabet .word token marked (a :: rest) = scan alphabet (.quoted a) token true rest := by
  have hblank : alphabet.blank a = false := by
    rcases ha with rfl | rfl
    · exact alphabet.blank_mark.1
    · exact alphabet.blank_mark.2.1
  rw [scan, hblank, if_neg Bool.false_ne_true, if_pos ha]

theorem scan_quoted_mark (a : α) (token : List α) (marked : Bool) (rest : List α) :
    scan alphabet (.quoted a) token marked (a :: rest) = scan alphabet .word token marked rest := by
  rw [scan, if_pos rfl]

/-- A quoted symbol within single quotes stands for the symbol. -/
theorem scan_quoteSymbol (a : α) (token rest : List α) :
    scan alphabet (.quoted alphabet.single) token true (quoteSymbol alphabet a ++ rest) =
      scan alphabet (.quoted alphabet.single) (token ++ [a]) true rest := by
  unfold quoteSymbol
  split_ifs with ha
  · have hinner : ¬ (alphabet.single = alphabet.escape ∧ alphabet.double = alphabet.double) :=
      fun h => alphabet.single_ne_escape h.1
    rw [List.cons_append, scan_quoted_mark, List.cons_append, scan_word_mark (Or.inr rfl),
      List.cons_append, scan, if_neg alphabet.single_ne_double, if_neg hinner, List.cons_append,
      scan_quoted_mark, List.cons_append, scan_word_mark (Or.inl rfl), ha]
    rfl
  · have hinner : ¬ (a = alphabet.escape ∧ alphabet.single = alphabet.double) :=
      fun h => alphabet.single_ne_double h.2
    rw [List.cons_append, List.nil_append, scan, if_neg ha, if_neg hinner]

theorem scan_quoteSymbols (word token rest : List α) :
    scan alphabet (.quoted alphabet.single) token true
        (word.flatMap (quoteSymbol alphabet) ++ rest) =
      scan alphabet (.quoted alphabet.single) (token ++ word) true rest := by
  induction word generalizing token with
  | nil => rw [List.flatMap_nil, List.nil_append, List.append_nil]
  | cons a word ih =>
      rw [List.flatMap_cons, List.append_assoc, scan_quoteSymbol, ih, List.append_assoc]
      rfl

/-- A written word is read as itself, whatever follows it. -/
theorem scan_writes {word text : List α} (h : Writes alphabet word text) (rest : List α) :
    ∃ marked, (word ≠ [] ∨ marked = true) ∧
      scan alphabet .between [] false (text ++ rest) = scan alphabet .word word marked rest := by
  have hplain : ∀ word : List α, word ≠ [] → (∀ a ∈ word, IsPlain alphabet a) →
      scan alphabet .between [] false (word ++ rest) = scan alphabet .word word false rest := by
    intro word hne hplain
    obtain ⟨a, more, rfl⟩ := List.exists_cons_of_ne_nil hne
    obtain ⟨ha, hmore⟩ := List.forall_mem_cons.mp hplain
    rw [List.cons_append, scan_between_plain ha, scan_word_all_plain hmore]
    rfl
  cases h with
  | plain hne hword => exact ⟨false, Or.inl hne, hplain word hne hword⟩
  | quoted =>
      unfold quote
      split_ifs with hsafe
      · refine ⟨false, Or.inl hsafe.1, hplain word hsafe.1 fun a ha => ?_⟩
        exact alphabet.safe_plain a (List.all_eq_true.mp hsafe.2 a ha)
      · refine ⟨true, Or.inr rfl, ?_⟩
        rw [List.append_assoc, List.cons_append, scan, alphabet.blank_mark.1,
          if_neg Bool.false_ne_true, if_neg alphabet.single_ne_escape, if_pos (Or.inl rfl),
          scan_quoteSymbols, List.cons_append, scan_quoted_mark]
        rfl

/-- A line of words, with one blank between two of them, is split into the words. -/
theorem split_line {blank : α} (hblank : alphabet.blank blank = true)
    {words texts : List (List α)} (h : List.Forall₂ (Writes alphabet) words texts) :
    split alphabet ([blank].intercalate texts) = some words := by
  induction h with
  | nil => rfl
  | @cons word text words texts hword hrest ih =>
      cases hrest with
      | nil =>
          obtain ⟨marked, hmarked, hscan⟩ := scan_writes hword []
          rw [List.intercalate_singleton, split, ← List.append_nil text, hscan, scan, if_pos hmarked]
      | @cons word' text' words texts hword' hrest =>
          obtain ⟨marked, hmarked, hscan⟩ := scan_writes hword
            (blank :: [blank].intercalate (text' :: texts))
          have hline : [blank].intercalate (text :: text' :: texts) =
              text ++ blank :: [blank].intercalate (text' :: texts) := by simp
          rw [hline, split, hscan, scan, if_pos hblank, if_pos hmarked]
          rw [split] at ih
          rw [ih]
          rfl

end ShellWords
end Foundation
