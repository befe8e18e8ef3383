import Nauro.Sync.Headings
import Nauro.Foundation.LossyUtf8

/-!
# One decision file and the reads of its heading

The heading of a decision file is read off the cached text when the text is there, and
streamed off the disk otherwise. The two reads cut lines differently.

* `cached_eq_streamed_iff` — exactly when the two reads agree.
-/

namespace Nauro
namespace Sync

open Foundation Core

/-- `read_text_lenient`: universal newlines, every undecodable byte replaced. -/
def readTextLenient (bytes : List UInt8) : Text :=
  universalNewlines (LossyUtf8.decode bytes)

/-- The lines of a file in text mode, each with its newline. -/
def fileLines (text : Text) : List Text :=
  LineCuts.cutAfter (fun c _ => c == '\n') text

/-- The heading number found by scanning the lines of a file. -/
def streamedHeading (bytes : List UInt8) : Except DigitLimit (Option Nat) :=
  firstHeadingNumber ((fileLines (readTextLenient bytes)).map (·.rdropWhile (· == '\n')))

/-- A decision file with the reads it has needed so far. -/
structure DecisionFile where
  name : Text
  number : Nat
  /-- `_text` -/
  cached : Option Text
  /-- `_heading`, once it is known. -/
  heading : Option (Option Nat)
deriving DecidableEq

/-- A file of which nothing has been read. -/
def DecisionFile.unread (name : Text) (number : Nat) : DecisionFile :=
  ⟨name, number, none, none⟩

/-- `DecisionFile.text`; `none` on disk is a file that cannot be read. -/
def DecisionFile.text (file : DecisionFile) (disk : Option (List UInt8)) :
    Option Text × DecisionFile :=
  match file.cached with
  | some text => (some text, file)
  | none =>
      match disk with
      | none => (none, file)
      | some bytes =>
          (some (readTextLenient bytes), { file with cached := some (readTextLenient bytes) })

/-- `DecisionFile.heading_number`. -/
def DecisionFile.headingNumber (file : DecisionFile) (disk : Option (List UInt8)) :
    Except DigitLimit (Option Nat) × DecisionFile :=
  match file.heading with
  | some heading => (.ok heading, file)
  | none =>
      let found :=
        match file.cached, disk with
        | some text, _ => Sync.headingNumber text
        | none, some bytes => streamedHeading bytes
        | none, none => .ok none
      -- the heading counts as known before `int` can refuse it
      (found, { file with heading := some (found.toOption.getD none) })

/-! ## What only the cached read sees -/

/-- The parts of a line behind a line end that is no newline. -/
def hiddenParts (line : Text) : List Text :=
  (splitlinesKeepEnds line).tail

/-- The hidden parts of the lines ahead of the first line that claims a number. -/
def hiddenAhead (text : Text) : List Text :=
  ((fileLines text).takeWhile fun line => !claims line).flatMap hiddenParts

/-- A hidden part ahead of the heading claims no number, or the first one claims that of the
first line that claims one. -/
def HiddenAgrees (text : Text) : Prop :=
  ∀ part, (hiddenAhead text).find? claims = some part →
    ∃ line, (fileLines text).find? claims = some line ∧
      headingLineNumber part = headingLineNumber line

/-! ## The two reads -/

theorem streamedHeading_eq_find (bytes : List UInt8) :
    streamedHeading bytes =
      (((fileLines (readTextLenient bytes)).find? claims).map headingLineNumber).getD (.ok none) := by
  have hnumber : headingLineNumber ∘ (fun line : Text => line.rdropWhile (· == '\n')) =
      headingLineNumber := by
    funext line
    have hmore : ∀ c ∈ (line.rtakeWhile (· == '\n')).head?, isLineBreak c = true := by
      intro c hc
      have hnewline := List.mem_rtakeWhile_imp (List.mem_of_mem_head? hc)
      rw [beq_iff_eq.mp hnewline]
      decide
    show headingLineNumber (line.rdropWhile (· == '\n')) = headingLineNumber line
    rw [← headingLineNumber_append hmore, List.rdropWhile_append_rtakeWhile]
  have hclaims : claims ∘ (fun line : Text => line.rdropWhile (· == '\n')) = claims :=
    funext fun line => claims_congr (congrFun hnumber line)
  rw [streamedHeading, firstHeadingNumber_eq_find, List.find?_map, hclaims, Option.map_map, hnumber]

/-- Every newline ends a line for both reads. -/
theorem splitlinesKeepEnds_eq (text : Text) :
    splitlinesKeepEnds text = (fileLines text).flatMap splitlinesKeepEnds := by
  refine LineCuts.cutAfter_refine (fun c next hc => ?_) text
  rw [beq_iff_eq] at hc
  subst hc
  exact fun _ => rfl

/-- The first claim of the finer lines is a hidden one, or else that of the first line. -/
theorem find_flatMap_cut {lines : List Text} (hne : ∀ line ∈ lines, line ≠ []) :
    (((lines.flatMap splitlinesKeepEnds).find? claims).map headingLineNumber) =
      ((((lines.takeWhile fun line => !claims line).flatMap hiddenParts).find? claims).map
        headingLineNumber).or ((lines.find? claims).map headingLineNumber) := by
  induction lines with
  | nil => rfl
  | cons line rest ih =>
      obtain ⟨first, others, hcut⟩ := List.exists_cons_of_ne_nil
        (mt LineCuts.cutAfter_eq_nil.mp (hne line (List.mem_cons_self ..)))
      have hsame := headingLineNumber_of_cut hcut
      have hpieces : splitlinesKeepEnds line = first :: hiddenParts line := by
        rw [hiddenParts, splitlinesKeepEnds, hcut, List.tail_cons]
      rw [List.flatMap_cons, hpieces, List.cons_append]
      cases hclaims : claims line with
      | true =>
          rw [List.find?_cons_of_pos (claims_congr hsame ▸ hclaims),
            List.takeWhile_cons_of_neg (by simp [hclaims]), List.find?_cons_of_pos hclaims,
            Option.map_some, hsame]
          rfl
      | false =>
          have hfirst : ¬ claims first = true := by
            rw [claims_congr hsame, hclaims]
            exact Bool.false_ne_true
          rw [List.find?_cons_of_neg hfirst, List.takeWhile_cons_of_pos (by simp [hclaims]),
            List.flatMap_cons, List.find?_append, List.find?_append,
            List.find?_cons_of_neg (by simp [hclaims])]
          have hrest := ih fun l hl => hne l (List.mem_cons_of_mem _ hl)
          cases (hiddenParts line).find? claims with
          | some part => rfl
          | none => rw [Option.none_or, Option.none_or, hrest]

theorem headingNumber_eq_hidden (text : Text) :
    headingNumber text =
      ((((hiddenAhead text).find? claims).map headingLineNumber).or
        (((fileLines text).find? claims).map headingLineNumber)).getD (.ok none) := by
  rw [headingNumber_eq_find, splitlinesKeepEnds_eq, find_flatMap_cut, hiddenAhead]
  exact fun line hline => LineCuts.ne_nil_of_mem_cutAfter hline

theorem headingNumber_eq_streamed_iff (bytes : List UInt8) :
    headingNumber (readTextLenient bytes) = streamedHeading bytes ↔
      HiddenAgrees (readTextLenient bytes) := by
  rw [headingNumber_eq_hidden, streamedHeading_eq_find, HiddenAgrees]
  cases hhidden : (hiddenAhead (readTextLenient bytes)).find? claims with
  | none => simp
  | some part =>
      have hpart := List.find?_some hhidden
      cases hline : (fileLines (readTextLenient bytes)).find? claims with
      | some line => simp
      | none =>
          simp only [Option.map_some, Option.map_none, Option.or_none, Option.getD_some,
            Option.getD_none, Option.some.injEq, forall_eq', reduceCtorEq, false_and, exists_false,
            iff_false]
          rw [← claims_eq_false_iff, hpart, Bool.true_eq_false]
          exact not_false

/-- The cached and the streamed read agree exactly when no claim is hidden ahead of the heading,
or the first hidden one is the heading's own. -/
theorem cached_eq_streamed_iff (name : Text) (number : Nat) (bytes : List UInt8) :
    let fresh := DecisionFile.unread name number
    ((fresh.text (some bytes)).2.headingNumber (some bytes)).1 =
        (fresh.headingNumber (some bytes)).1 ↔
      HiddenAgrees (readTextLenient bytes) :=
  headingNumber_eq_streamed_iff bytes

/-- A heading behind a form feed. -/
def formFeedFile : List UInt8 :=
  EscapedUtf8.utf8 "see\x0c# 007 — t\n".toList

/-- Behind a form feed, only the cached read finds the heading. -/
theorem form_feed_hides_heading :
    let fresh := DecisionFile.unread "007-t.md".toList 7
    let cached := ((fresh.text (some formFeedFile)).2.headingNumber (some formFeedFile)).1
    let streamed := (fresh.headingNumber (some formFeedFile)).1
    cached = .ok (some 7) ∧ streamed = .ok none ∧ cached ≠ streamed := by
  have hread : readTextLenient formFeedFile = "see\x0c# 007 — t\n".toList := by
    rw [readTextLenient, formFeedFile, LossyUtf8.decode_utf8]
    decide
  have hcached : headingNumber (readTextLenient formFeedFile) = .ok (some 7) := by
    rw [hread]
    decide
  have hstreamed : streamedHeading formFeedFile = .ok none := by
    rw [streamedHeading, hread]
    decide
  refine ⟨hcached, hstreamed, fun hsame => ?_⟩
  have hclash : (.ok (some 7) : Except DigitLimit (Option Nat)) = .ok none :=
    hcached.symm.trans (hsame.trans hstreamed)
  cases hclash

end Sync
end Nauro
