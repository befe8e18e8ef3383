import Nauro.Core.Frontmatter

/-!
# A YAML library for plain frontmatter

An executable instance of the YAML parameter for mappings without passed-through values. Words,
numbers, dates, nulls and the empty list are dumped bare, one key to a line; any other text is
double-quoted.

* `plainYaml_lawful` — its dumps load as themselves.
-/

namespace Nauro
namespace Core
namespace PlainYaml

open Foundation

/-! ## Quoted texts -/

def escape (c : Char) : Text :=
  if c = '"' then ['\\', '"']
  else if c = '\\' then ['\\', '\\']
  else if c = '\n' then ['\\', 'n']
  else if c = '\r' then ['\\', 'r']
  else [c]

def unescape (c : Char) : Char :=
  if c = 'n' then '\n' else if c = 'r' then '\r' else c

def quote (text : Text) : Text :=
  '"' :: (text.flatMap escape ++ ['"'])

/-- The text up to the closing quote, and what follows the quote. -/
def unquote : Text → Option (Text × Text)
  | [] => none
  | '"' :: rest => some ([], rest)
  | '\\' :: c :: rest => (unquote rest).map fun (text, after) => (unescape c :: text, after)
  | c :: rest => (unquote rest).map fun (text, after) => (c :: text, after)

theorem unquote_escape (c : Char) (rest : Text) :
    unquote (escape c ++ rest) = (unquote rest).map fun (text, after) => (c :: text, after) := by
  unfold escape
  by_cases hquote : c = '"'
  · simp [hquote, unquote, unescape]
  · by_cases hslash : c = '\\'
    · simp [hslash, unquote, unescape]
    · by_cases hnewline : c = '\n'
      · simp [hnewline, unquote, unescape]
      · by_cases hreturn : c = '\r'
        · simp [hreturn, unquote, unescape]
        · simp [hquote, hslash, hnewline, hreturn, unquote]

theorem unquote_quoted (text rest : Text) :
    unquote (text.flatMap escape ++ '"' :: rest) = some (text, rest) := by
  induction text with
  | nil => rfl
  | cons c text ih => rw [List.flatMap_cons, List.append_assoc, unquote_escape, ih, Option.map_some]

/-- A character that never breaks a line. -/
def OneLine (text : Text) : Prop :=
  '\n' ∉ text ∧ '\r' ∉ text

theorem oneLine_append {front back : Text} (hfront : OneLine front) (hback : OneLine back) :
    OneLine (front ++ back) := by
  simp [OneLine] at *
  tauto

theorem oneLine_quote (text : Text) : OneLine (quote text) := by
  have hescape : ∀ c, OneLine (escape c) := by
    intro c
    unfold escape OneLine
    split
    · decide
    · split
      · decide
      · split
        · decide
        · split
          · decide
          · next hnewline hreturn => simp [Ne.symm hnewline, Ne.symm hreturn]
  constructor
  · simp only [quote, List.mem_cons, List.mem_append, List.mem_flatMap]
    rintro (h | ⟨c, -, hc⟩ | h)
    · exact absurd h (by decide)
    · exact (hescape c).1 hc
    · simp at h
  · simp only [quote, List.mem_cons, List.mem_append, List.mem_flatMap]
    rintro (h | ⟨c, -, hc⟩ | h)
    · exact absurd h (by decide)
    · exact (hescape c).2 hc
    · simp at h

/-! ## Scalars -/

/-- A text that stands bare: lower-case letters and underscores, and not the null. -/
def isWord (text : Text) : Bool :=
  text.head?.any (fun c => c.isLower || c == '_') &&
    text.all (fun c => c.isLower || c == '_') && text != "null".toList

def encodeText (text : Text) : Text :=
  if isWord text then text else quote text

def encodeInt (n : Int) : Text :=
  if n < 0 then '-' :: Nat.toDigits 10 n.natAbs else Nat.toDigits 10 n.natAbs

def encodeTexts (texts : List Text) : Text :=
  '[' :: (texts.flatMap (fun t => quote t ++ [',']) ++ [']'])

def encodeValue : YamlValue Empty → Text
  | .null => "null".toList
  | .int n => encodeInt n
  | .text t => encodeText t
  | .date d => d.isoformat
  | .texts ts => encodeTexts ts
  | .other e => nomatch e

/-- The quoted items of a list, each with a comma. -/
def decodeItems : Nat → Text → Option (List Text)
  | 0, _ => none
  | fuel + 1, text =>
      match text with
      | [']'] => some []
      | '"' :: rest =>
          match unquote rest with
          | some (item, ',' :: after) => (decodeItems fuel after).map (item :: ·)
          | _ => none
      | _ => none

def dateOf? (year month day : Nat) : Option Date :=
  if h : isCalendarDate year month day = true then some ⟨year, month, day, h⟩ else none

/-- A bare number or date: digits, with a sign or with two dashes. -/
def decodeNumber (text : Text) : Option (YamlValue Empty) :=
  match text.splitOn '-' with
  | [digits] => (number? digits).map fun n : Nat => .int n
  | [[], digits] => (number? digits).map fun n : Nat => .int (-n)
  | [year, month, day] =>
      match number? year, number? month, number? day with
      | some y, some m, some d => (dateOf? y m d).map .date
      | _, _, _ => none
  | _ => none

def decodeValue (text : Text) : Option (YamlValue Empty) :=
  match text with
  | '"' :: rest =>
      match unquote rest with
      | some (t, []) => some (.text t)
      | _ => none
  | '[' :: rest => (decodeItems (rest.length + 1) rest).map .texts
  | _ =>
      if text = "null".toList then some .null
      else if isWord text then some (.text text)
      else decodeNumber text

theorem dash_notMem_toDigits (n : Nat) : '-' ∉ Nat.toDigits 10 n := by
  intro h
  exact absurd (Nat.isDigit_of_mem_toDigits (by decide) (by decide) h) (by decide)

theorem dash_notMem_padNumber (width n : Nat) : '-' ∉ padNumber width n := by
  intro h
  exact absurd (isDigit_of_mem_padNumber h) (by decide)

theorem decodeNumber_encodeInt (n : Int) : decodeNumber (encodeInt n) = some (.int n) := by
  by_cases hneg : n < 0
  · have hsplit : (encodeInt n).splitOn '-' = [[], Nat.toDigits 10 n.natAbs] := by
      rw [encodeInt, if_pos hneg, LineText.splitOn_cons_sep,
        List.splitOn_eq_singleton (dash_notMem_toDigits _)]
    have habs : -(n.natAbs : Int) = n := by omega
    rw [decodeNumber, hsplit]
    simp only [number?_toDigits, Option.map_some, habs]
  · have hsplit : (encodeInt n).splitOn '-' = [Nat.toDigits 10 n.natAbs] := by
      rw [encodeInt, if_neg hneg, List.splitOn_eq_singleton (dash_notMem_toDigits _)]
    have habs : (n.natAbs : Int) = n := by omega
    rw [decodeNumber, hsplit]
    simp only [number?_toDigits, Option.map_some, habs]

theorem decodeNumber_isoformat (d : Date) : decodeNumber d.isoformat = some (.date d) := by
  have hsplit : d.isoformat.splitOn '-' =
      [padNumber 4 d.year, padNumber 2 d.month, padNumber 2 d.day] := by
    rw [Date.isoformat, List.append_assoc, List.append_assoc, List.append_assoc,
      List.singleton_append, LineText.splitOn_append_sep, List.singleton_append,
      LineText.splitOn_append_sep, List.splitOn_eq_singleton (dash_notMem_padNumber _ _),
      List.splitOn_eq_singleton (dash_notMem_padNumber _ _),
      List.splitOn_eq_singleton (dash_notMem_padNumber _ _)]
    rfl
  unfold decodeNumber
  rw [hsplit]
  simp [number?_padNumber, dateOf?, d.valid]

theorem decodeItems_encoded (texts : List Text) {fuel : Nat} (hfuel : texts.length < fuel) :
    decodeItems fuel (texts.flatMap (fun t => quote t ++ [',']) ++ [']']) = some texts := by
  induction texts generalizing fuel with
  | nil =>
      obtain ⟨more, rfl⟩ := Nat.exists_eq_succ_of_ne_zero (Nat.ne_zero_of_lt hfuel)
      rfl
  | cons t texts ih =>
      obtain ⟨more, rfl⟩ := Nat.exists_eq_succ_of_ne_zero (Nat.ne_zero_of_lt hfuel)
      have hshape : (t :: texts).flatMap (fun t => quote t ++ [',']) ++ [']'] =
          '"' :: (t.flatMap escape ++ '"' :: ',' ::
            (texts.flatMap (fun t => quote t ++ [',']) ++ [']'])) := by
        simp [quote]
      rw [hshape, decodeItems, unquote_quoted]
      simp only [ih (Nat.lt_of_succ_lt_succ hfuel), Option.map_some]

/-- The first character of a bare number is a digit or a sign. -/
theorem decodeValue_number {text : Text} (hne : text ≠ [])
    (hhead : ∀ c ∈ text.head?, c.isDigit = true ∨ c = '-') :
    decodeValue text = decodeNumber text := by
  obtain ⟨c, rest, rfl⟩ := List.exists_cons_of_ne_nil hne
  have hc := hhead c rfl
  have hquote : c ≠ '"' := by
    rintro rfl
    revert hc
    decide
  have hbracket : c ≠ '[' := by
    rintro rfl
    revert hc
    decide
  have hnull : c :: rest ≠ "null".toList := by
    intro h
    have : c = 'n' := (List.cons.inj h).1
    subst this
    revert hc
    decide
  have hword : isWord (c :: rest) = false := by
    have hlower : (c.isLower || c == '_') = false := by
      rcases hc with hdigit | rfl
      · have hnat : 48 ≤ c.toNat ∧ c.toNat ≤ 57 := by
          simpa [Char.isDigit, UInt32.le_iff_toNat_le] using hdigit
        have hval : c.val.toNat = c.toNat := rfl
        delta Char.isLower
        simp only [Bool.or_eq_false_iff, beq_eq_false_iff_ne, Bool.and_eq_false_iff,
          decide_eq_false_iff_not, ge_iff_le, UInt32.le_iff_toNat_le]
        refine ⟨Or.inl ?_, ?_⟩
        · have ha : 'a'.val.toNat = 97 := rfl
          omega
        · rintro rfl
          exact absurd hdigit (by decide)
      · decide
    simp [isWord, hlower]
  unfold decodeValue
  split
  · next h => exact absurd (List.cons.inj h).1 hquote
  · next h => exact absurd (List.cons.inj h).1 hbracket
  · rw [if_neg hnull, hword]
    rfl

theorem decodeValue_word {text : Text} (hword : isWord text = true) :
    decodeValue text = some (.text text) := by
  have hparts := hword
  simp only [isWord, Bool.and_eq_true, bne_iff_ne] at hparts
  obtain ⟨⟨hhead, -⟩, hnull⟩ := hparts
  unfold decodeValue
  split
  · exact absurd hhead (by simp)
  · exact absurd hhead (by simp)
  · rw [if_neg hnull, if_pos hword]

theorem decodeValue_encodeValue (v : YamlValue Empty) : decodeValue (encodeValue v) = some v := by
  cases v with
  | null => decide
  | int n =>
      have hdigits : ∀ c ∈ (Nat.toDigits 10 n.natAbs).head?, c.isDigit = true := fun c hc =>
        Nat.isDigit_of_mem_toDigits (by decide) (by decide) (List.mem_of_mem_head? hc)
      rw [encodeValue, decodeValue_number, decodeNumber_encodeInt]
      · unfold encodeInt
        split
        · simp
        · exact Nat.toDigits_ne_nil
      · unfold encodeInt
        split
        · intro c hc
          cases hc
          exact Or.inr rfl
        · exact fun c hc => Or.inl (hdigits c hc)
  | text t =>
      rw [encodeValue, encodeText]
      split
      · next hword => exact decodeValue_word hword
      · simp [quote, decodeValue, unquote_quoted]
  | date d =>
      rw [encodeValue, decodeValue_number, decodeNumber_isoformat]
      · simp [Date.isoformat]
      · intro c hc
        have hmem : c ∈ padNumber 4 d.year := by
          obtain ⟨first, rest, hcons⟩ := List.exists_cons_of_ne_nil (padNumber_ne_nil 4 d.year)
          simp only [Date.isoformat, hcons, List.cons_append, List.head?_cons, Option.mem_def,
            Option.some.injEq] at hc
          rw [hcons, hc]
          exact List.mem_cons_self ..
        exact Or.inl (isDigit_of_mem_padNumber hmem)
  | texts ts =>
      rw [encodeValue, encodeTexts, decodeValue, decodeItems_encoded]
      · rfl
      · have hlength : ts.length ≤ (ts.flatMap fun t => quote t ++ [',']).length := by
          induction ts with
          | nil => simp
          | cons t ts ih =>
              rw [List.flatMap_cons, List.length_append, List.length_cons]
              simp only [List.length_append, List.length_singleton]
              omega
        simp only [List.length_append]
        omega
  | other e => exact nomatch e

theorem oneLine_word {text : Text} (hword : isWord text = true) : OneLine text ∧ ':' ∉ text := by
  simp only [isWord, Bool.and_eq_true, List.all_eq_true] at hword
  obtain ⟨⟨-, hall⟩, -⟩ := hword
  refine ⟨⟨?_, ?_⟩, ?_⟩
  · exact fun h => absurd (hall _ h) (by decide)
  · exact fun h => absurd (hall _ h) (by decide)
  · exact fun h => absurd (hall _ h) (by decide)

theorem oneLine_encodeText (text : Text) : OneLine (encodeText text) := by
  unfold encodeText
  split
  · next hword => exact (oneLine_word hword).1
  · exact oneLine_quote text

theorem oneLine_of_digits {text : Text} (h : ∀ c ∈ text, c.isDigit = true) : OneLine text :=
  ⟨fun hin => absurd (h _ hin) (by decide), fun hin => absurd (h _ hin) (by decide)⟩

theorem oneLine_encodeValue (v : YamlValue Empty) : OneLine (encodeValue v) := by
  have hdash : OneLine ['-'] := by unfold OneLine; decide
  cases v with
  | null => unfold encodeValue OneLine; decide
  | int n =>
      have hdigits : OneLine (Nat.toDigits 10 n.natAbs) :=
        oneLine_of_digits fun c hc => Nat.isDigit_of_mem_toDigits (by decide) (by decide) hc
      rw [encodeValue, encodeInt]
      split
      · exact oneLine_append hdash hdigits
      · exact hdigits
  | text t => exact oneLine_encodeText t
  | date d =>
      have hnumber : ∀ width n, OneLine (padNumber width n) := fun width n =>
        oneLine_of_digits fun c hc => isDigit_of_mem_padNumber hc
      exact oneLine_append (oneLine_append (oneLine_append (oneLine_append (hnumber _ _) hdash)
        (hnumber _ _)) hdash) (hnumber _ _)
  | texts ts =>
      have hitems : OneLine (ts.flatMap fun t => quote t ++ [',']) := by
        induction ts with
        | nil => unfold OneLine; decide
        | cons t ts ih =>
            rw [List.flatMap_cons]
            exact oneLine_append (oneLine_append (oneLine_quote t) (by unfold OneLine; decide)) ih
      have hopen : OneLine ['['] := by unfold OneLine; decide
      exact oneLine_append hopen (oneLine_append hitems (by unfold OneLine; decide))
  | other e => exact nomatch e

/-! ## Mappings -/

def encodeLine (entry : Text × YamlValue Empty) : Text :=
  encodeText entry.1 ++ ':' :: ' ' :: encodeValue entry.2

/-- The key of a line, and what follows it. -/
def decodeKey (line : Text) : Option (Text × Text) :=
  match line with
  | '"' :: rest => unquote rest
  | _ => some (line.takeWhile (· != ':'), line.dropWhile (· != ':'))

def decodeLine (line : Text) : Option (Text × YamlValue Empty) :=
  (decodeKey line).bind fun (key, rest) =>
    match rest with
    | ':' :: ' ' :: value => (decodeValue value).map fun v => (key, v)
    | _ => none

def dump (m : Frontmatter Empty) : Text :=
  if m.entries = [] then "{}\n".toList
  else m.entries.flatMap fun entry => encodeLine entry ++ ['\n']

def load (block : Text) : Loaded Empty :=
  if block = [] then .empty
  else if block = "{}".toList then .mapping ⟨[], List.nodup_nil⟩
  else
    match (splitLines block).mapM decodeLine with
    | none => .invalid
    | some entries =>
        if h : (entries.map Prod.fst).Nodup then .mapping ⟨entries, h⟩ else .invalid

theorem decodeKey_encodeLine (key rest : Text) :
    decodeKey (encodeText key ++ ':' :: rest) = some (key, ':' :: rest) := by
  unfold encodeText
  split
  · next hword =>
      have hcolon : ∀ c ∈ key, (c != ':') = true := by
        intro c hc
        rw [bne_iff_ne]
        rintro rfl
        exact (oneLine_word hword).2 hc
      have hhead : key.head?.any (fun c => c.isLower || c == '_') = true := by
        simp only [isWord, Bool.and_eq_true] at hword
        exact hword.1.1
      unfold decodeKey
      split
      · next heq =>
          cases key with
          | nil => cases hhead
          | cons c key =>
              have hc : c = '"' := (List.cons.inj heq).1
              subst hc
              exact absurd hhead (by simp)
      · rw [List.takeWhile_append_of_pos hcolon, List.dropWhile_append_of_pos hcolon]
        simp
  · simp [quote, decodeKey, unquote_quoted]

theorem decodeLine_encodeLine (entry : Text × YamlValue Empty) :
    decodeLine (encodeLine entry) = some entry := by
  rw [decodeLine, encodeLine, decodeKey_encodeLine]
  simp [decodeValue_encodeValue]

theorem oneLine_encodeLine (entry : Text × YamlValue Empty) : OneLine (encodeLine entry) := by
  have hcolon : OneLine [':', ' '] := by unfold OneLine; decide
  exact oneLine_append (oneLine_encodeText _) (oneLine_append hcolon (oneLine_encodeValue _))

theorem dump_eq {m : Frontmatter Empty} (hne : m.entries ≠ []) :
    dump m = joinLines (m.entries.map encodeLine) ++ ['\n'] := by
  rw [dump, if_neg hne]
  generalize m.entries = entries at hne
  induction entries with
  | nil => exact absurd rfl hne
  | cons entry entries ih =>
      cases entries with
      | nil => simp [joinLines]
      | cons second entries =>
          rw [List.flatMap_cons, ih (by simp)]
          simp [joinLines]

theorem splitLines_entries {m : Frontmatter Empty} (hne : m.entries ≠ []) :
    splitLines (joinLines (m.entries.map encodeLine)) = m.entries.map encodeLine := by
  apply List.splitOn_intercalate
  · intro line hline
    obtain ⟨entry, -, rfl⟩ := List.mem_map.mp hline
    exact (oneLine_encodeLine entry).1
  · simpa using hne

theorem mapM_decodeLine (entries : List (Text × YamlValue Empty)) :
    (entries.map encodeLine).mapM decodeLine = some entries := by
  induction entries with
  | nil => rfl
  | cons entry entries ih => simp [List.mapM_cons, decodeLine_encodeLine, ih]

theorem colon_mem_encodeLine (entry : Text × YamlValue Empty) : ':' ∈ encodeLine entry := by
  simp [encodeLine]

theorem load_entries {m : Frontmatter Empty} (hne : m.entries ≠ []) :
    load (joinLines (m.entries.map encodeLine)) = .mapping m := by
  obtain ⟨entry, rest, hcons⟩ := List.exists_cons_of_ne_nil hne
  have hcolon : ':' ∈ joinLines (m.entries.map encodeLine) := by
    have hline : encodeLine entry ∈ splitLines (joinLines (m.entries.map encodeLine)) := by
      rw [splitLines_entries hne, hcons]
      simp
    by_contra hnot
    refine absurd (colon_mem_encodeLine entry) fun hin => hnot ?_
    rw [hcons, List.map_cons]
    cases hrest : rest.map encodeLine with
    | nil => simpa [joinLines] using hin
    | cons second others => simp [joinLines, hin]
  have hnil : joinLines (m.entries.map encodeLine) ≠ [] := List.ne_nil_of_mem hcolon
  have hbraces : joinLines (m.entries.map encodeLine) ≠ "{}".toList := by
    intro h
    rw [h] at hcolon
    exact absurd hcolon (by decide)
  rw [load, if_neg hnil, if_neg hbraces, splitLines_entries hne, mapM_decodeLine]
  simp only [m.distinct, dif_pos]

theorem load_dump {m : Frontmatter Empty} {block : Text} (h : dump m = block ++ ['\n']) :
    load block = .mapping m := by
  by_cases hempty : m.entries = []
  · rw [dump, if_pos hempty] at h
    have hblock : block = "{}".toList := (List.append_inj' h.symm rfl).1
    rw [hblock]
    cases m
    cases hempty
    rfl
  · rw [dump_eq hempty] at h
    rw [← (List.append_inj' h rfl).1]
    exact load_entries hempty

theorem fence_notMem_dump (m : Frontmatter Empty) : fence ∉ splitLines (dump m) := by
  by_cases hempty : m.entries = []
  · rw [dump, if_pos hempty]
    decide
  · rw [dump_eq hempty]
    intro hin
    change fence ∈ (joinLines (m.entries.map encodeLine) ++ '\n' :: []).splitOn '\n' at hin
    rw [LineText.splitOn_append_sep] at hin
    rcases List.mem_append.mp hin with hline | hblank
    · rw [show (joinLines (m.entries.map encodeLine)).splitOn '\n' = _ from
        splitLines_entries hempty] at hline
      obtain ⟨entry, -, hentry⟩ := List.mem_map.mp hline
      have hcolon := colon_mem_encodeLine entry
      rw [hentry] at hcolon
      exact absurd hcolon (by decide)
    · rw [List.splitOn_nil, List.mem_singleton] at hblank
      exact absurd hblank (by decide)

theorem cr_notMem_dump (m : Frontmatter Empty) : '\r' ∉ dump m := by
  unfold dump
  split
  · decide
  · intro hin
    obtain ⟨entry, -, hentry⟩ := List.mem_flatMap.mp hin
    rcases List.mem_append.mp hentry with hline | hend
    · exact (oneLine_encodeLine entry).2 hline
    · exact absurd hend (by decide)

end PlainYaml

open PlainYaml in
/-- The library; a value is read as a field's type only when it has that type. -/
def plainYaml : Yaml Empty where
  fastLoad := load
  pureLoad := load
  dump := dump
  asDate
    | .date d => some d
    | _ => none
  asInt
    | .int n => some n
    | _ => none
  asText
    | .text t => some t
    | _ => none
  asTexts
    | .texts ts => some ts
    | _ => none
  serialises e := nomatch e

/-- What the library dumps loads as itself. -/
theorem plainYaml_lawful : plainYaml.Lawful where
  load_dump _ _ h := ⟨PlainYaml.load_dump h, PlainYaml.load_dump h⟩
  dump_newline m := by
    change ∃ block, PlainYaml.dump m = block ++ ['\n']
    by_cases hempty : m.entries = []
    · exact ⟨"{}".toList, by rw [PlainYaml.dump, if_pos hempty]; rfl⟩
    · exact ⟨_, PlainYaml.dump_eq hempty⟩
  dump_fence := PlainYaml.fence_notMem_dump
  dump_cr := PlainYaml.cr_notMem_dump
  asDate_date _ := rfl
  asInt_int _ := rfl
  asText_text _ := rfl
  asText_null := rfl
  asTexts_texts _ := rfl

end Core
end Nauro
