import Nauro.Core.Provenance
import Nauro.Foundation.Table

/-!
# YAML frontmatter

A decision file opens with a YAML block between two `---` fences. The YAML library and the
lax coercions of the model library are a parameter (`Yaml`); its laws are what the program
relies on (`Yaml.Lawful`).

* `splitFrontmatter_fenced` — a fenced block without a fence line inside splits back.
-/

namespace Nauro
namespace Core

open Foundation

/-! ## Values -/

/-- What the safe loader makes of a node; `other` is everything the program passes through. -/
inductive YamlValue (E : Type) where
  | null
  | int (n : Int)
  | text (t : Text)
  | date (d : Date)
  | texts (ts : List Text)
  | other (e : E)
deriving DecidableEq

/-- A mapping with text keys, in order. -/
abbrev Frontmatter (E : Type) :=
  Table Text (YamlValue E)

variable {E : Type}

/-- The outcome of `yaml.load` on one block. -/
inductive Loaded (E : Type) where
  /-- `yaml.YAMLError`. -/
  | invalid
  /-- Any other exception of the loader. -/
  | raised (isValueError : Bool)
  /-- An empty document, `None`. -/
  | empty
  | notMapping
  /-- A mapping with a key that is no text. -/
  | oddKeys
  | mapping (m : Frontmatter E)

/-- The YAML library, and how the model library reads a value as a field's type. -/
structure Yaml (E : Type) where
  fastLoad : Text → Loaded E
  pureLoad : Text → Loaded E
  /-- `yaml.safe_dump` of a mapping, in block style and in key order. -/
  dump : Frontmatter E → Text
  asDate : YamlValue E → Option Date
  asInt : YamlValue E → Option Int
  asText : YamlValue E → Option Text
  asTexts : YamlValue E → Option (List Text)
  /-- Whether a passed-through value can be dumped at all. -/
  serialises : E → Bool

def fence : Text := "---".toList

/-- What the program relies on. -/
structure Yaml.Lawful (yaml : Yaml E) : Prop where
  /-- A dumped mapping loads as itself with either loader. -/
  load_dump : ∀ m block, yaml.dump m = block ++ ['\n'] →
    yaml.fastLoad block = .mapping m ∧ yaml.pureLoad block = .mapping m
  /-- A dump ends its last line. -/
  dump_newline : ∀ m, ∃ block, yaml.dump m = block ++ ['\n']
  /-- No line of a dumped mapping is a document marker. -/
  dump_fence : ∀ m, fence ∉ splitLines (yaml.dump m)
  /-- A dump has no carriage return. -/
  dump_cr : ∀ m, '\r' ∉ yaml.dump m
  asDate_date : ∀ d, yaml.asDate (.date d) = some d
  asInt_int : ∀ n, yaml.asInt (.int n) = some n
  asText_text : ∀ t, yaml.asText (.text t) = some t
  asText_null : yaml.asText .null = none
  asTexts_texts : ∀ ts, yaml.asTexts (.texts ts) = some ts

/-! ## Loading a block -/

/-- `value.strip(chars)` leaves nothing: every character is one of the given kind. -/
def isPlainKeyChar (c : Char) : Bool :=
  c.isLower || c.isDigit || c == '_'

def isPlainValueChar (c : Char) : Bool :=
  c.isAlphanum || " -_./:~(),+".toList.contains c

/-- `_is_plain_value`. -/
def isPlainValue (value : Text) : Bool :=
  if value = [] ∨ value = "[]".toList then true
  else if value.head? = some '\'' then
    let inner := (value.drop 1).dropLast
    2 ≤ value.length && value.getLast? == some '\'' && !inner.contains '\'' &&
      (Trim.trim isPlainValueChar inner).isEmpty
  else if !(Trim.trim isPlainValueChar value).isEmpty then false
  else if value.head? = some ' ' ∨ value.getLast? = some ' ' ∨ value.getLast? = some ':' ∨
      containsText ": ".toList value then false
  else !(value.head? == some '-' && ((value.drop 1).head?.all (· == ' ')))

/-- Whether a line is a plain `key: value`, `key:` or `- item` line, or empty. -/
def isPlainLine (line : Text) : Bool :=
  if line = [] then true
  else if "- ".toList.isPrefixOf line then isPlainValue (line.drop 2)
  else
    let key := line.takeWhile (· != ':')
    let rest := line.drop (key.length + 1)
    line.contains ':' && !key.isEmpty && (Trim.trim isPlainKeyChar key).isEmpty &&
      (rest.isEmpty || (rest.head? == some ' ' && isPlainValue (rest.drop 1)))

/-- `_is_plain_block`. -/
def isPlainBlock (block : Text) : Bool :=
  (splitLines block).all isPlainLine

/-- `_load_frontmatter_mapping`: the fast loader where both loaders agree. -/
def loadFrontmatterMapping (yaml : Yaml E) (block : Text) : Loaded E :=
  if isPlainBlock block then yaml.fastLoad block else yaml.pureLoad block

theorem loadFrontmatterMapping_dump {yaml : Yaml E} (hlawful : yaml.Lawful) {m : Frontmatter E}
    {block : Text} (hdump : yaml.dump m = block ++ ['\n']) :
    loadFrontmatterMapping yaml block = .mapping m := by
  obtain ⟨hfast, hpure⟩ := hlawful.load_dump m block hdump
  unfold loadFrontmatterMapping
  split
  · exact hfast
  · exact hpure

/-! ## The fences -/

def openFence : Text := "---\n".toList
def closeFence : Text := "\n---\n".toList
def maxFrontmatterChars : Nat := 64 * 1024

/-- `text.partition(sep)` when the separator occurs. -/
def partitionAt? (sep : Text) : Text → Option (Text × Text)
  | [] => if sep = [] then some ([], []) else none
  | c :: rest =>
      if sep.isPrefixOf (c :: rest) then some ([], (c :: rest).drop sep.length)
      else (partitionAt? sep rest).map fun (front, back) => (c :: front, back)

/-- A text is split at an occurrence of the separator. -/
theorem eq_append_of_partitionAt? {sep text front back : Text}
    (h : partitionAt? sep text = some (front, back)) : text = front ++ sep ++ back := by
  induction text generalizing front with
  | nil =>
      rw [partitionAt?] at h
      split_ifs at h with hsep
      cases h
      simp [hsep]
  | cons c rest ih =>
      rw [partitionAt?] at h
      split_ifs at h with hstart
      · cases h
        obtain ⟨more, hmore⟩ := List.isPrefixOf_iff_prefix.mp hstart
        rw [← hmore, List.drop_left]
        simp
      · obtain ⟨⟨front', back'⟩, hrest, hpair⟩ := Option.map_eq_some_iff.mp h
        cases hpair
        rw [ih hrest]
        simp

inductive FrontmatterError where
  | missing
  | unterminated
  | tooLong
deriving DecidableEq

/-- `_split_frontmatter`: the text between the leading fence and the first close fence. -/
def splitFrontmatter (text : Text) : Except FrontmatterError (Text × Text) :=
  if !openFence.isPrefixOf text then .error .missing
  else
    match partitionAt? closeFence (text.drop openFence.length) with
    | none => .error .unterminated
    | some (block, body) =>
        if maxFrontmatterChars < block.length then .error .tooLong else .ok (block, body)

/-- The body of a decision text stands behind both fences. -/
theorem splitFrontmatter_body {text block body : Text}
    (h : splitFrontmatter text = .ok (block, body)) :
    text = openFence ++ (block ++ closeFence) ++ body := by
  rw [splitFrontmatter] at h
  split at h
  · cases h
  · next hopen =>
      simp only [Bool.not_eq_true', Bool.not_eq_false] at hopen
      obtain ⟨rest, rfl⟩ := List.isPrefixOf_iff_prefix.mp hopen
      rw [List.drop_left] at h
      split at h
      · cases h
      · next block' body' hparts =>
          split at h
          · cases h
          · cases h
            rw [eq_append_of_partitionAt? hparts]
            simp only [List.append_assoc]

/-- A text whose first line is not the fence does not start with a fence line. -/
theorem not_isPrefixOf_openFence {block : Text} (hblock : fence ∉ splitLines block) (rest : Text) :
    ¬ openFence.isPrefixOf (block ++ '\n' :: rest) = true := by
  rw [List.isPrefixOf_iff_prefix]
  intro hopen
  obtain ⟨more, hmore⟩ := hopen
  -- the first line of the text is read off both sides
  have hleft : splitLines (openFence ++ more) = fence :: splitLines more :=
    LineText.splitOn_append_sep fence more
  have hright : splitLines (block ++ '\n' :: rest) = splitLines block ++ splitLines rest :=
    LineText.splitOn_append_sep block rest
  obtain ⟨first, others, hfirst⟩ := List.exists_cons_of_ne_nil (List.splitOn_ne_nil '\n' block)
  rw [hmore, hright] at hleft
  change (block.splitOn '\n') ++ _ = _ at hleft
  rw [hfirst, List.cons_append] at hleft
  apply hblock
  change fence ∈ block.splitOn '\n'
  rw [hfirst, (List.cons.inj hleft).1]
  exact List.mem_cons_self ..

theorem splitLines_cons_mem {c : Char} {rest line : Text} (hc : c ≠ '\n')
    (hline : line ∈ (splitLines rest).drop 1) : line ∈ (splitLines (c :: rest)).drop 1 := by
  unfold splitLines at hline ⊢
  rw [LineText.splitOn_cons_of_ne hc]
  cases hlines : rest.splitOn '\n' with
  | nil => exact absurd hlines (List.splitOn_ne_nil '\n' rest)
  | cons first others =>
      rw [hlines] at hline
      exact hline

/-- The close fence after a block that has no fence line is the first one. -/
theorem partitionAt?_closeFence (block body : Text)
    (hblock : fence ∉ (splitLines block).drop 1) :
    partitionAt? closeFence (block ++ closeFence ++ body) = some (block, body) := by
  induction block with
  | nil => rfl
  | cons c block ih =>
      have hstep : ¬ closeFence.isPrefixOf (c :: (block ++ closeFence ++ body)) = true := by
        intro hmatch
        rw [show closeFence = '\n' :: openFence from rfl, List.isPrefixOf, Bool.and_eq_true,
          beq_iff_eq] at hmatch
        obtain ⟨rfl, hopen⟩ := hmatch
        have hlines : (splitLines ('\n' :: block)).drop 1 = splitLines block := by
          unfold splitLines
          rw [LineText.splitOn_cons_sep]
          rfl
        rw [hlines] at hblock
        apply not_isPrefixOf_openFence hblock (openFence ++ body)
        rw [List.append_assoc] at hopen
        exact hopen
      have hrest : fence ∉ (splitLines block).drop 1 := by
        by_cases hc : c = '\n'
        · subst hc
          intro hin
          apply hblock
          unfold splitLines
          rw [LineText.splitOn_cons_sep]
          exact List.mem_of_mem_drop hin
        · exact fun hin => hblock (splitLines_cons_mem hc hin)
      rw [List.cons_append, List.cons_append, partitionAt?, if_neg hstep, ih hrest]
      rfl

/-- A fenced dump splits back into its block and the body, when it is short enough. -/
theorem splitFrontmatter_fenced {yaml : Yaml E} (hlawful : yaml.Lawful) {m : Frontmatter E}
    {block : Text} (hdump : yaml.dump m = block ++ ['\n']) (body : Text) :
    splitFrontmatter (openFence ++ yaml.dump m ++ openFence ++ body) =
      if maxFrontmatterChars < block.length then .error .tooLong else .ok (block, body) := by
  have hfence : fence ∉ splitLines block := by
    intro hin
    apply hlawful.dump_fence m
    rw [hdump]
    unfold splitLines
    rw [LineText.splitOn_append_sep]
    exact List.mem_append_left _ hin
  have hshape : openFence ++ yaml.dump m ++ openFence ++ body =
      openFence ++ (block ++ closeFence ++ body) := by
    rw [hdump]
    simp [openFence, closeFence]
  rw [hshape, splitFrontmatter, List.drop_left,
    partitionAt?_closeFence block body (fun hin => hfence (List.mem_of_mem_drop hin))]
  rw [if_neg]
  simp [List.isPrefixOf_iff_prefix]

end Core
end Nauro
