import Nauro.Core.Transitions
import Nauro.Sync.PushPaths

/-!
# The names of decision files

A decision file is named by its writer, admitted by its name when it is synced, and named anew
when its number is taken.

* `minted_names_canonical` — the names that are minted are admitted, and tell their number.
-/

namespace Nauro
namespace Sync

open Foundation Nauro.Core

/-- What the names of decision files ask of the Unicode database, beyond what the core asks. -/
structure FilenameTables extends UnicodeTables where
  /-- The full upper-case mapping of one character. -/
  upperChar : Char → Text
  /-- `str.isdigit` of one character. -/
  isDigit : Char → Bool

structure FilenameTables.Lawful (tables : FilenameTables) : Prop where
  core : tables.toUnicodeTables.Lawful
  alnum_ascii : ∀ c : Char, c.toNat < 128 → tables.isAlnum c = c.isAlphanum
  upper_ascii : ∀ c : Char, c.toNat < 128 → tables.upperChar c = [c.toUpper]
  digit_ascii : ∀ c : Char, c.toNat < 128 → tables.isDigit c = c.isDigit

/-- The tables on ASCII. -/
def FilenameTables.ascii : FilenameTables where
  toUnicodeTables := .ascii
  upperChar c := [c.toUpper]
  isDigit c := c.isDigit

theorem FilenameTables.ascii_lawful : FilenameTables.ascii.Lawful where
  core := UnicodeTables.ascii_lawful
  alnum_ascii _ _ := rfl
  upper_ascii _ _ := rfl
  digit_ascii _ _ := rfl

variable (tables : FilenameTables)

/-- `text.upper()`. -/
def upper (text : Text) : Text :=
  text.flatMap tables.upperChar

def canonicalExtraChars : Text := "-._".toList

def deviceDigits : Text := "123456789\u00b9\u00b2\u00b3".toList

def reservedDeviceNames : List Text :=
  ["CON", "PRN", "AUX", "NUL"].map String.toList ++
    deviceDigits.map (fun digit => "COM".toList ++ [digit]) ++
    deviceDigits.map fun digit => "LPT".toList ++ [digit]

/-- `_is_canonical_filename`. -/
def isCanonicalFilename (filename : Text) : Bool :=
  if !".md".toList.isSuffixOf filename then false
  else
    let stem := filename.take (filename.length - ".md".toList.length)
    if stem = [] ∨ filename ≠ lower tables.toUnicodeTables filename then false
    else if !stem.any tables.isAlnum then false
    else if !stem.all fun c => tables.isAlnum c || canonicalExtraChars.contains c then false
    else !reservedDeviceNames.contains (upper tables ((stem.splitOn '.').headD []))

/-- `strip_number_prefix`. -/
def stripNumberPrefix (filename : Text) : Text :=
  let digits := filename.takeWhile tables.isDigit
  match filename.drop digits.length with
  | '-' :: rest => if digits ≠ [] then rest else filename
  | _ => filename

/-- The name `apply_renumber` gives a file under a new number. -/
def renumberedName (newNum : Nat) (filename : Text) : Text :=
  padNumber 3 newNum ++ ['-'] ++ stripNumberPrefix tables filename

/-- The name the writers give a decision. -/
def mintedName (number : Nat) (title : Text) : Text :=
  decisionFilename (decisionNumberPrefix number ++
    slugifyDecisionTitle tables.toUnicodeTables title)

/-! ## Lower case that is stable -/

/-- A character that lower-casing leaves as it is. -/
def IsLower (c : Char) : Prop :=
  c ≠ 'Σ' ∧ tables.lowerChar c = [c]

variable {tables}

theorem isLower_of_mem_lowerAfter (hlawful : tables.Lawful) {before text : Text} {c : Char}
    (hc : c ∈ lowerAfter tables.toUnicodeTables before text) : IsLower tables c := by
  induction text generalizing before with
  | nil => cases hc
  | cons first rest ih =>
      rw [lowerAfter] at hc
      rcases List.mem_append.mp hc with hhead | hrest
      · split_ifs at hhead with hsigma hfinal
        · rw [List.mem_singleton.mp hhead]
          exact ⟨by decide, hlawful.core.lower_sigma.2⟩
        · rw [List.mem_singleton.mp hhead]
          exact ⟨by decide, hlawful.core.lower_sigma.1⟩
        · exact hlawful.core.lower_stable first hsigma c hhead
      · exact ih hrest

theorem lowerAfter_of_isLower {before text : Text} (h : ∀ c ∈ text, IsLower tables c) :
    lowerAfter tables.toUnicodeTables before text = text := by
  induction text generalizing before with
  | nil => rfl
  | cons c rest ih =>
      obtain ⟨⟨hsigma, hc⟩, hrest⟩ := List.forall_mem_cons.mp h
      rw [lowerAfter, if_neg hsigma, ih hrest, hc]
      rfl

theorem isLower_ascii (hlawful : tables.Lawful) {c : Char} (hascii : c.toNat < 128)
    (hc : c.toLower = c) : IsLower tables c := by
  refine ⟨?_, by rw [hlawful.core.lower_ascii c hascii, hc]⟩
  rintro rfl
  exact absurd hascii (by decide)

/-! ## Slugs -/

theorem mem_slugChars {prevDash : Bool} {text : Text} {c : Char}
    (hc : c ∈ slugChars tables.toUnicodeTables prevDash text) :
    c = '-' ∨ (tables.isAlnum c = true ∧ c ∈ text) := by
  induction text generalizing prevDash with
  | nil => cases hc
  | cons first rest ih =>
      rw [slugChars] at hc
      have hmore : ∀ {dash : Bool}, c ∈ slugChars tables.toUnicodeTables dash rest →
          c = '-' ∨ (tables.isAlnum c = true ∧ c ∈ first :: rest) :=
        fun hrest => (ih hrest).imp_right fun h => ⟨h.1, List.mem_cons_of_mem _ h.2⟩
      split_ifs at hc with halnum hdash
      · rcases List.mem_cons.mp hc with rfl | hrest
        · exact Or.inr ⟨halnum, List.mem_cons_self⟩
        · exact hmore hrest
      · exact hmore hc
      · rcases List.mem_cons.mp hc with rfl | hrest
        · exact Or.inl rfl
        · exact hmore hrest

theorem mem_of_mem_beforeLastDash {text : Text} {c : Char} (hc : c ∈ beforeLastDash text) :
    c ∈ text := by
  unfold beforeLastDash at hc
  split_ifs at hc with hdash
  · exact (List.rdropWhile_prefix _ _).subset (List.dropLast_subset _ hc)
  · exact hc

/-- A slug has dashes, letters and digits, in lower case. -/
theorem mem_slugifyDecisionTitle (hlawful : tables.Lawful) {title : Text} {c : Char}
    (hc : c ∈ slugifyDecisionTitle tables.toUnicodeTables title) :
    (c = '-' ∨ tables.isAlnum c = true) ∧ IsLower tables c := by
  have hslug : c ∈ Trim.trim (· == '-') (slugChars tables.toUnicodeTables false
      (lower tables.toUnicodeTables title)) := by
    unfold slugifyDecisionTitle at hc
    simp only at hc
    split_ifs at hc with hlong hhalf
    · exact List.mem_of_mem_take (mem_of_mem_beforeLastDash hc)
    · exact List.mem_of_mem_take hc
    · exact hc
  rcases mem_slugChars (Trim.mem_of_mem_trim hslug) with rfl | ⟨halnum, hin⟩
  · exact ⟨Or.inl rfl, isLower_ascii hlawful (by decide) (by decide)⟩
  · exact ⟨Or.inr halnum, isLower_of_mem_lowerAfter hlawful hin⟩

/-! ## Minted names -/

theorem exists_digit_padNumber (width n : Nat) :
    ∃ digit rest, padNumber width n = digit :: rest ∧ digit.isDigit = true := by
  obtain ⟨digit, rest, h⟩ := List.exists_cons_of_ne_nil (padNumber_ne_nil width n)
  exact ⟨digit, rest, h, isDigit_of_mem_padNumber (h ▸ List.mem_cons_self)⟩

theorem isAlnum_of_isDigit (hlawful : tables.Lawful) {c : Char} (hc : c.isDigit = true) :
    tables.isAlnum c = true := by
  have hnat := toNat_of_isDigit hc
  rw [hlawful.alnum_ascii c (by omega), Char.isAlphanum, hc, Bool.or_true]

theorem isLower_of_isDigit (hlawful : tables.Lawful) {c : Char} (hc : c.isDigit = true) :
    IsLower tables c := by
  have hnat := toNat_of_isDigit hc
  exact isLower_ascii hlawful (by omega) (toLower_eq_self (by omega))

/-- Whatever follows a number in a name, the name is no device. -/
theorem notMem_reservedDeviceNames (hlawful : tables.Lawful) {digit : Char} {rest : Text}
    (hdigit : digit.isDigit = true) :
    upper tables (((digit :: rest).splitOn '.').headD []) ∉ reservedDeviceNames := by
  have hne : digit ≠ '.' := by
    rintro rfl
    exact absurd hdigit (by decide)
  have hhead : ∃ more, ((digit :: rest).splitOn '.').headD [] = digit :: more := by
    rw [LineText.splitOn_cons_of_ne hne]
    cases hrest : rest.splitOn '.' with
    | nil => exact absurd hrest (List.splitOn_ne_nil _ _)
    | cons first others => exact ⟨first, rfl⟩
  obtain ⟨more, hmore⟩ := hhead
  have hnat := toNat_of_isDigit hdigit
  have hupper : upper tables (digit :: more) = digit.toUpper :: upper tables more := by
    rw [upper, List.flatMap_cons, hlawful.upper_ascii digit (by omega)]
    rfl
  have hletters : ∀ name ∈ reservedDeviceNames, (name.head?.any Char.isDigit) = false := by decide
  have hself : digit.toUpper = digit := by
    unfold Char.toUpper
    refine dif_neg fun hrange => ?_
    have hlow := UInt32.le_iff_toNat_le.mp hrange.1
    have hcode : 'a'.val.toNat = 97 := rfl
    have hval : digit.toNat = digit.val.toNat := rfl
    omega
  rw [hmore, hupper, hself]
  intro hin
  have hfalse : digit.isDigit = false := hletters _ hin
  rw [hdigit] at hfalse
  cases hfalse

theorem stem_take (stem : Text) :
    (decisionFilename stem).take ((decisionFilename stem).length - ".md".toList.length) = stem := by
  rw [decisionFilename, List.length_append, Nat.add_sub_cancel, List.take_left]

/-- A number, a dash and a slug make the name of a decision. -/
theorem isCanonicalFilename_of_slug (hlawful : tables.Lawful) (number : Nat) {slug : Text}
    (hslug : ∀ c ∈ slug, (c = '-' ∨ tables.isAlnum c = true) ∧ IsLower tables c) :
    isCanonicalFilename tables (decisionFilename (decisionNumberPrefix number ++ slug)) = true := by
  obtain ⟨digit, rest, hpad, hdigit⟩ := exists_digit_padNumber 3 number
  have hstem : decisionNumberPrefix number ++ slug = digit :: (rest ++ '-' :: slug) := by
    rw [decisionNumberPrefix, hpad]
    simp only [List.cons_append, List.append_assoc, List.nil_append]
  have hchars : ∀ c ∈ decisionNumberPrefix number ++ slug,
      (c = '-' ∨ tables.isAlnum c = true) ∧ IsLower tables c := by
    intro c hc
    rcases List.mem_append.mp hc with hleading | hin
    · rcases List.mem_append.mp hleading with hnumber | hdash
      · have hc' := isDigit_of_mem_padNumber hnumber
        exact ⟨Or.inr (isAlnum_of_isDigit hlawful hc'), isLower_of_isDigit hlawful hc'⟩
      · rw [List.mem_singleton.mp hdash]
        exact ⟨Or.inl rfl, isLower_ascii hlawful (by decide) (by decide)⟩
    · exact hslug c hin
  have hlower : lower tables.toUnicodeTables
      (decisionFilename (decisionNumberPrefix number ++ slug)) =
        decisionFilename (decisionNumberPrefix number ++ slug) := by
    refine lowerAfter_of_isLower fun c hc => ?_
    rcases List.mem_append.mp hc with hin | hmd
    · exact (hchars c hin).2
    · have hascii : ∀ c ∈ ".md".toList, c.toNat < 128 ∧ c.toLower = c :=
        forall_mem_of_all (by decide)
      exact isLower_ascii hlawful (hascii c hmd).1 (hascii c hmd).2
  have hsuffix : ".md".toList.isSuffixOf
      (decisionFilename (decisionNumberPrefix number ++ slug)) = true :=
    List.isSuffixOf_iff_suffix.mpr (List.suffix_append _ _)
  have hany : (decisionNumberPrefix number ++ slug).any tables.isAlnum = true := by
    rw [hstem, List.any_cons, isAlnum_of_isDigit hlawful hdigit, Bool.true_or]
  have hall : ((decisionNumberPrefix number ++ slug).all fun c =>
      tables.isAlnum c || canonicalExtraChars.contains c) = true := by
    refine List.all_eq_true.mpr fun c hc => ?_
    rcases (hchars c hc).1 with rfl | halnum
    · rw [Bool.or_eq_true]
      exact Or.inr (by decide)
    · rw [halnum, Bool.true_or]
  have hdevice : upper tables (((digit :: (rest ++ '-' :: slug)).splitOn '.').headD []) ∉
      reservedDeviceNames := notMem_reservedDeviceNames hlawful hdigit
  rw [← hstem] at hdevice
  have hne : ¬ (decisionNumberPrefix number ++ slug = [] ∨
      decisionFilename (decisionNumberPrefix number ++ slug) ≠
        decisionFilename (decisionNumberPrefix number ++ slug)) := by
    rw [hstem]
    rintro (hnil | hself)
    · exact List.cons_ne_nil _ _ hnil
    · exact hself rfl
  unfold isCanonicalFilename
  simp only [hsuffix, stem_take, hlower, if_neg hne, hany, hall, Bool.not_true,
    Bool.false_eq_true, if_false]
  rw [Bool.not_eq_true', List.contains_eq_mem, decide_eq_false_iff_not]
  exact hdevice

/-- A path of two parts, of which the second one is the name of a decision. -/
theorem isCanonicalDecisionPath_of_filename {side : PullSide} {stem : Text}
    (hslash : '/' ∉ decisionFilename stem)
    (hname : side.canonicalFilename (decisionFilename stem) = true) :
    isCanonicalDecisionPath side (decisionPath stem) = true := by
  have hsplit : (decisionPath stem).splitOn '/' = [Sync.decisionsDir, decisionFilename stem] := by
    have hdir : '/' ∉ Sync.decisionsDir := by decide
    show (Sync.decisionsDir ++ ['/'] ++ stem ++ ".md".toList).splitOn '/' = _
    rw [List.append_assoc, List.append_assoc]
    show (Sync.decisionsDir ++ '/' :: decisionFilename stem).splitOn '/' = _
    rw [LineText.splitOn_append_sep, List.splitOn_eq_singleton hdir,
      List.splitOn_eq_singleton hslash]
    rfl
  unfold isCanonicalDecisionPath
  rw [hsplit]
  simp only [decide_true, Bool.true_and, hname]

theorem slash_notMem_name {number : Nat} {slug : Text} (hslug : '/' ∉ slug) :
    '/' ∉ decisionFilename (decisionNumberPrefix number ++ slug) := by
  intro hin
  rcases List.mem_append.mp hin with hstem | hmd
  · rcases List.mem_append.mp hstem with hleading | hslug'
    · rcases List.mem_append.mp hleading with hnumber | hdash
      · exact absurd (isDigit_of_mem_padNumber hnumber) (by decide)
      · exact absurd hdash (by decide)
    · exact hslug hslug'
  · exact absurd hmd (by decide)

theorem slash_notMem_slug (hlawful : tables.Lawful) (title : Text) :
    '/' ∉ slugifyDecisionTitle tables.toUnicodeTables title := by
  intro hin
  rcases (mem_slugifyDecisionTitle hlawful hin).1 with hdash | halnum
  · exact absurd hdash (by decide)
  · rw [hlawful.alnum_ascii '/' (by decide)] at halnum
    exact absurd halnum (by decide)

/-- What follows the number of a name stays when the number is taken off. -/
theorem stripNumberPrefix_prefix (hlawful : tables.Lawful) (number : Nat) (rest : Text) :
    stripNumberPrefix tables (decisionNumberPrefix number ++ rest) = rest := by
  have hdigit : ∀ c ∈ padNumber 3 number, tables.isDigit c = true := by
    intro c hc
    have hdecimal := isDigit_of_mem_padNumber hc
    have hnat := toNat_of_isDigit hdecimal
    rw [hlawful.digit_ascii c (by omega), hdecimal]
  have hdash : tables.isDigit '-' = false := by
    rw [hlawful.digit_ascii '-' (by decide)]
    rfl
  have htake : (padNumber 3 number ++ '-' :: rest).takeWhile tables.isDigit =
      padNumber 3 number := by
    rw [List.takeWhile_append_of_pos hdigit, List.takeWhile_cons, hdash]
    exact List.append_nil _
  unfold stripNumberPrefix
  simp only [decisionNumberPrefix, List.append_assoc, List.cons_append, List.nil_append, htake,
    List.drop_left]
  rw [if_pos (padNumber_ne_nil 3 number)]

/-- The name under another number is the name that would have been minted with it. -/
theorem renumberedName_mintedName (hlawful : tables.Lawful) (number newNum : Nat) (title : Text) :
    renumberedName tables newNum (mintedName tables number title) =
      mintedName tables newNum title := by
  have hname : ∀ n, mintedName tables n title = decisionNumberPrefix n ++
      (slugifyDecisionTitle tables.toUnicodeTables title ++ ".md".toList) :=
    fun n => List.append_assoc _ _ _
  rw [renumberedName, hname, stripNumberPrefix_prefix hlawful, hname]
  rfl

/-- A name that sync admits below the directory of decisions and that tells its number. -/
structure Admits (tables : FilenameTables) (filename : Text) (number : Nat) : Prop where
  canonical : ∀ side : PullSide, isCanonicalDecisionPath
    { side with canonicalFilename := isCanonicalFilename tables }
    (Sync.decisionsDir ++ '/' :: filename) = true
  number : extractDecisionNumber tables.toUnicodeTables filename = some number

theorem admits_mintedName (hlawful : tables.Lawful) (number : Nat) (title : Text) :
    Admits tables (mintedName tables number title) number where
  canonical side := by
    have hpath : Sync.decisionsDir ++ '/' :: mintedName tables number title =
        decisionPath (decisionNumberPrefix number ++
          slugifyDecisionTitle tables.toUnicodeTables title) := by
      rw [decisionPath, mintedName, decisionFilename]
      simp only [List.append_assoc]
      rfl
    rw [hpath]
    exact isCanonicalDecisionPath_of_filename (slash_notMem_name (slash_notMem_slug hlawful title))
      (isCanonicalFilename_of_slug hlawful number fun c hc => mem_slugifyDecisionTitle hlawful hc)
  number := extractDecisionNumber_filename hlawful.core number _

/-- Every name that is minted is admitted and tells its number, and so is every name it gets
under a new number. -/
theorem minted_names_canonical (tables : FilenameTables) (hlawful : tables.Lawful) (title : Text)
    (number newNum : Nat) :
    Admits tables (mintedName tables number title) number ∧
      Admits tables (renumberedName tables newNum (mintedName tables number title)) newNum := by
  refine ⟨admits_mintedName hlawful number title, ?_⟩
  rw [renumberedName_mintedName hlawful]
  exact admits_mintedName hlawful newNum title

theorem minted_names_canonical_ascii :
    Admits .ascii (mintedName .ascii 7 "Use SQLite?".toList) 7 ∧
      Admits .ascii (renumberedName .ascii 1000 (mintedName .ascii 7 "Use SQLite?".toList)) 1000 :=
  minted_names_canonical .ascii FilenameTables.ascii_lawful "Use SQLite?".toList 7 1000

end Sync
end Nauro
