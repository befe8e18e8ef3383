import Nauro.Core.Text
import Nauro.Foundation.PercentEncoding
import Mathlib.Data.Set.Function

/-!
# The names of quarantine backups

A backup's name holds a key of the remote version, a key of the remote path and the path in
percent escapes, cut to a length every file system takes.

* `backup_names` — what a name gives back, and when two names are one.
-/

namespace Nauro
namespace Sync

open Foundation Core
open EscapedUtf8 (utf8)
open PercentEncoding (Spelling escape unescape upperHex escapeByte)

/-! ## Keys -/

/-- `_KEY_LENGTH`. -/
def keyLength : Nat := 16

variable (sha256Hex : List UInt8 → Text)

/-- `_digest`. -/
def digestKey (material : List UInt8) : Text :=
  (sha256Hex material).take keyLength

/-- What a version's key is taken of: its ETag, or else its bytes. -/
def keyMaterial (remoteEtag : Text) (remoteContent : List UInt8) : List UInt8 :=
  if remoteEtag = [] then remoteContent else utf8 remoteEtag

/-- `quarantine_key`. -/
def quarantineKey (remoteEtag : Text) (remoteContent : List UInt8) : Text :=
  digestKey sha256Hex (keyMaterial remoteEtag remoteContent)

/-- `path_key`. -/
def pathKey (remotePath : Text) : Text :=
  digestKey sha256Hex (utf8 remotePath)

/-! ## The path in a name -/

/-- `_SAFE_NAME_CHARS`. -/
def isSafeByte (b : UInt8) : Bool :=
  (Char.ofUInt8 b).isAlphanum || Char.ofUInt8 b ∈ "._-".toList

/-- `_encode_path`. -/
def encodePath (remotePath : Text) : Text :=
  let encoded := escape isSafeByte (utf8 remotePath)
  if ['.'].isSuffixOf encoded then encoded.dropLast ++ "%2E".toList else encoded

/-- What `int` skips around digits. -/
def isIntSpace (c : Char) : Bool :=
  c ∈ [' ', '\t', '\n', '\x0b', '\x0c', '\r'] || (128 ≤ c.toNat && isSpace c)

/-- The value of a digit to base 16, decimal digits of any script included. -/
def baseSixteen? (tables : UnicodeTables) (c : Char) : Option Nat :=
  if c.isDigit then some (c.toNat - '0'.toNat)
  else if 'a' ≤ c ∧ c ≤ 'f' then some (c.toNat - 'a'.toNat + 10)
  else if 'A' ≤ c ∧ c ≤ 'F' then some (c.toNat - 'A'.toNat + 10)
  else if 128 ≤ c.toNat then tables.decimal? c
  else none

/-- The byte of two characters that `int` reads to base 16: blanks are skipped, and a sign is
read; a negative number is no byte. -/
def hexByte? (tables : UnicodeTables) (high low : Char) : Option UInt8 :=
  if isIntSpace high || high == '+' then (baseSixteen? tables low).map UInt8.ofNat
  else if isIntSpace low then (baseSixteen? tables high).map UInt8.ofNat
  else if high == '-' then if baseSixteen? tables low = some 0 then some 0 else none
  else do
    let h ← baseSixteen? tables high
    let l ← baseSixteen? tables low
    some (UInt8.ofNat (16 * h + l))

/-- `_decode_path`. -/
def decodePath (tables : UnicodeTables) (encoded : Text) : Text :=
  LossyUtf8.decode (unescape (hexByte? tables) encoded)

/-- `_MAX_ENCODED_PATH`. -/
def maxEncodedPath : Nat := 145

/-- `_truncate_encoded`. -/
def truncateEncoded (encoded : Text) : Text :=
  if encoded.length ≤ maxEncodedPath then encoded
  else if encoded[maxEncodedPath - 2]? = some '%' then encoded.take (maxEncodedPath - 2)
  else if encoded[maxEncodedPath - 1]? = some '%' then encoded.take (maxEncodedPath - 1)
  else encoded.take maxEncodedPath

/-! ## The name -/

/-- `_BACKUP_PREFIX`. -/
def backupPrefix : Text := "number-collision-".toList

/-- `backup_name`. -/
def backupName (remotePath key : Text) : Text :=
  backupPrefix ++ key ++ '-' :: (pathKey sha256Hex remotePath ++
    '-' :: truncateEncoded (encodePath remotePath))

/-- One key and the separator behind it. -/
def takeKey? (rest : Text) : Option (Text × Text) :=
  if rest.length ≤ keyLength ∨ rest[keyLength]? ≠ some '-' then none
  else some (rest.take keyLength, rest.drop (keyLength + 1))

/-- `_parse_backup_name`: the path's key and the path that is shown. -/
def parseBackupName (tables : UnicodeTables) (name : Text) : Option (Text × Text) :=
  if !backupPrefix.isPrefixOf name then none
  else do
    let (_, rest) ← takeKey? (name.drop backupPrefix.length)
    let (path, rest) ← takeKey? rest
    if decodePath tables rest = [] then none else some (path, decodePath tables rest)

/-! ## Escapes of a path -/

theorem isSafeByte_plain : PercentEncoding.PlainBytes isSafeByte := by
  have hall : ∀ n < 256, isSafeByte (UInt8.ofNat n) = true →
      ¬ 0x80 ≤ UInt8.ofNat n ∧ Char.ofUInt8 (UInt8.ofNat n) ≠ '%' := by decide +kernel
  have hbyte (b : UInt8) (h : isSafeByte b = true) : ¬ 0x80 ≤ b ∧ Char.ofUInt8 b ≠ '%' := by
    have hb := hall b.toNat b.toNat_lt
    rw [UInt8.ofNat_toNat] at hb
    exact hb h
  exact ⟨fun b h => (hbyte b h).1, fun b h => (hbyte b h).2⟩

theorem baseSixteen?_upperHex (tables : UnicodeTables) {n : Nat} (h : n < 16) :
    baseSixteen? tables (upperHex n) = some n := by
  have hall : ∀ k < 16, ((upperHex k).isDigit = true ∧ (upperHex k).toNat - '0'.toNat = k) ∨
      ((upperHex k).isDigit = false ∧ ¬ ('a' ≤ upperHex k ∧ upperHex k ≤ 'f') ∧
        ('A' ≤ upperHex k ∧ upperHex k ≤ 'F') ∧ (upperHex k).toNat - 'A'.toNat + 10 = k) := by
    decide
  rw [baseSixteen?]
  rcases hall n h with ⟨hdigit, hvalue⟩ | ⟨hdigit, hsmall, hlarge, hvalue⟩
  · rw [if_pos hdigit, hvalue]
  · rw [if_neg (by simp [hdigit]), if_neg hsmall, if_pos hlarge, hvalue]

theorem upperHex_no_blank {n : Nat} (h : n < 16) :
    isIntSpace (upperHex n) = false ∧ upperHex n ≠ '+' ∧ upperHex n ≠ '-' ∧ upperHex n ≠ '.' := by
  have hall : ∀ k < 16, isIntSpace (upperHex k) = false ∧ upperHex k ≠ '+' ∧ upperHex k ≠ '-' ∧
      upperHex k ≠ '.' := by decide
  exact hall n h

/-- The reader of digits reads what is written for a byte. -/
theorem hexByte?_readsBytes (tables : UnicodeTables) :
    PercentEncoding.ReadsBytes (hexByte? tables) := by
  intro b
  have hb := b.toNat_lt
  have hhigh : b.toNat / 16 < 16 := by omega
  have hlow : b.toNat % 16 < 16 := by omega
  obtain ⟨hspace, hplus, hminus, -⟩ := upperHex_no_blank hhigh
  rw [hexByte?, if_neg (by simp [hspace, hplus]), if_neg (by simp [(upperHex_no_blank hlow).1]),
    if_neg (by simpa using hminus), baseSixteen?_upperHex tables hhigh,
    baseSixteen?_upperHex tables hlow]
  show some (UInt8.ofNat (16 * (b.toNat / 16) + b.toNat % 16)) = some b
  rw [Nat.div_add_mod, UInt8.ofNat_toNat]

theorem ofUInt8_dot {b : UInt8} (h : Char.ofUInt8 b = '.') : b = 0x2E := by
  have hall : ∀ n < 256, Char.ofUInt8 (UInt8.ofNat n) = '.' → UInt8.ofNat n = 0x2E := by
    decide +kernel
  have hb := hall b.toNat b.toNat_lt
  rw [UInt8.ofNat_toNat] at hb
  exact hb h

/-- The encoded path spells the path's bytes. -/
theorem encodePath_spelling (remotePath : Text) :
    Spelling isSafeByte (utf8 remotePath) (encodePath remotePath) := by
  unfold encodePath
  simp only
  split
  · next hdot =>
      rcases List.eq_nil_or_concat (utf8 remotePath) with hnil | ⟨front, b, hbytes⟩
      · rw [hnil] at hdot
        cases hdot
      · have hescape : escape isSafeByte (utf8 remotePath) = escape isSafeByte front ++
            (if isSafeByte b then [Char.ofUInt8 b] else escapeByte b) := by
          rw [hbytes, escape, List.concat_eq_append, List.flatMap_append, List.flatMap_singleton]
          rfl
        obtain ⟨text, htext⟩ := List.isSuffixOf_iff_suffix.mp hdot
        rw [hescape] at htext
        by_cases hsafe : isSafeByte b = true
        · -- a plain dot stands last, and is escaped instead
          rw [if_pos hsafe] at htext hescape
          obtain ⟨rfl, hchar⟩ := List.append_inj' htext rfl
          have hb : b = 0x2E := ofUInt8_dot (List.cons.inj hchar).1.symm
          rw [hescape, List.dropLast_concat, hbytes, List.concat_eq_append, hb]
          exact (PercentEncoding.spelling_escape front).append
            (Spelling.escaped 0x2E Spelling.nil)
        · rw [if_neg hsafe] at htext
          have hlast := congrArg List.getLast? htext
          rw [List.getLast?_append, List.getLast?_append] at hlast
          have hb := b.toNat_lt
          exact absurd (Option.some.inj hlast).symm
            (upperHex_no_blank (n := b.toNat % 16) (by omega)).2.2.2
  · exact PercentEncoding.spelling_escape _

/-- The cut path spells the first bytes of the path. -/
theorem truncateEncoded_spelling {bytes : List UInt8} {encoded : Text}
    (h : Spelling isSafeByte bytes encoded) :
    ∃ k, Spelling isSafeByte (bytes.take k) (truncateEncoded encoded) := by
  rw [truncateEncoded]
  split
  · exact ⟨bytes.length, by rwa [List.take_length]⟩
  · split
    · next hpercent => exact h.take_at_escape hpercent
    · split
      · next hpercent => exact h.take_at_escape hpercent
      · next hfirst hsecond =>
          refine h.take_clear fun i hi hnear => ?_
          have hi : i = maxEncodedPath - 2 ∨ i = maxEncodedPath - 1 := by
            rw [maxEncodedPath] at *
            omega
          rcases hi with rfl | rfl
          · exact hfirst
          · exact hsecond

theorem truncateEncoded_of_le {encoded : Text} (h : encoded.length ≤ maxEncodedPath) :
    truncateEncoded encoded = encoded :=
  if_pos h

theorem truncateEncoded_ne_nil {encoded : Text} (h : encoded ≠ []) :
    truncateEncoded encoded ≠ [] := by
  have hcut {n : Nat} (hn : 0 < n) : encoded.take n ≠ [] := by
    rw [ne_eq, List.take_eq_nil_iff, not_or]
    exact ⟨Nat.ne_of_gt hn, h⟩
  rw [truncateEncoded]
  split_ifs
  · exact h
  · exact hcut (by decide)
  · exact hcut (by decide)
  · exact hcut (by decide)

/-- What is shown of a spelled path. -/
theorem decodePath_spelling (tables : UnicodeTables) {bytes : List UInt8} {encoded : Text}
    (h : Spelling isSafeByte bytes encoded) : decodePath tables encoded = LossyUtf8.decode bytes := by
  rw [decodePath, h.unescape (hexByte?_readsBytes tables) isSafeByte_plain]

/-! ## Reading a name -/

variable {sha256Hex}

theorem takeKey?_append {key rest : Text} (h : key.length = keyLength) :
    takeKey? (key ++ '-' :: rest) = some (key, rest) := by
  have hlong : ¬ (key ++ '-' :: rest).length ≤ keyLength := by
    rw [List.length_append, List.length_cons, h]
    omega
  have hdash : (key ++ '-' :: rest)[keyLength]? = some '-' := by
    rw [← h, List.getElem?_append_right (Nat.le_refl _), Nat.sub_self]
    rfl
  have htake : (key ++ '-' :: rest).take keyLength = key := by
    rw [← h, List.take_left]
  have hdrop : (key ++ '-' :: rest).drop (keyLength + 1) = rest := by
    rw [← h, List.drop_append, List.drop_eq_nil_of_le (Nat.le_succ _), Nat.add_sub_cancel_left]
    rfl
  rw [takeKey?, if_neg (not_or.mpr ⟨hlong, not_not.mpr hdash⟩), htake, hdrop]

theorem decodePath_truncated_eq_nil_iff (tables : UnicodeTables) (remotePath : Text) :
    decodePath tables (truncateEncoded (encodePath remotePath)) = [] ↔ remotePath = [] := by
  have hspelling := encodePath_spelling remotePath
  obtain ⟨k, hk⟩ := truncateEncoded_spelling hspelling
  rw [decodePath_spelling tables hk, LossyUtf8.decode_eq_nil_iff, ← hk.eq_nil_iff]
  constructor
  · intro h
    by_contra hpath
    refine truncateEncoded_ne_nil ?_ h
    rw [ne_eq, hspelling.eq_nil_iff]
    exact fun hbytes => hpath (EscapedUtf8.utf8_injective hbytes)
  · rintro rfl
    rfl

/-- The parts of a name. -/
theorem parseBackupName_backupName (tables : UnicodeTables) {remotePath key : Text}
    (hkey : key.length = keyLength) (hpath : (pathKey sha256Hex remotePath).length = keyLength) :
    parseBackupName tables (backupName sha256Hex remotePath key) =
      if remotePath = [] then none
      else some (pathKey sha256Hex remotePath,
        decodePath tables (truncateEncoded (encodePath remotePath))) := by
  have hname : backupName sha256Hex remotePath key = backupPrefix ++ (key ++ '-' ::
      (pathKey sha256Hex remotePath ++ '-' :: truncateEncoded (encodePath remotePath))) := by
    rw [backupName, List.append_assoc]
  have hstarts : backupPrefix.isPrefixOf (backupName sha256Hex remotePath key) = true := by
    rw [hname, List.isPrefixOf_iff_prefix]
    exact List.prefix_append _ _
  have hrest : (backupName sha256Hex remotePath key).drop backupPrefix.length = key ++ '-' ::
      (pathKey sha256Hex remotePath ++ '-' :: truncateEncoded (encodePath remotePath)) := by
    rw [hname, List.drop_left]
  rw [parseBackupName, hstarts, hrest, takeKey?_append hkey]
  simp only [Bool.not_true, Bool.false_eq_true, if_false, Option.bind_eq_bind, Option.bind_some,
    takeKey?_append hpath]
  by_cases hnil : remotePath = []
  · rw [if_pos ((decodePath_truncated_eq_nil_iff tables remotePath).mpr hnil), if_pos hnil]
  · rw [if_neg (mt (decodePath_truncated_eq_nil_iff tables remotePath).mp hnil), if_neg hnil]

/-- Two names are one when their keys and their paths' keys and encodings are. -/
theorem backupName_eq_iff {path path' key key' : Text}
    (hkey : key.length = key'.length)
    (hpath : (pathKey sha256Hex path).length = (pathKey sha256Hex path').length) :
    backupName sha256Hex path key = backupName sha256Hex path' key' ↔
      key = key' ∧ pathKey sha256Hex path = pathKey sha256Hex path' ∧
        truncateEncoded (encodePath path) = truncateEncoded (encodePath path') := by
  rw [backupName, backupName, List.append_assoc, List.append_assoc, List.append_cancel_left_eq]
  constructor
  · intro h
    obtain ⟨rfl, hrest⟩ := List.append_inj h hkey
    obtain ⟨hpath, hrest⟩ := List.append_inj (List.cons.inj hrest).2 hpath
    exact ⟨rfl, hpath, (List.cons.inj hrest).2⟩
  · rintro ⟨rfl, hpath, hencoded⟩
    rw [hpath, hencoded]

theorem length_digestKey (hwidth : ∀ material, (sha256Hex material).length = 64)
    (material : List UInt8) : (digestKey sha256Hex material).length = keyLength := by
  rw [digestKey, List.length_take, hwidth]
  rfl

/-- A path that is not cut is read back, a cut one as its first bytes; a name gives its path's key
and the path that is shown; and where keys do not collide, names are one for one path and one key
material only. -/
theorem backup_names (tables : UnicodeTables) (sha256Hex : List UInt8 → Text)
    (hwidth : ∀ material, (sha256Hex material).length = 64) (materials : Set (List UInt8))
    (hdistinct : Set.InjOn (digestKey sha256Hex) materials) :
    (∀ path, (encodePath path).length ≤ maxEncodedPath →
      decodePath tables (truncateEncoded (encodePath path)) = path) ∧
    (∀ path, ∃ k, Spelling isSafeByte ((utf8 path).take k) (truncateEncoded (encodePath path)) ∧
      decodePath tables (truncateEncoded (encodePath path)) =
        LossyUtf8.decode ((utf8 path).take k)) ∧
    (∀ path etag content,
      parseBackupName tables (backupName sha256Hex path (quarantineKey sha256Hex etag content)) =
        if path = [] then none
        else some (pathKey sha256Hex path,
          decodePath tables (truncateEncoded (encodePath path)))) ∧
    (∀ path path' etag etag' content content', utf8 path ∈ materials → utf8 path' ∈ materials →
      keyMaterial etag content ∈ materials → keyMaterial etag' content' ∈ materials →
      (backupName sha256Hex path (quarantineKey sha256Hex etag content) =
          backupName sha256Hex path' (quarantineKey sha256Hex etag' content') ↔
        path = path' ∧ keyMaterial etag content = keyMaterial etag' content')) := by
  refine ⟨fun path hshort => ?_, fun path => ?_, fun path etag content => ?_, ?_⟩
  · rw [truncateEncoded_of_le hshort, decodePath_spelling tables (encodePath_spelling path),
      LossyUtf8.decode_utf8]
  · obtain ⟨k, hk⟩ := truncateEncoded_spelling (encodePath_spelling path)
    exact ⟨k, hk, decodePath_spelling tables hk⟩
  · exact parseBackupName_backupName tables (length_digestKey hwidth _) (length_digestKey hwidth _)
  · intro path path' etag etag' content content' hpath hpath' hversion hversion'
    have hwide (material material' : List UInt8) : (digestKey sha256Hex material).length =
        (digestKey sha256Hex material').length := by
      rw [length_digestKey hwidth, length_digestKey hwidth]
    rw [quarantineKey, quarantineKey, backupName_eq_iff (hwide _ _) (hwide _ _)]
    constructor
    · rintro ⟨hkey, hkeys, -⟩
      exact ⟨EscapedUtf8.utf8_injective (hdistinct hpath hpath' hkeys),
        hdistinct hversion hversion' hkey⟩
    · rintro ⟨rfl, hmaterial⟩
      rw [hmaterial]
      exact ⟨rfl, rfl, rfl⟩

def samplePath : Text := "decisions/007-a.md".toList

def sampleEtag : Text := "\"v1\"".toList

/-- SHA-256 of the sample path and the sample ETag. -/
def sampleSha256Hex (material : List UInt8) : Text :=
  if material = utf8 samplePath then
    "b5a0d0eb266ad9db6497bee9e0ad3a2fdc3d4fe04bb3f011b2845cb773448a25".toList
  else if material = utf8 sampleEtag then
    "161078e42e8fef3ba4b9c984035baa2e431a50b31a18ac95614cc6820394af13".toList
  else List.replicate 64 '0'

theorem sampleSha256Hex_length (material : List UInt8) :
    (sampleSha256Hex material).length = 64 := by
  rw [sampleSha256Hex]
  split_ifs
  · decide
  · decide
  · exact List.length_replicate

/-- The names of one remote decision, kept under its ETag and under its bytes. -/
theorem backup_names_sample :
    (∀ path, (encodePath path).length ≤ maxEncodedPath →
      decodePath .ascii (truncateEncoded (encodePath path)) = path) ∧
    (∀ path, ∃ k, Spelling isSafeByte ((utf8 path).take k) (truncateEncoded (encodePath path)) ∧
      decodePath .ascii (truncateEncoded (encodePath path)) =
        LossyUtf8.decode ((utf8 path).take k)) ∧
    (∀ path etag content,
      parseBackupName .ascii
          (backupName sampleSha256Hex path (quarantineKey sampleSha256Hex etag content)) =
        if path = [] then none
        else some (pathKey sampleSha256Hex path,
          decodePath .ascii (truncateEncoded (encodePath path)))) ∧
    (∀ path path' etag etag' content content',
      utf8 path ∈ {m | m = utf8 samplePath ∨ m = utf8 sampleEtag} →
      utf8 path' ∈ {m | m = utf8 samplePath ∨ m = utf8 sampleEtag} →
      keyMaterial etag content ∈ {m | m = utf8 samplePath ∨ m = utf8 sampleEtag} →
      keyMaterial etag' content' ∈ {m | m = utf8 samplePath ∨ m = utf8 sampleEtag} →
      (backupName sampleSha256Hex path (quarantineKey sampleSha256Hex etag content) =
          backupName sampleSha256Hex path' (quarantineKey sampleSha256Hex etag' content') ↔
        path = path' ∧ keyMaterial etag content = keyMaterial etag' content')) := by
  refine backup_names .ascii sampleSha256Hex sampleSha256Hex_length _ ?_
  have hkeys : digestKey sampleSha256Hex (utf8 samplePath) ≠
      digestKey sampleSha256Hex (utf8 sampleEtag) := by decide +kernel
  rintro m (rfl | rfl) m' (rfl | rfl) heq
  · rfl
  · exact absurd heq hkeys
  · exact absurd heq.symm hkeys
  · rfl

/-- A version without an ETag whose bytes are another version's ETag has its backup name. -/
theorem etag_and_content_collide :
    (sampleEtag, ([] : List UInt8)) ≠ ([], utf8 sampleEtag) ∧
      backupName sampleSha256Hex samplePath (quarantineKey sampleSha256Hex sampleEtag []) =
        backupName sampleSha256Hex samplePath
          (quarantineKey sampleSha256Hex [] (utf8 sampleEtag)) :=
  ⟨fun h => absurd (Prod.mk.inj h).1 (by decide), rfl⟩

end Sync
end Nauro
