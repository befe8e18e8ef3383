import Nauro.Foundation.EscapedUtf8

/-!
# File names

A name that a POSIX file system holds is a string of bytes; a program reads it as text in which
the bytes of no character are escaped, and a path as such names with slashes between them.

* `nativePath?_eq_some_iff` — a path is the one that its reading spells.
-/

namespace Foundation

open EscapedUtf8

/-- A name of one entry of a directory: neither empty nor a dot name, and without slash or NUL. -/
structure FileName where
  bytes : List UInt8
  named : bytes ≠ [] ∧ bytes ≠ [0x2E] ∧ bytes ≠ [0x2E, 0x2E]
  plain : (0x2F : UInt8) ∉ bytes ∧ (0 : UInt8) ∉ bytes

namespace FileName

theorem ext_bytes {name other : FileName} (h : name.bytes = other.bytes) : name = other := by
  cases name
  cases other
  cases h
  rfl

instance : DecidableEq FileName := fun name other =>
  if h : name.bytes = other.bytes then isTrue (ext_bytes h)
  else isFalse fun heq => h (congrArg bytes heq)

/-- The name as text. -/
def points (name : FileName) : List Point :=
  decode name.bytes

/-- The name that a text spells; none when no file can have it. -/
def ofText? (text : List Char) : Option FileName :=
  if h : (utf8 text ≠ [] ∧ utf8 text ≠ [0x2E] ∧ utf8 text ≠ [0x2E, 0x2E]) ∧
      (0x2F : UInt8) ∉ utf8 text ∧ (0 : UInt8) ∉ utf8 text then
    some ⟨utf8 text, h.1, h.2⟩
  else none

theorem points_injective : Function.Injective points := fun _ _ h =>
  ext_bytes (decode_injective h)

theorem slash_notMem_points (name : FileName) : Point.scalar '/' ∉ name.points := by
  intro h
  refine name.plain.1 ?_
  rw [← encode_decode name.bytes]
  exact List.mem_flatMap.mpr ⟨_, h, List.mem_singleton_self _⟩

theorem ofText?_eq_some_iff {text : List Char} {name : FileName} :
    ofText? text = some name ↔ name.points = text.map Point.scalar := by
  constructor
  · intro h
    unfold ofText? at h
    split_ifs at h with hname
    cases h
    exact decode_utf8 text
  · intro h
    have hbytes : utf8 text = name.bytes := by
      rw [utf8, ← h]
      exact encode_decode name.bytes
    have hname : (utf8 text ≠ [] ∧ utf8 text ≠ [0x2E] ∧ utf8 text ≠ [0x2E, 0x2E]) ∧
        (0x2F : UInt8) ∉ utf8 text ∧ (0 : UInt8) ∉ utf8 text := by
      rw [hbytes]
      exact ⟨name.named, name.plain⟩
    rw [ofText?, dif_pos hname]
    exact congrArg some (ext_bytes hbytes)

end FileName

/-! ## Paths -/

/-- A relative path as text. -/
def pathPoints (path : List FileName) : List Point :=
  [Point.scalar '/'].intercalate (path.map FileName.points)

/-- The path that a text spells. -/
def nativePath? (text : List Char) : Option (List FileName) :=
  (text.splitOn '/').mapM FileName.ofText?

/-- Parts are read one by one when each reading is told by its own text. -/
theorem mapM_eq_some_iff {A B C : Type} {f : A → Option B} {g : B → C} {h : A → C}
    (hf : ∀ x y, f x = some y ↔ g y = h x) {xs : List A} {ys : List B} :
    xs.mapM f = some ys ↔ ys.map g = xs.map h := by
  induction xs generalizing ys with
  | nil =>
      rw [List.mapM_nil, List.map_nil, List.map_eq_nil_iff]
      exact ⟨fun heq => (Option.some.inj heq).symm, fun heq => congrArg some heq.symm⟩
  | cons x xs ih =>
      rw [List.mapM_cons]
      constructor
      · intro hsome
        obtain ⟨y, hy, hrest⟩ := Option.bind_eq_some_iff.mp hsome
        obtain ⟨zs, hzs, hout⟩ := Option.bind_eq_some_iff.mp hrest
        cases hout
        rw [List.map_cons, List.map_cons, (hf x y).mp hy, ih.mp hzs]
      · intro hmap
        cases ys with
        | nil => cases hmap
        | cons y ys =>
            obtain ⟨hhead, hrest⟩ := List.cons.inj hmap
            rw [(hf x y).mpr hhead, ih.mpr hrest]
            rfl

theorem splitOn_map {A B : Type} [DecidableEq A] [DecidableEq B] {f : A → B}
    (hf : Function.Injective f) (sep : A) (xs : List A) :
    (xs.map f).splitOn (f sep) = (xs.splitOn sep).map (List.map f) := by
  induction xs with
  | nil => rfl
  | cons x xs ih =>
      rw [List.map_cons]
      by_cases hx : x = sep
      · rw [hx, LineText.splitOn_cons_sep, LineText.splitOn_cons_sep, ih]
        rfl
      · rw [LineText.splitOn_cons_of_ne (hf.ne hx), LineText.splitOn_cons_of_ne hx, ih]
        cases xs.splitOn sep <;> rfl

theorem scalar_injective : Function.Injective Point.scalar := fun _ _ h => Point.scalar.inj h

theorem splitOn_pathPoints {path : List FileName} (hne : path ≠ []) :
    (pathPoints path).splitOn (Point.scalar '/') = path.map FileName.points := by
  refine List.splitOn_intercalate _ (fun part hpart => ?_) ?_
  · obtain ⟨name, -, rfl⟩ := List.mem_map.mp hpart
    exact name.slash_notMem_points
  · simpa using hne

theorem pathPoints_injOn {path other : List FileName} (hne : path ≠ []) (hne' : other ≠ [])
    (h : pathPoints path = pathPoints other) : path = other := by
  have hsplit := splitOn_pathPoints hne
  rw [h, splitOn_pathPoints hne'] at hsplit
  exact List.map_injective_iff.mpr FileName.points_injective hsplit.symm

/-- What stands between the slashes of a path stands in its names. -/
theorem mem_pathPoints {path : List FileName} {p : Point} (hp : p ≠ Point.scalar '/') :
    p ∈ pathPoints path ↔ ∃ name ∈ path, p ∈ name.points := by
  constructor
  · intro h
    induction path with
    | nil => cases h
    | cons name rest ih =>
        rw [pathPoints, List.map_cons, LineText.intercalate_cons] at h
        rcases List.mem_append.mp h with hname | hrest
        · exact ⟨name, List.mem_cons_self, hname⟩
        · obtain ⟨points, hpoints, hin⟩ := List.mem_flatMap.mp hrest
          obtain ⟨other, hother, rfl⟩ := List.mem_map.mp hpoints
          rcases List.mem_append.mp hin with hslash | hin
          · exact absurd (List.mem_singleton.mp hslash) hp
          · exact ⟨other, List.mem_cons_of_mem name hother, hin⟩
  · rintro ⟨name, hname, hin⟩
    have hne : path ≠ [] := List.ne_nil_of_mem hname
    have hline : name.points ∈ (pathPoints path).splitOn (Point.scalar '/') := by
      rw [splitOn_pathPoints hne]
      exact List.mem_map_of_mem hname
    exact LineText.mem_of_mem_splitOn hline hin

/-- A path is the one that its reading spells. -/
theorem nativePath?_eq_some_iff {text : List Char} {path : List FileName} (hne : path ≠ []) :
    nativePath? text = some path ↔ pathPoints path = text.map Point.scalar := by
  rw [nativePath?, mapM_eq_some_iff fun _ _ => FileName.ofText?_eq_some_iff,
    ← splitOn_pathPoints hne, ← splitOn_map scalar_injective]
  constructor
  · intro h
    have hjoined := congrArg [Point.scalar '/'].intercalate h
    rwa [List.intercalate_splitOn, List.intercalate_splitOn] at hjoined
  · exact fun h => congrArg (List.splitOn (Point.scalar '/')) h

theorem nativePath?_ne_nil {text : List Char} {path : List FileName}
    (h : nativePath? text = some path) : path ≠ [] := by
  rintro rfl
  rw [nativePath?, mapM_eq_some_iff fun _ _ => FileName.ofText?_eq_some_iff] at h
  exact List.splitOn_ne_nil '/' text (List.map_eq_nil_iff.mp h.symm)

end Foundation
