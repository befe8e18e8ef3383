import Nauro.Client.Restore

/-!
# The paths that a restore stages

A walk through the staging folder has to meet again what a run put there: the files of the
manifest, the sync state, and the temporary siblings of both.

* `ManifestSafe` — the manifests whose files have ordinary siblings, none of them the sync state.
-/

namespace Nauro
namespace Client

open Foundation Nauro.Core Nauro.Sync

variable {File : Type} {rules : RestoreRules File}

/-! ## Files of a manifest -/

theorem splitOn_of_asPosix {raw : Text} (h : asPosix raw = raw) (hparts : pathParts raw ≠ []) :
    raw.splitOn '/' = pathParts raw := by
  unfold asPosix at h
  rw [if_neg hparts] at h
  have hplain : ∀ part ∈ pathParts raw, '/' ∉ part := fun part hpart =>
    LineText.notMem_of_mem_splitOn (List.mem_filter.mp hpart).1
  have hsplit := List.splitOn_intercalate '/' hplain hparts
  rw [h] at hsplit
  exact hsplit

/-- A path of the manifest with an ordinary spelling is met as ordinary. -/
theorem walkClass_of_manifest {tables : SyncTables} {raw : Text} (hpath : isManifestPath raw = true)
    (hclass : classifySyncPath tables raw = .ordinary) : walkClass tables raw = .ordinary := by
  unfold isManifestPath at hpath
  simp only [Bool.and_eq_true, Bool.not_eq_true', beq_iff_eq, List.contains_eq_mem,
    decide_eq_false_iff_not] at hpath
  obtain ⟨⟨⟨⟨-, hslash⟩, -⟩, -⟩, hposix⟩ := hpath
  have hcomponents : pathComponents raw = raw.splitOn '/' := by
    unfold pathComponents
    rw [forwardSlashes_eq_self hslash]
  have hparts : classifyComponentPath tables (pathParts raw) = .ordinary := by
    unfold classifySyncPath at hclass
    rw [hcomponents] at hclass
    split at hclass
    · cases hclass
    · exact hclass
  have hne : pathParts raw ≠ [] := by
    intro hnil
    rw [hnil] at hparts
    cases hparts
  have hsplit := splitOn_of_asPosix hposix hne
  refine walkClass_of_ordinary (fun component hin => ⟨?_, ?_, ?_⟩) (hsplit ▸ hparts)
  · rw [hsplit] at hin
    have hkeep := (List.mem_filter.mp hin).2
    exact (of_decide_eq_true hkeep).1
  · exact LineText.notMem_of_mem_splitOn hin
  · exact fun hin' => hslash (LineText.mem_of_mem_splitOn hin hin')

/-- What is admitted is a row of the manifest with an ordinary path. -/
theorem admitEntries_spec {rows : List ManifestEntry} {seen : List Text}
    {entries out : Table Text ManifestEntry} {skipped n : Nat}
    (h : admitEntries rules seen entries skipped rows = .ok (out, n)) {path : Text}
    {entry : ManifestEntry} (hentry : out.get? path = some entry) :
    entries.get? path = some entry ∨ (entry ∈ rows ∧ entry.path = path ∧
      classifySyncPath rules.tables path = .ordinary) := by
  induction rows generalizing seen entries skipped with
  | nil =>
      cases h
      exact .inl hentry
  | cons row rest ih =>
      unfold admitEntries at h
      split at h
      · cases h
      · split at h
        · exact (ih h).imp_right fun hrest => ⟨List.mem_cons_of_mem row hrest.1, hrest.2⟩
        · exact (ih h).imp_right fun hrest => ⟨List.mem_cons_of_mem row hrest.1, hrest.2⟩
        · next hclass =>
            rcases ih h with hput | hrest
            · by_cases heq : path = row.path
              · subst heq
                rw [Table.get?_put_self] at hput
                cases hput
                exact .inr ⟨List.mem_cons_self .., rfl, hclass⟩
              · rw [Table.get?_put_of_ne heq] at hput
                exact .inl hput
            · exact .inr ⟨List.mem_cons_of_mem row hrest.1, hrest.2⟩

/-! ## ASCII names -/

/-- An ASCII character that neither separates components nor ends the name of a file. -/
def isPlainChar (c : Char) : Bool :=
  c.toNat < 128 && c != '/' && c != '\\' && c != ':'

theorem isPlainChar_spec {c : Char} (h : isPlainChar c = true) :
    c.toNat < 128 ∧ c ≠ '/' ∧ c ≠ '\\' ∧ c ≠ ':' := by
  simpa [isPlainChar, and_assoc] using h

theorem isPlainComponent_of_chars {name : Text} (hne : name ≠ [])
    (hchars : ∀ c ∈ name, isPlainChar c = true) : IsPlainComponent name :=
  ⟨hne, fun hin => (isPlainChar_spec (hchars _ hin)).2.1 rfl,
    fun hin => (isPlainChar_spec (hchars _ hin)).2.2.1 rfl⟩

variable {tables : SyncTables}

/-- A plain ASCII name folds to its lower case. -/
theorem foldSemanticComponent_ascii (hlawful : tables.Lawful) {name : Text} (hne : name ≠ [])
    (hchars : ∀ c ∈ name, isPlainChar c = true) (htrim : trimmedBase name = name)
    (hdot : name.map Char.toLower ≠ ".".toList) (hparent : name.map Char.toLower ≠ "..".toList) :
    foldSemanticComponent tables name = .ok (name.map Char.toLower) := by
  have hbase : name.takeWhile (· ≠ ':') = name := by
    rw [List.takeWhile_eq_self_iff]
    exact fun c hc => decide_eq_true (isPlainChar_spec (hchars c hc)).2.2.2
  have hfold : casefold tables name = name.map Char.toLower :=
    casefold_ascii hlawful fun c hc => (isPlainChar_spec (hchars c hc)).1
  unfold foldSemanticComponent
  dsimp only
  rw [hbase, htrim, if_neg hne, hfold, if_neg hdot, if_neg hparent]

theorem ascii_of_all {text : Text} (h : (text.all fun c => decide (c.toNat < 128)) = true) :
    ∀ c ∈ text, c.toNat < 128 :=
  fun c hc => of_decide_eq_true (List.all_eq_true.mp h c hc)

/-- Folded components are ordinary unless they are reserved names. -/
theorem classifyFolded_of_lawful (hlawful : tables.Lawful) {first : Text} {rest : List Text}
    (hrecords : submissionRecordsDir ∉ first :: rest)
    (hcontrol : first ∉ [replicaControlRootName, replicaControlLockName]) :
    classifyFolded tables (first :: rest) = .ordinary := by
  have hroot : casefold tables replicaControlRootName = replicaControlRootName := by
    rw [casefold_ascii hlawful (ascii_of_all (by decide))]
    rfl
  have hlock : casefold tables replicaControlLockName = replicaControlLockName := by
    rw [casefold_ascii hlawful (ascii_of_all (by decide))]
    rfl
  have hneither : ¬(first = replicaControlRootName ∨ first = replicaControlLockName) := by
    simpa using hcontrol
  rw [classifyFolded, hroot, hlock, if_neg hrecords, if_neg hneither]

/-! ## Temporary siblings -/

theorem isPlainChar_hexDigit (n : Nat) : isPlainChar (hexDigit n) = true := by
  have hall : ∀ digit : Fin 16, isPlainChar (hexDigit digit) = true := by decide
  have hmod : hexDigit n = hexDigit (n % 16) := by
    unfold hexDigit
    rw [Nat.mod_mod]
  rw [hmod]
  exact hall ⟨n % 16, Nat.mod_lt n (by omega)⟩

variable {name token : Text}

theorem isPlainChar_tokenHex (n : Nat) : ∀ c ∈ tokenHex n, isPlainChar c = true := by
  intro c hc
  obtain ⟨i, -, rfl⟩ := List.mem_map.mp hc
  exact isPlainChar_hexDigit _

theorem isPlainChar_tmpName (hname : ∀ c ∈ name, isPlainChar c = true)
    (htoken : ∀ c ∈ token, isPlainChar c = true) :
    ∀ c ∈ tmpName name token, isPlainChar c = true := by
  have hsuffix : ∀ c ∈ ".tmp".toList, isPlainChar c = true := List.all_eq_true.mp (by decide)
  unfold tmpName
  intro c hc
  rcases List.mem_cons.mp hc with rfl | hc
  · rfl
  · rcases List.mem_append.mp hc with hc | hc
    · exact hname c hc
    · rcases List.mem_cons.mp hc with rfl | hc
      · rfl
      · exact (List.mem_append.mp hc).elim (htoken c) (hsuffix c)

theorem trimmedBase_tmpName : trimmedBase (tmpName name token) = tmpName name token := by
  have hlast : tmpName name token =
      ('.' :: (name ++ '.' :: (token ++ ".tm".toList))) ++ ['p'] := by
    simp [tmpName]
  have hfirst : (tmpName name token).dropWhile (· = ' ') = tmpName name token :=
    List.dropWhile_cons_of_neg (by decide)
  unfold trimmedBase
  rw [hfirst, hlast]
  exact List.rdropWhile_concat_neg _ _ _ (by decide)

theorem length_tmpName : 2 < (tmpName name token).length := by
  simp [tmpName]
  omega

/-- The temporary sibling of a plain name folds to its lower case. -/
theorem foldSemanticComponent_tmpName (hlawful : tables.Lawful)
    (hname : ∀ c ∈ name, isPlainChar c = true) (htoken : ∀ c ∈ token, isPlainChar c = true) :
    foldSemanticComponent tables (tmpName name token) =
      .ok ((tmpName name token).map Char.toLower) := by
  have hlength : 2 < ((tmpName name token).map Char.toLower).length := by
    rw [List.length_map]
    exact length_tmpName
  refine foldSemanticComponent_ascii hlawful (List.cons_ne_nil _ _)
    (isPlainChar_tmpName hname htoken) trimmedBase_tmpName ?_ ?_
  · intro heq
    rw [heq] at hlength
    exact absurd hlength (by decide)
  · intro heq
    rw [heq] at hlength
    exact absurd hlength (by decide)

/-- The temporary sibling of a plain name is met as ordinary when no reserved name can be read
into it. -/
theorem walkClass_tmpSibling (hlawful : tables.Lawful) {path : Text} {dirs folded : List Text}
    (hsplit : path.splitOn '/' = dirs ++ [name])
    (hdirs : ∀ dir ∈ dirs, IsPlainComponent dir)
    (hfold : dirs.mapM (foldSemanticComponent tables) = .ok folded)
    (hname : ∀ c ∈ name, isPlainChar c = true)
    (hclass : ∀ rest, classifyFolded tables
      (folded ++ ['.' :: (name.map Char.toLower ++ '.' :: rest)]) = .ordinary) (n : Nat) :
    walkClass tables (tmpSibling path (tokenHex n)) = .ordinary := by
  have htoken := isPlainChar_tokenHex n
  generalize tokenHex n = token at htoken
  have hplain : ∀ component ∈ dirs ++ [tmpName name token], IsPlainComponent component := by
    intro component hin
    rcases List.mem_append.mp hin with hdir | hlast
    · exact hdirs component hdir
    · rw [List.mem_singleton.mp hlast]
      exact isPlainComponent_of_chars (List.cons_ne_nil _ _) (isPlainChar_tmpName hname htoken)
  have hsibling : (tmpSibling path token).splitOn '/' = dirs ++ [tmpName name token] := by
    unfold tmpSibling
    rw [hsplit]
    dsimp only
    rw [List.dropLast_concat, List.getLastD_concat]
    exact List.splitOn_intercalate '/' (fun component hin => (hplain component hin).2.1) (by simp)
  refine walkClass_of_ordinary (hsibling ▸ hplain) ?_
  rw [hsibling, classifyComponentPath_plain hplain, List.mapM_append, hfold, List.mapM_cons,
    foldSemanticComponent_tmpName hlawful hname htoken]
  have hlower : (tmpName name token).map Char.toLower =
      '.' :: (name.map Char.toLower ++ '.' :: (token ++ ".tmp".toList).map Char.toLower) := by
    simp [tmpName]
  show classifyFolded tables (folded ++ [(tmpName name token).map Char.toLower]) = .ordinary
  rw [hlower]
  exact hclass _

/-! ## The sync state -/

/-- A text whose first three characters begin no text of a list is not in the list. -/
theorem notMem_of_take_three {text : Text} {others : List Text}
    (h : text.take 3 ∉ others.map (List.take 3)) : text ∉ others :=
  fun hin => h (List.mem_map_of_mem hin)

theorem walkClass_syncStateFile (hlawful : tables.Lawful) :
    walkClass tables syncStateFile = .ordinary := by
  have hsplit : syncStateFile.splitOn '/' = [syncStateFile] :=
    List.splitOn_eq_singleton (by decide)
  have hchars : ∀ c ∈ syncStateFile, isPlainChar c = true := List.all_eq_true.mp (by decide)
  have hplain : ∀ component ∈ [syncStateFile], IsPlainComponent component := by
    intro component hin
    rw [List.mem_singleton.mp hin]
    exact isPlainComponent_of_chars (by decide) hchars
  refine walkClass_of_ordinary (hsplit ▸ hplain) ?_
  rw [hsplit, classifyComponentPath_plain hplain, List.mapM_cons,
    foldSemanticComponent_ascii hlawful (by decide) hchars (by decide) (by decide) (by decide)]
  exact classifyFolded_of_lawful hlawful (by decide) (by decide)

theorem walkClass_tmp_syncStateFile (hlawful : tables.Lawful) (n : Nat) :
    walkClass tables (tmpSibling syncStateFile (tokenHex n)) = .ordinary := by
  have hsplit : syncStateFile.splitOn '/' = [] ++ [syncStateFile] :=
    List.splitOn_eq_singleton (by decide)
  have hfold : [].mapM (foldSemanticComponent tables) = .ok [] := rfl
  refine walkClass_tmpSibling hlawful hsplit (fun _ h => absurd h List.not_mem_nil) hfold
    (List.all_eq_true.mp (by decide)) (fun rest => classifyFolded_of_lawful hlawful ?_ ?_) n
  · refine notMem_of_take_three ?_
    show submissionRecordsDir.take 3 ∉ [['.', '.', 's']]
    decide
  · refine notMem_of_take_three ?_
    show ['.', '.', 's'] ∉ [replicaControlRootName, replicaControlLockName].map (List.take 3)
    decide

/-! ## Safe manifests -/

/-- No file of the manifest is the sync state, and their temporary siblings are met as ordinary:
the name of none of them is a reserved one. -/
def ManifestSafe (rules : RestoreRules File) (world : RestoreWorld) : Prop :=
  ∀ rows entry, world.manifest = some rows → entry ∈ rows →
    classifySyncPath rules.tables entry.path = .ordinary →
      entry.path ≠ syncStateFile ∧
        ∀ n, walkClass rules.tables (tmpSibling entry.path (tokenHex n)) = .ordinary

/-- What the admitted files of a safe manifest are. -/
def EntriesSafe (rules : RestoreRules File) (entries : Table Text ManifestEntry) : Prop :=
  ∀ path entry, entries.get? path = some entry →
    walkClass rules.tables path = .ordinary ∧ path ≠ syncStateFile ∧
      ∀ n, walkClass rules.tables (tmpSibling path (tokenHex n)) = .ordinary

theorem ManifestSafe.entries {world : RestoreWorld} {entries : Table Text ManifestEntry}
    {skipped : Nat} (h : ManifestSafe rules world)
    (hentries : admittedEntries rules world.manifest = .ok (entries, skipped)) :
    EntriesSafe rules entries := by
  intro path entry hentry
  unfold admittedEntries at hentries
  split at hentries
  · cases hentries
  · next rows hmanifest =>
      split at hentries
      · next hpaths =>
          rcases admitEntries_spec hentries hentry with hnone | ⟨hrow, rfl, hclass⟩
          · cases hnone
          · have hmanifestPath := List.all_eq_true.mp hpaths entry hrow
            exact ⟨walkClass_of_manifest hmanifestPath hclass, h rows entry hmanifest hrow hclass⟩
      · cases hentries

end Client
end Nauro
