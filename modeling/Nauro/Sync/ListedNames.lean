import Nauro.Sync.Collisions

/-!
# Names that a scan lists

* `isListedName_renumbered`, `isListedName_canonical` — a name that a run writes is listed.
-/

namespace Nauro
namespace Sync

open Foundation Core

/-! ## Components -/

/-- No component is a parent, and each that counts can be folded. -/
structure SafeComponents (tables : SyncTables) (components : List Text) : Prop where
  noParent : "..".toList ∉ components
  folds : ∀ component ∈ components, component ≠ [] → component ≠ ['.'] →
    ∃ folded, foldSemanticComponent tables component = .ok folded

variable {tables : SyncTables}

theorem forwardSlashes_append (front back : Text) :
    forwardSlashes (front ++ back) = forwardSlashes front ++ forwardSlashes back :=
  List.map_append

theorem pathComponents_decision (name : Text) :
    pathComponents (Core.decisionsDir ++ '/' :: name) = Core.decisionsDir :: pathComponents name := by
  have hdir : '/' ∉ forwardSlashes Core.decisionsDir := by decide
  have hsplit : forwardSlashes (Core.decisionsDir ++ '/' :: name) =
      forwardSlashes Core.decisionsDir ++ '/' :: forwardSlashes name :=
    forwardSlashes_append _ _
  rw [pathComponents, hsplit, LineText.splitOn_append_sep, List.splitOn_eq_singleton hdir]
  rfl

theorem slash_notMem_component {raw component : Text} (h : component ∈ pathComponents raw) :
    '/' ∉ component ∧ '\\' ∉ component := by
  refine ⟨fun hin => LineText.notMem_of_mem_splitOn h hin, fun hin => ?_⟩
  have hpart : '\\' ∈ forwardSlashes raw :=
    LineText.mem_of_mem_splitOn h hin
  obtain ⟨c, -, hc⟩ := List.mem_map.mp hpart
  split_ifs at hc with hback
  · exact absurd hc (by decide)
  · exact hback hc

theorem fold_decisionsDir (hlawful : tables.Lawful) :
    ∃ folded, foldSemanticComponent tables Core.decisionsDir = .ok folded := by
  have hascii : ∀ c ∈ Core.decisionsDir, c.toNat < 128 := forall_mem_of_all (by decide)
  have hfold : casefold tables Core.decisionsDir = Core.decisionsDir := by
    rw [casefold_ascii hlawful hascii]
    decide
  have hbase : trimmedBase (Core.decisionsDir.takeWhile (· ≠ ':')) = Core.decisionsDir := by decide
  refine ⟨Core.decisionsDir, ?_⟩
  unfold foldSemanticComponent
  simp only [hbase, hfold]
  rfl

/-- A path below the directory of decisions is relative, unless it names a parent. -/
theorem syncInputFailure_decision (hlawful : tables.Lawful) (name : Text) :
    syncInputFailure tables (Core.decisionsDir ++ '/' :: name) =
      if "..".toList ∈ Core.decisionsDir :: pathComponents name then some .rawParent else none := by
  have hraw : Core.decisionsDir ++ '/' :: name = 'd' :: 'e' :: ("cisions".toList ++ '/' :: name) := rfl
  have hfold : casefold tables (backSlashes (Core.decisionsDir ++ '/' :: name)) =
      'd' :: casefold tables (backSlashes ('e' :: ("cisions".toList ++ '/' :: name))) :=
    casefold_cons_ascii hlawful (by decide) _
  have hdevice : (devicePrefixes.any fun device =>
      device.isPrefixOf (casefold tables (backSlashes (Core.decisionsDir ++ '/' :: name)))) = false := by
    rw [hfold]
    rfl
  unfold syncInputFailure
  simp only [hdevice, pathComponents_decision]
  rw [hraw]
  rfl

theorem classifySyncPath_decision (hlawful : tables.Lawful) (name : Text) :
    (∀ reason, classifySyncPath tables (Core.decisionsDir ++ '/' :: name) ≠ .unsafePath reason) ↔
      SafeComponents tables (pathComponents name) := by
  have hdirParent : "..".toList ≠ Core.decisionsDir := by decide
  unfold classifySyncPath
  rw [syncInputFailure_decision hlawful, pathComponents_decision]
  by_cases hparent : "..".toList ∈ pathComponents name
  · rw [if_pos (List.mem_cons_of_mem _ hparent)]
    exact ⟨fun h => absurd rfl (h _), fun h => absurd hparent h.noParent⟩
  · have hnone : "..".toList ∉ Core.decisionsDir :: pathComponents name := by
      rw [List.mem_cons]
      exact not_or.mpr ⟨hdirParent, hparent⟩
    rw [if_neg hnone]
    simp only
    have hplain : ∀ component ∈ (Core.decisionsDir :: pathComponents name).filter
        (fun component => decide (component ≠ [] ∧ component ≠ ['.'])),
        IsPlainComponent component := by
      intro component hin
      obtain ⟨hmem, hkept⟩ := List.mem_filter.mp hin
      refine ⟨(of_decide_eq_true hkept).1, ?_⟩
      rcases List.mem_cons.mp hmem with rfl | hmem
      · exact ⟨by decide, by decide⟩
      · exact slash_notMem_component hmem
    rw [classifyComponentPath_plain hplain]
    constructor
    · intro h
      refine ⟨hparent, fun component hin hne hdot => ?_⟩
      cases hall : ((Core.decisionsDir :: pathComponents name).filter
          (fun component => decide (component ≠ [] ∧ component ≠ ['.']))).mapM
            (foldSemanticComponent tables) with
      | error reason =>
          rw [hall] at h
          exact absurd rfl (h reason)
      | ok folded =>
          obtain ⟨value, -, hvalue⟩ := (mem_of_mapM_ok hall).1 component
            (List.mem_filter.mpr ⟨List.mem_cons_of_mem _ hin, decide_eq_true ⟨hne, hdot⟩⟩)
          exact ⟨value, hvalue⟩
    · intro h reason
      have hfolds : ∀ component ∈ (Core.decisionsDir :: pathComponents name).filter
          (fun component => decide (component ≠ [] ∧ component ≠ ['.'])),
          ∃ folded, foldSemanticComponent tables component = .ok folded := by
        intro component hin
        obtain ⟨hmem, hkept⟩ := List.mem_filter.mp hin
        obtain ⟨hne, hdot⟩ := of_decide_eq_true hkept
        rcases List.mem_cons.mp hmem with rfl | hmem
        · exact fold_decisionsDir hlawful
        · exact h.folds component hmem hne hdot
      obtain ⟨folded, hall⟩ := exists_mapM_ok hfolds
      rw [hall]
      simp only
      cases folded with
      | nil =>
          refine absurd rfl (mapM_fold_ne_nil ?_ hall)
          exact List.cons_ne_nil _ _
      | cons first rest =>
          rw [classifyFolded]
          split_ifs
          · exact fun hreason => by cases hreason
          · exact fun hreason => by cases hreason
          · exact fun hreason => by cases hreason

theorem isListedName_iff (hlawful : tables.Lawful) {name : Text} :
    isListedName tables name = true ↔
      SafeComponents tables (pathComponents name) ∧
        decisionSuffix.isSuffixOf (casefold tables name) = true := by
  rw [← classifySyncPath_decision hlawful, isListedName]
  cases hclass : classifySyncPath tables (Core.decisionsDir ++ '/' :: name) with
  | ordinary => exact ⟨fun h => ⟨fun reason hreason => (by cases hreason), h⟩, fun h => h.2⟩
  | reservedControl => exact ⟨fun h => ⟨fun reason hreason => (by cases hreason), h⟩, fun h => h.2⟩
  | unsafePath reason => exact ⟨fun h => (by cases h), fun h => absurd rfl (h.1 reason)⟩

/-! ## Names that a run writes -/

theorem pathComponents_append {front : Text} (hfront : '/' ∉ front ∧ '\\' ∉ front) (back : Text) :
    pathComponents (front ++ back) = (pathComponents back).modifyHead (front ++ ·) := by
  obtain ⟨hslash, hback⟩ := hfront
  rw [pathComponents, forwardSlashes_append, forwardSlashes_eq_self hback, pathComponents]
  induction front with
  | nil =>
      show (forwardSlashes back).splitOn '/' = _
      cases (forwardSlashes back).splitOn '/' <;> rfl
  | cons c front ih =>
      have hne : c ≠ '/' := fun heq => hslash (heq ▸ List.mem_cons_self)
      rw [List.cons_append, LineText.splitOn_cons_of_ne hne,
        ih (fun hin => hslash (List.mem_cons_of_mem _ hin))
          fun hin => hback (List.mem_cons_of_mem _ hin)]
      cases (forwardSlashes back).splitOn '/' <;> rfl

theorem casefold_append (front back : Text) :
    casefold tables (front ++ back) = casefold tables front ++ casefold tables back :=
  List.flatMap_append

theorem casefold_suffix (hlawful : tables.Lawful) {name : Text}
    (h : decisionSuffix.isSuffixOf name = true) :
    decisionSuffix.isSuffixOf (casefold tables name) = true := by
  obtain ⟨front, rfl⟩ := List.isSuffixOf_iff_suffix.mp h
  have hascii : ∀ c ∈ decisionSuffix, c.toNat < 128 := forall_mem_of_all (by decide)
  have hfold : casefold tables decisionSuffix = decisionSuffix := by
    rw [casefold_ascii hlawful hascii]
    decide
  rw [casefold_append, hfold]
  exact List.isSuffixOf_iff_suffix.mpr (List.suffix_append _ _)

/-- What a name comes to is no dot and no parent when its first character is folded to itself. -/
theorem fold_of_head (hlawful : tables.Lawful) {c : Char} {rest : Text} (hascii : c.toNat < 128)
    (hspace : c ≠ ' ') (hdot : c ≠ '.') (hcolon : c ≠ ':') (hlower : c.toLower = c) :
    ∃ folded, foldSemanticComponent tables (c :: rest) = .ok folded := by
  have hbase : (c :: rest).takeWhile (· ≠ ':') = c :: rest.takeWhile (· ≠ ':') := by
    rw [List.takeWhile_cons, if_pos (decide_eq_true hcolon)]
  have hdrop : (c :: rest.takeWhile (· ≠ ':')).dropWhile (· = ' ') =
      c :: rest.takeWhile (· ≠ ':') := by
    rw [List.dropWhile_cons, if_neg (by simpa using hspace)]
  have hkept : ∃ more, trimmedBase (c :: rest.takeWhile (· ≠ ':')) = c :: more := by
    unfold trimmedBase
    rw [hdrop]
    generalize rest.takeWhile (· ≠ ':') = tail
    induction tail using List.reverseRecOn with
    | nil =>
        refine ⟨[], List.rdropWhile_concat_neg _ [] _ ?_⟩
        simp [hspace, hdot]
    | append_singleton front last ih =>
        by_cases hlast : (decide (last = ' ') || decide (last = '.')) = true
        · have hshorter := List.rdropWhile_concat_pos
            (fun c => decide (c = ' ') || decide (c = '.')) (c :: front) last hlast
          rw [← List.cons_append, hshorter]
          exact ih
        · have hsame := List.rdropWhile_concat_neg
            (fun c => decide (c = ' ') || decide (c = '.')) (c :: front) last hlast
          rw [← List.cons_append, hsame]
          exact ⟨_, List.cons_append ..⟩
  obtain ⟨more, hmore⟩ := hkept
  have hfold : casefold tables (c :: more) = c :: casefold tables more := by
    rw [casefold_cons_ascii hlawful hascii, hlower]
  refine ⟨c :: casefold tables more, ?_⟩
  unfold foldSemanticComponent
  simp only [hbase, hmore, hfold]
  rw [if_neg (List.cons_ne_nil _ _), if_neg, if_neg]
  · intro heq
    exact hdot (List.cons.inj heq).1
  · intro heq
    exact hdot (List.cons.inj heq).1

theorem head_of_isDigit {c : Char} (h : c.isDigit = true) :
    c.toNat < 128 ∧ c ≠ ' ' ∧ c ≠ '.' ∧ c ≠ ':' ∧ c ≠ '/' ∧ c ≠ '\\' ∧ c.toLower = c := by
  have hnat := toNat_of_isDigit h
  refine ⟨by omega, ?_, ?_, ?_, ?_, ?_, toLower_eq_self (by omega)⟩
  all_goals
    rintro rfl
    exact absurd h (by decide)

section Renumbered

variable {tables : PullTables}

/-- What is taken off a name is digits and a dash, or nothing. -/
theorem stripNumberPrefix_split (hlawful : tables.Lawful) (name : Text) :
    ∃ front, name = front ++ stripNumberPrefix tables.toFilenameTables name ∧
      ('/' ∉ front ∧ '\\' ∉ front) ∧ '.' ∉ front := by
  have hdigits : ∀ c ∈ name.takeWhile tables.isDigit, tables.isDigit c = true :=
    fun c hin => List.mem_takeWhile_imp hin
  have hnot : ∀ c : Char, c.toNat < 128 → c.isDigit = false → c ≠ '-' →
      c ∉ name.takeWhile tables.isDigit ++ ['-'] := by
    intro c hascii hdigit hdash hin
    rcases List.mem_append.mp hin with hin | hin
    · have htrue := (hlawful.names.digit_ascii c hascii).symm.trans (hdigits c hin)
      rw [hdigit] at htrue
      cases htrue
    · exact hdash (List.mem_singleton.mp hin)
  have hkept := List.takeWhile_append_dropWhile (p := tables.isDigit) (l := name)
  unfold stripNumberPrefix
  simp only
  split
  · rename_i rest hrest
    split_ifs with hne
    · refine ⟨name.takeWhile tables.isDigit ++ ['-'], ?_, ⟨hnot '/' (by decide) (by decide) (by decide),
        hnot '\\' (by decide) (by decide) (by decide)⟩, hnot '.' (by decide) (by decide) (by decide)⟩
      rw [List.append_assoc, List.singleton_append, ← hrest, List.prefix_iff_eq_append.mp (List.takeWhile_prefix _)]
    · exact ⟨[], rfl, ⟨List.not_mem_nil, List.not_mem_nil⟩, List.not_mem_nil⟩
  · exact ⟨[], rfl, ⟨List.not_mem_nil, List.not_mem_nil⟩, List.not_mem_nil⟩

theorem suffix_stripNumberPrefix (hlawful : tables.Lawful) {name : Text}
    (h : decisionSuffix.isSuffixOf name = true) :
    decisionSuffix.isSuffixOf (stripNumberPrefix tables.toFilenameTables name) = true := by
  obtain ⟨front, hname, -, hdot⟩ := stripNumberPrefix_split hlawful name
  obtain ⟨before, hbefore⟩ := List.isSuffixOf_iff_suffix.mp h
  refine List.isSuffixOf_iff_suffix.mpr ?_
  rcases List.append_eq_append_iff.mp (hbefore.trans hname) with ⟨mid, hmid, hsuffix⟩ | ⟨mid, hmid, hsuffix⟩
  · -- the dot of the suffix is behind what is taken off
    cases mid with
    | nil =>
        rw [List.nil_append] at hsuffix
        exact hsuffix ▸ List.suffix_rfl
    | cons c mid =>
        have hc : c = '.' := (List.cons.inj hsuffix).1.symm
        refine absurd ?_ hdot
        rw [hmid, hc]
        exact List.mem_append_right _ List.mem_cons_self
  · rw [hsuffix]
    exact List.suffix_append _ _

theorem suffix_renumbered (hlawful : tables.Lawful) {name : Text}
    (h : decisionSuffix.isSuffixOf name = true) (newNum : Nat) :
    decisionSuffix.isSuffixOf (renumberedName tables.toFilenameTables newNum name) = true := by
  obtain ⟨before, hbefore⟩ := List.isSuffixOf_iff_suffix.mp (suffix_stripNumberPrefix hlawful h)
  rw [renumberedName, ← hbefore, ← List.append_assoc]
  exact List.isSuffixOf_iff_suffix.mpr (List.suffix_append _ _)

theorem extract_renumbered (hlawful : tables.Lawful) (newNum : Nat) (name : Text) :
    extractDecisionNumber tables.toUnicodeTables
      (renumberedName tables.toFilenameTables newNum name) = some newNum :=
  extractDecisionNumber_prefix hlawful.names.core newNum _

/-- A listed file is listed under its new number. -/
theorem isListedName_renumbered (hlawful : tables.Lawful) {name : Text}
    (hlisted : isListedName tables.toSyncTables name = true)
    (hsuffix : decisionSuffix.isSuffixOf name = true) (newNum : Nat) :
    isListedName tables.toSyncTables (renumberedName tables.toFilenameTables newNum name) = true := by
  have hsafe := ((isListedName_iff hlawful.paths).mp hlisted).1
  refine (isListedName_iff hlawful.paths).mpr
    ⟨?_, casefold_suffix hlawful.paths (suffix_renumbered hlawful hsuffix newNum)⟩
  obtain ⟨front, hname, hfront, -⟩ := stripNumberPrefix_split hlawful name
  obtain ⟨digit, digits, hpad, hdigit⟩ := exists_digit_padNumber 3 newNum
  have hdest : renumberedName tables.toFilenameTables newNum name =
      (digit :: (digits ++ ['-'])) ++ stripNumberPrefix tables.toFilenameTables name := by
    rw [renumberedName, hpad]
    rfl
  have hclean : '/' ∉ digit :: (digits ++ ['-']) ∧ '\\' ∉ digit :: (digits ++ ['-']) := by
    have hchars : ∀ c ∈ digit :: (digits ++ ['-']), c ≠ '/' ∧ c ≠ '\\' := by
      intro c hin
      rw [← List.cons_append, ← hpad] at hin
      rcases List.mem_append.mp hin with hin | hin
      · have hc := head_of_isDigit (isDigit_of_mem_padNumber hin)
        exact ⟨hc.2.2.2.2.1, hc.2.2.2.2.2.1⟩
      · rw [List.mem_singleton.mp hin]
        exact ⟨by decide, by decide⟩
    exact ⟨fun hin => (hchars _ hin).1 rfl, fun hin => (hchars _ hin).2 rfl⟩
  rw [hname, pathComponents_append hfront] at hsafe
  rw [hdest, pathComponents_append hclean]
  cases hparts : pathComponents (stripNumberPrefix tables.toFilenameTables name) with
  | nil => exact ⟨List.not_mem_nil, fun _ hin => absurd hin List.not_mem_nil⟩
  | cons first rest =>
      rw [hparts, List.modifyHead_cons] at hsafe
      rw [List.modifyHead_cons]
      have hhead := head_of_isDigit hdigit
      constructor
      · rw [List.mem_cons]
        rintro (heq | hin)
        · exact hhead.2.2.1 (List.cons.inj heq).1.symm
        · exact hsafe.noParent (List.mem_cons_of_mem _ hin)
      · intro component hin hne hdot
        rcases List.mem_cons.mp hin with rfl | hin
        · exact fold_of_head hlawful.paths hhead.1 hhead.2.1 hhead.2.2.1 hhead.2.2.2.1
            hhead.2.2.2.2.2.2
        · exact hsafe.folds component (List.mem_cons_of_mem _ hin) hne hdot

end Renumbered

section Canonical

variable {tables : PullTables}

/-- A canonical name is spelled with letters, digits and three signs, and has its suffix. -/
theorem canonical_chars (hlawful : tables.Lawful) {name : Text}
    (h : isCanonicalFilename tables.toFilenameTables name = true) :
    decisionSuffix.isSuffixOf name = true ∧ name = lower tables.toUnicodeTables name ∧
      '/' ∉ name ∧ '\\' ∉ name ∧ ':' ∉ name ∧ name.head? ≠ some ' ' := by
  unfold isCanonicalFilename at h
  split at h
  · cases h
  rename_i hsuffix
  simp only at h
  split at h
  · cases h
  rename_i hlower
  split at h
  · cases h
  split at h
  · cases h
  rename_i hall
  rw [Bool.not_eq_true', Bool.not_eq_false] at hsuffix hall
  rw [not_or, not_not] at hlower
  obtain ⟨stem, rfl⟩ := List.isSuffixOf_iff_suffix.mp hsuffix
  have hstem : (stem ++ ".md".toList).take ((stem ++ ".md".toList).length - ".md".toList.length) =
      stem := stem_take stem
  rw [hstem] at hall hlower
  have hnot : ∀ c : Char, c.toNat < 128 → c.isAlphanum = false →
      canonicalExtraChars.contains c = false → c ∉ ".md".toList → c ∉ stem ++ ".md".toList := by
    intro c hascii halnum hextra hmd hin
    rcases List.mem_append.mp hin with hin | hin
    · have htrue := List.all_eq_true.mp hall c hin
      have hfalse := (hlawful.names.alnum_ascii c hascii).trans halnum
      rw [hextra, Bool.or_false] at htrue
      exact Bool.false_ne_true (hfalse.symm.trans htrue)
    · exact hmd hin
  refine ⟨hsuffix, hlower.2, hnot '/' (by decide) (by decide) (by decide) (by decide),
    hnot '\\' (by decide) (by decide) (by decide) (by decide),
    hnot ':' (by decide) (by decide) (by decide) (by decide), fun hhead => ?_⟩
  exact hnot ' ' (by decide) (by decide) (by decide) (by decide) (List.mem_of_mem_head? hhead)

/-- A canonical name is listed. -/
theorem isListedName_canonical (hlawful : tables.Lawful) {name : Text}
    (h : isCanonicalFilename tables.toFilenameTables name = true) :
    isListedName tables.toSyncTables name = true := by
  obtain ⟨hsuffix, -, hslash, hback, hcolon, hspace⟩ := canonical_chars hlawful h
  refine (isListedName_iff hlawful.paths).mpr ⟨?_, casefold_suffix hlawful.paths hsuffix⟩
  have hparts : pathComponents name = [name] := by
    rw [pathComponents, forwardSlashes_eq_self hback, List.splitOn_eq_singleton hslash]
  have hbase : name.takeWhile (· ≠ ':') = name := by
    refine List.takeWhile_eq_self_iff.mpr fun c hin => decide_eq_true ?_
    rintro rfl
    exact hcolon hin
  have htrimmed : trimmedBase name = name := by
    have hdrop : name.dropWhile (· = ' ') = name := by
      refine Trim.dropWhile_eq_self fun c hc => ?_
      refine decide_eq_false ?_
      rintro rfl
      exact hspace hc
    rw [trimmedBase, hdrop]
    obtain ⟨front, rfl⟩ := List.isSuffixOf_iff_suffix.mp hsuffix
    refine Trim.rdropWhile_eq_self fun c hc => ?_
    have hlast : (front ++ decisionSuffix).getLast? = some 'd' := by
      rw [List.getLast?_append_of_ne_nil _ (by decide)]
      rfl
    rw [hlast] at hc
    cases hc
    rfl
  have hfold : ∀ short : Text, short.length < 3 → casefold tables.toSyncTables name ≠ short := by
    rintro short hshort rfl
    have hlength := (List.isSuffixOf_iff_suffix.mp (casefold_suffix hlawful.paths hsuffix)).length_le
    have hthree : decisionSuffix.length = 3 := rfl
    omega
  have hlong : 3 ≤ name.length := (List.isSuffixOf_iff_suffix.mp hsuffix).length_le
  have hne : name ≠ [] := by
    rintro rfl
    exact absurd hlong (by decide)
  rw [hparts]
  constructor
  · rw [List.mem_singleton]
    rintro rfl
    exact absurd hlong (by decide)
  · intro component hin _ _
    rw [List.mem_singleton.mp hin]
    refine ⟨casefold tables.toSyncTables name, ?_⟩
    unfold foldSemanticComponent
    simp only [hbase, htrimmed]
    rw [if_neg hne, if_neg (hfold _ (by decide)), if_neg (hfold _ (by decide))]

end Canonical

end Sync
end Nauro
