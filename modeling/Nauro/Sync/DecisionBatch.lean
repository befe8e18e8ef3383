import Nauro.Sync.CorpusUpkeep

/-!
# What one row of a pull does
-/

namespace Nauro
namespace Sync

open Foundation Core
open EscapedUtf8 (utf8)

variable {E : Type} {tables : PullTables} {yaml : Yaml E}

/-! ## Changes of the directory -/

/-- A file stands under another name, that was free. -/
structure Moves (before after : DecisionStore) (old new : Text) (bytes bytes' : Bytes) : Prop where
  held : before.content? old = some bytes
  free : before.entryAt? new = none
  entries : ∀ name, after.entryAt? name =
    if name = new then some (.regular (some bytes'))
    else if name = old then none else before.entryAt? name

/-- A file stands under a name that was free. -/
structure Gains (before after : DecisionStore) (new : Text) (bytes : Bytes) : Prop where
  free : before.entryAt? new = none
  entries : ∀ name, after.entryAt? name =
    if name = new then some (.regular (some bytes)) else before.entryAt? name

theorem Moves.of_rename {before after : DecisionStore} {old new : Text} {bytes : Bytes}
    (hrenamed : before.rename? old new = some after) (hheld : before.content? old = some bytes)
    (hfree : before.entryAt? new = none) : Moves before after old new bytes bytes := by
  obtain ⟨entry, hentry, hafter⟩ := entryAt?_rename hrenamed
  have hsame : entry = .regular (some bytes) :=
    Option.some.inj (hentry.symm.trans (entryAt?_of_content? hheld))
  rw [hsame] at hafter
  exact ⟨hheld, hfree, hafter⟩

theorem Moves.write {before after : DecisionStore} {old new : Text} {bytes bytes' : Bytes}
    (h : Moves before after old new bytes bytes') (written : Bytes) :
    Moves before (after.write new written) old new bytes written where
  held := h.held
  free := h.free
  entries name := by
    rw [entryAt?_write, h.entries name]
    split_ifs <;> rfl

theorem Gains.of_place {before after : DecisionStore} {new : Text} {bytes : Bytes}
    (hplaced : before.place? new (.regular (some bytes)) = some after)
    (hfree : before.entryAt? new = none) : Gains before after new bytes :=
  ⟨hfree, entryAt?_place hplaced⟩

/-- A write of what a file holds changes nothing. -/
theorem write_eq_self {store : DecisionStore} {name : Text} {bytes : Bytes}
    (h : store.content? name = some bytes) : store.write name bytes = store := by
  refine DecisionStore.ext ?_ rfl
  have hsame : ∀ entry ∈ store.entries, writeEntry name bytes entry = entry := by
    rintro ⟨other, value⟩ hin
    rw [writeEntry]
    split_ifs with hname
    · cases hname
      have hentry := Option.some.inj ((entryAt?_iff.mpr hin).symm.trans (entryAt?_of_content? h))
      rw [hentry]
    · rfl
  exact (List.map_congr_left hsame).trans (List.map_id _)

/-! ## Unique numbers -/

/-- No two decision files hold one number. -/
def UniqueNumbers (tables : SyncTables) (store : DecisionStore) : Prop :=
  ∀ file ∈ store.files tables, ∀ other ∈ store.files tables, file.number = other.number → file = other

theorem uniqueNumbers_iff {tables : SyncTables} {store : DecisionStore} :
    UniqueNumbers tables store ↔ ∀ name other number, store.number? tables name = some number →
      store.number? tables other = some number → name = other := by
  constructor
  · intro h name other number hname hother
    obtain ⟨file, hfile, rfl, hnumber⟩ := number?_eq_some.mp hname
    obtain ⟨file', hfile', rfl, hnumber'⟩ := number?_eq_some.mp hother
    rw [h file hfile file' hfile' (hnumber.trans hnumber'.symm)]
  · intro h file hfile other hother hnumber
    refine file_eq_of_name hfile hother (h file.name other.name file.number ?_ ?_)
    · exact number?_eq_some.mpr ⟨file, hfile, rfl, rfl⟩
    · exact number?_eq_some.mpr ⟨other, hother, rfl, hnumber.symm⟩

theorem number?_gains {before after : DecisionStore} {new : Text} {bytes : Bytes}
    (h : Gains before after new bytes) (name : Text) :
    after.number? tables.toSyncTables name =
      if name = new then decisionNumber? tables.toSyncTables name
      else before.number? tables.toSyncTables name := by
  have hentry := h.entries name
  split_ifs at hentry ⊢
  · exact number?_of_entry hentry
  · exact number?_congr hentry

theorem number?_moves {before after : DecisionStore} {old new : Text} {bytes bytes' : Bytes}
    (h : Moves before after old new bytes bytes') (name : Text) :
    after.number? tables.toSyncTables name =
      if name = new then decisionNumber? tables.toSyncTables name
      else if name = old then none else before.number? tables.toSyncTables name := by
  have hentry := h.entries name
  split_ifs at hentry ⊢
  · exact number?_of_entry hentry
  · rw [DecisionStore.number?, hentry]
  · exact number?_congr hentry

/-- A file that comes under a number that nobody else holds keeps the numbers unique. -/
theorem unique_of_number? {before after : DecisionStore} (new : Text)
    (hunique : UniqueNumbers tables.toSyncTables before)
    (hothers : ∀ {name number}, name ≠ new → after.number? tables.toSyncTables name = some number →
      before.number? tables.toSyncTables name = some number ∧
        decisionNumber? tables.toSyncTables new ≠ some number)
    (hnew : after.number? tables.toSyncTables new = decisionNumber? tables.toSyncTables new) :
    UniqueNumbers tables.toSyncTables after := by
  rw [uniqueNumbers_iff] at hunique ⊢
  intro name other number hname hother
  by_cases hn : name = new
  · by_cases ho : other = new
    · rw [hn, ho]
    · rw [hn, hnew] at hname
      exact absurd hname (hothers ho hother).2
  · by_cases ho : other = new
    · rw [ho, hnew] at hother
      exact absurd hother (hothers hn hname).2
    · exact hunique name other number (hothers hn hname).1 (hothers ho hother).1

/-! ## The state of a run -/

/-- What every run keeps: the corpus lists what is there, and the numbers are unique. -/
structure BatchRun.Sound (tables : PullTables) (run : BatchRun) : Prop where
  tracks : Tracks tables run.store run.corpus
  unique : UniqueNumbers tables.toSyncTables run.store

def BatchRun.IsRecorded (run : BatchRun) : Prop :=
  Recorded run.store run.corpus

/-- What is left when a file was moved to another number. -/
structure RenumberedTo (tables : PullTables) (manifest : RemoteManifest) (collider : Text)
    (before after : BatchRun) (bytes bytes' : Bytes) : Prop where
  moves : Moves before.store after.store collider
    (renumberedName tables.toFilenameTables (nextNumber before.corpus manifest) collider) bytes bytes'
  decides : decisionNumber? tables.toSyncTables
    (renumberedName tables.toFilenameTables (nextNumber before.corpus manifest) collider) =
      some (nextNumber before.corpus manifest)
  irregular : after.corpus.irregular = before.corpus.irregular
  state : after.state = before.state
  sound : after.Sound tables
  recorded : before.IsRecorded → after.IsRecorded

/-- Where `apply_renumber` may stop, and what it leaves there. -/
inductive RenumberSpec (tables : PullTables) (manifest : RemoteManifest) (collider : Text)
    (number : Nat) (run : BatchRun) : RenumberResult → Prop where
  | rejected (reason : QuarantineReason) :
      RenumberSpec tables manifest collider number run (.rejected reason)
  | raised (error : SyncError) : RenumberSpec tables manifest collider number run (.raised error)
  | untouched : RenumberSpec tables manifest collider number run (.failed run)
  | moved {after : BatchRun} {bytes : Bytes}
      (h : RenumberedTo tables manifest collider run after bytes bytes) :
      RenumberSpec tables manifest collider number run (.failed after)
  | unindexed {after : BatchRun} {bytes : Bytes}
      (h : RenumberedTo tables manifest collider run after bytes
        (repairedBytes bytes number (nextNumber run.corpus manifest))) :
      RenumberSpec tables manifest collider number run (.failed after)
  | done {after : BatchRun} {bytes : Bytes}
      (h : RenumberedTo tables manifest collider run after bytes
        (repairedBytes bytes number (nextNumber run.corpus manifest))) :
      RenumberSpec tables manifest collider number run (.done after)

theorem cr_notMem_rewrite {text : Text} (h : '\r' ∉ text) (oldNum newNum : Nat) :
    '\r' ∉ rewriteDecisionHeading text oldNum newNum := by
  cases hrewritable : hasRewritableHeading text oldNum with
  | false =>
      rw [hasRewritableHeading, Option.isSome_eq_false_iff, Option.isNone_iff_eq_none] at hrewritable
      rw [rewriteDecisionHeading]
      simp only [hrewritable]
      exact h
  | true =>
      obtain ⟨front, piece, rest, hlines, hpiece, hfront⟩ := rewritable_split hrewritable
      obtain ⟨sep, hsep, tail, hread, hrewrite⟩ := rewrite_split (n := newNum) hlines hpiece hfront
      rw [hrewrite]
      intro hin
      rcases List.mem_append.mp hin with hin | hin
      · exact h (hread ▸ List.mem_append_left _ hin)
      · rcases List.mem_append.mp hin with hin | hin
        · exact absurd (prefix_unbroken hsep _ hin) (by decide)
        · exact h (hread ▸ List.mem_append_right _ (List.mem_append_right _ hin))

theorem number_lt_nextNumber {run : BatchRun} (hsound : run.Sound tables) {name : Text}
    {number : Nat} (h : run.store.number? tables.toSyncTables name = some number)
    (manifest : RemoteManifest) : number < nextNumber run.corpus manifest :=
  Nat.lt_succ_of_le (hsound.tracks.number_le h manifest.decisionNumbers)

theorem lt_nextNumber_of_taken (corpus : Corpus) {manifest : RemoteManifest} {taken : Nat}
    (h : taken ∈ manifest.decisionNumbers) : taken < nextNumber corpus manifest :=
  Nat.lt_succ_of_le (le_largestNumber (List.mem_append_right _ h))

/-- A record stays one when its file is moved to a numbered name. -/
theorem Recorded.renamed {before after : DecisionStore} {corpus : Corpus} {old new : Text}
    {bytes : Bytes} {number : Nat} (h : Recorded before corpus)
    (hmoves : Moves before after old new bytes bytes)
    (hnumber : extractDecisionNumber tables.toUnicodeTables new = some number) :
    Recorded after (corpus.recordRenamed tables old new (readTextLenient bytes)) := by
  refine h.replace (fun hnone => ?_) (fun other file hne hfile => ?_) ?_
  · rw [hnumber] at hnone
    cases hnone
  · have hold : other ≠ old := by
      rintro rfl
      rw [show (corpus.files.erase other).get? other = none from Table.get?_erase_self _ _] at hfile
      cases hfile
    have hkept := hmoves.entries other
    rw [if_neg hne, if_neg hold] at hkept
    refine ⟨?_, hkept⟩
    rw [← Table.get?_erase_of_ne (t := corpus.files) hold]
    exact hfile
  · rw [content?_eq, hmoves.entries, if_pos rfl]
    rfl

/-- Wherever a renumber stops, the numbers are unique and the corpus lists what is there. -/
theorem renumber_spec (hlawful : tables.Lawful) {run : BatchRun} (hsound : run.Sound tables)
    {collider : Text} (number : Nat) {held : Nat}
    (hheld : run.store.number? tables.toSyncTables collider = some held) (answers : FileAnswers)
    (manifest : RemoteManifest) :
    RenumberSpec tables manifest collider number run
      (applyRenumber tables answers manifest collider number run) := by
  have hown : decisionNumber? tables.toSyncTables collider = some held := by
    rw [DecisionStore.number?] at hheld
    split at hheld
    · exact hheld
    · cases hheld
  obtain ⟨hlisted, hsuffix, -⟩ := decisionNumber?_eq_some hown
  have hlisted' := isListedName_renumbered hlawful hlisted hsuffix (nextNumber run.corpus manifest)
  have hsuffix' := suffix_renumbered hlawful hsuffix (nextNumber run.corpus manifest)
  have hnew := (decisionNumber?_of_listed hlisted' hsuffix').trans
    (extract_renumbered hlawful (nextNumber run.corpus manifest) collider)
  unfold applyRenumber
  simp only
  set newNum := nextNumber run.corpus manifest with hnewNum
  set destination := renumberedName tables.toFilenameTables newNum collider
  split
  · exact .raised _
  split
  · exact .rejected _
  next hname =>
  rw [Bool.not_eq_true] at hname
  have hfree := hsound.tracks.entryAt?_eq_none hlisted' hname
  split
  · exact .untouched
  next bytes hbytes =>
  split
  · exact .raised _
  split
  · exact .rejected _
  split
  · exact .untouched
  split
  · exact .untouched
  next renamed hrenamed =>
  have hmoves := Moves.of_rename hrenamed hbytes hfree
  have htracks : Tracks tables renamed
      (run.corpus.recordRenamed tables collider destination (readTextLenient bytes)) :=
    hsound.tracks.renamed hheld hrenamed hfree hlisted' hsuffix'
  have hunique : ∀ {after : DecisionStore} {bytes'},
      Moves run.store after collider destination bytes bytes' →
      UniqueNumbers tables.toSyncTables after := by
    intro after bytes' hmoves
    refine unique_of_number? destination hsound.unique ?_ ?_
    · intro name other hne hnumber
      rw [number?_moves hmoves, if_neg hne] at hnumber
      split_ifs at hnumber
      refine ⟨hnumber, fun heq => ?_⟩
      rw [hnew] at heq
      exact absurd (Option.some.inj heq) (number_lt_nextNumber hsound hnumber manifest).ne'
    · rw [number?_moves hmoves, if_pos rfl]
  have hnumber' : renamed.number? tables.toSyncTables destination = some newNum := by
    rw [number?_moves hmoves, if_pos rfl, hnew]
  have hrecorded : run.IsRecorded → Recorded renamed
      (run.corpus.recordRenamed tables collider destination (readTextLenient bytes)) := fun hrun =>
    Recorded.renamed hrun hmoves (extract_renumbered hlawful ..)
  split
  · have hto : RenumberedTo tables manifest collider run
        { run with
          store := renamed
          corpus := run.corpus.recordRenamed tables collider destination (readTextLenient bytes) }
        bytes bytes :=
      ⟨hmoves, hnew, replace_irregular .., rfl, ⟨htracks, hunique hmoves⟩, hrecorded⟩
    exact .moved hto
  have hrewritten : RenumberedTo tables manifest collider run
      { run with
        store := renamed.write destination
          (utf8 (rewriteDecisionHeading (readTextLenient bytes) number newNum))
        corpus := (run.corpus.recordRenamed tables collider destination
          (readTextLenient bytes)).recordRewritten tables destination
            (rewriteDecisionHeading (readTextLenient bytes) number newNum) }
      bytes (repairedBytes bytes number newNum) := by
    have hwritten := hmoves.write (utf8 (rewriteDecisionHeading (readTextLenient bytes) number newNum))
    refine ⟨hwritten, hnew, ?_, rfl, ⟨htracks.rewritten hnumber' _, hunique hwritten⟩, fun hrun => ?_⟩
    · exact (replace_irregular ..).trans (replace_irregular ..)
    · refine (hrecorded hrun).replace (fun hnone => ?_) (fun other file hne hfile => ⟨hfile, ?_⟩) ?_
      · rw [extract_renumbered hlawful] at hnone
        cases hnone
      · show (renamed.write destination _).entryAt? other = renamed.entryAt? other
        rw [entryAt?_write, if_neg hne]
      · show ((renamed.write destination _).content? destination).map readTextLenient = _
        rw [content?_eq, hwritten.entries, if_pos rfl]
        exact congrArg some (readTextLenient_utf8
          (cr_notMem_rewrite (cr_notMem_readTextLenient bytes) number newNum))
  split
  · exact .unindexed hrewritten
  · exact .done hrewritten

end Sync
end Nauro
