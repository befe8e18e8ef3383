import Nauro.Sync.CollisionVerdicts

/-!
# The corpus keeps up with the directory

A run tells its corpus of every decision it adds, moves or rewrites.

* `sameView` — the two together make the corpus equal to a fresh scan.
-/

namespace Nauro
namespace Sync

open Foundation Core
open EscapedUtf8 (utf8)

variable {tables : PullTables}

/-- The corpus lists what a fresh scan lists. -/
structure Tracks (tables : PullTables) (store : DecisionStore) (corpus : Corpus) : Prop where
  names : ∀ name, corpus.hasName name = true ↔
    (store.entryAt? name).isSome = true ∧ isListedName tables.toSyncTables name = true
  irregular : corpus.irregular = (Corpus.scan tables.toSyncTables store).irregular
  numbers : ∀ name, (corpus.files.get? name).map CachedFile.number =
    store.number? tables.toSyncTables name

/-- What was recorded of a file is what a read of it gives. -/
def Recorded (store : DecisionStore) (corpus : Corpus) : Prop :=
  ∀ name file text, corpus.files.get? name = some file → file.recorded = some text →
    (store.content? name).map readTextLenient = some text

/-- Two corpora show the same directory. -/
structure Corpus.SameView (store : DecisionStore) (corpus scanned : Corpus) : Prop where
  names : ∀ name, name ∈ corpus.names ↔ name ∈ scanned.names
  irregular : corpus.irregular = scanned.irregular
  files : ∀ name, (corpus.files.get? name).map (fun file => (file.number, file.text store name)) =
    (scanned.files.get? name).map fun file => (file.number, file.text store name)

theorem hasName_iff {corpus : Corpus} {name : Text} :
    corpus.hasName name = true ↔ name ∈ corpus.names :=
  List.contains_iff_mem

theorem Tracks.scan (store : DecisionStore) :
    Tracks tables store (Corpus.scan tables.toSyncTables store) where
  names _ := hasName_iff.trans mem_scan_names
  irregular := rfl
  numbers name := by
    rw [scan_get?, Option.map_map]
    exact Option.map_id'

theorem Recorded.scan (store : DecisionStore) :
    Recorded store (Corpus.scan tables.toSyncTables store) := by
  intro name file text hfile htext
  rw [scan_get?] at hfile
  obtain ⟨number, -, rfl⟩ := Option.map_eq_some_iff.mp hfile
  cases htext

theorem sameView {store : DecisionStore} {corpus : Corpus} (h : Tracks tables store corpus)
    (hrecorded : Recorded store corpus) :
    corpus.SameView store (Corpus.scan tables.toSyncTables store) where
  names name := by rw [← hasName_iff, h.names name, mem_scan_names]
  irregular := h.irregular
  files name := by
    have hnumber := h.numbers name
    rw [scan_get?, ← hnumber, Option.map_map, Option.map_map]
    cases hfile : corpus.files.get? name with
    | none => rfl
    | some file =>
        obtain ⟨number, recorded⟩ := file
        cases recorded with
        | none => rfl
        | some text =>
            have htext := hrecorded name _ text hfile rfl
            exact congrArg some (Prod.ext rfl htext.symm)

/-! ## Reading the listing off the directory -/

theorem Tracks.mem_holders_iff {store : DecisionStore} {corpus : Corpus}
    (h : Tracks tables store corpus) {number : Nat} {name : Text} :
    name ∈ corpus.holders number ↔ store.number? tables.toSyncTables name = some number := by
  rw [mem_holders, ← h.numbers name, Option.map_eq_some_iff]

/-- A listed name that the corpus does not know stands for nothing. -/
theorem Tracks.entryAt?_eq_none {store : DecisionStore} {corpus : Corpus}
    (h : Tracks tables store corpus) {name : Text}
    (hlisted : isListedName tables.toSyncTables name = true) (hname : corpus.hasName name = false) :
    store.entryAt? name = none := by
  cases hentry : store.entryAt? name with
  | none => rfl
  | some entry =>
      have hin := (h.names name).mpr ⟨by rw [hentry]; rfl, hlisted⟩
      rw [hname] at hin
      cases hin

theorem le_largestNumber {number : Nat} {numbers : List Nat} (h : number ∈ numbers) :
    number ≤ largestNumber numbers := by
  induction numbers with
  | nil => cases h
  | cons first rest ih =>
      rw [largestNumber, List.foldr_cons]
      rcases List.mem_cons.mp h with rfl | hin
      · exact le_max_left _ _
      · exact le_trans (ih hin) (le_max_right _ _)

/-- Every number on disk is below the next one. -/
theorem Tracks.number_le {store : DecisionStore} {corpus : Corpus} (h : Tracks tables store corpus)
    {name : Text} {number : Nat} (hnumber : store.number? tables.toSyncTables name = some number)
    (reserved : List Nat) : number ≤ largestNumber (corpus.claimedNumbers ++ reserved) := by
  rw [← h.numbers name] at hnumber
  obtain ⟨file, hfile, rfl⟩ := Option.map_eq_some_iff.mp hnumber
  refine le_largestNumber (List.mem_append_left _ (List.mem_append_left _ ?_))
  exact List.mem_map.mpr ⟨(name, file), Table.mem_entries_iff.mpr hfile, rfl⟩

/-! ## Notices -/

theorem get?_replace (corpus : Corpus) (name text other : Text) :
    (corpus.replace tables name text).files.get? other =
      if other = name then
        match extractDecisionNumber tables.toUnicodeTables name with
        | none => corpus.files.get? name
        | some number => some ⟨number, some text⟩
      else corpus.files.get? other := by
  unfold Corpus.replace
  cases extractDecisionNumber tables.toUnicodeTables name with
  | none =>
      split_ifs with heq
      · rw [heq]
      · rfl
  | some number =>
      show (corpus.files.put name ⟨number, some text⟩).get? other = _
      rw [Table.get?_put]
      simp only [beq_iff_eq]

@[simp] theorem replace_names (corpus : Corpus) (name text : Text) :
    (corpus.replace tables name text).names = corpus.names := by
  unfold Corpus.replace
  split <;> rfl

@[simp] theorem replace_irregular (corpus : Corpus) (name text : Text) :
    (corpus.replace tables name text).irregular = corpus.irregular := by
  unfold Corpus.replace
  split <;> rfl

/-- What the listing says of a name after a decision was put under it. -/
theorem number?_of_entry {store : DecisionStore} {name : Text} {content : Option (List UInt8)}
    (hentry : store.entryAt? name = some (.regular content)) :
    store.number? tables.toSyncTables name = decisionNumber? tables.toSyncTables name := by
  rw [DecisionStore.number?, hentry]

theorem number?_congr {store after : DecisionStore} {name : Text}
    (h : after.entryAt? name = store.entryAt? name) :
    after.number? tables.toSyncTables name = store.number? tables.toSyncTables name := by
  rw [DecisionStore.number?, DecisionStore.number?, h]

/-- `record_added` keeps the listing. -/
theorem Tracks.added {store after : DecisionStore} {corpus : Corpus} {name text : Text}
    {bytes : List UInt8} (h : Tracks tables store corpus)
    (hplaced : store.place? name (.regular (some bytes)) = some after)
    (hfree : store.entryAt? name = none) (hlisted : isListedName tables.toSyncTables name = true)
    (hsuffix : decisionSuffix.isSuffixOf name = true) :
    Tracks tables after (corpus.recordAdded tables name text) where
  names other := by
    rw [hasName_iff, Corpus.recordAdded, replace_names, List.mem_cons, ← hasName_iff, h.names other,
      entryAt?_place hplaced]
    by_cases heq : other = name
    · simp [heq, hlisted]
    · simp [heq]
  irregular := by
    rw [Corpus.recordAdded, replace_irregular, scan_irregular_place hplaced hfree
      (listEntry_ne_irregular hlisted hsuffix _)]
    exact h.irregular
  numbers other := by
    rw [Corpus.recordAdded, get?_replace]
    split_ifs with heq
    · have hentry := entryAt?_place hplaced name
      rw [if_pos rfl] at hentry
      have hnone : corpus.files.get? name = none := by
        have hnumber := h.numbers name
        rw [DecisionStore.number?, hfree] at hnumber
        exact Option.map_eq_none_iff.mp hnumber
      rw [heq, number?_of_entry hentry, decisionNumber?_of_listed hlisted hsuffix]
      cases extractDecisionNumber tables.toUnicodeTables name with
      | none => rw [hnone]; rfl
      | some number => rfl
    · rw [number?_congr ((entryAt?_place hplaced other).trans (if_neg heq))]
      exact h.numbers other

/-- `record_renamed` keeps the listing. -/
theorem Tracks.renamed {store after : DecisionStore} {corpus : Corpus} {old new text : Text}
    (h : Tracks tables store corpus) {number : Nat}
    (hnumber : store.number? tables.toSyncTables old = some number)
    (hrenamed : store.rename? old new = some after) (hfree : store.entryAt? new = none)
    (hlisted : isListedName tables.toSyncTables new = true)
    (hsuffix : decisionSuffix.isSuffixOf new = true) :
    Tracks tables after (corpus.recordRenamed tables old new text) := by
  obtain ⟨entry, hentry, hafter⟩ := entryAt?_rename hrenamed
  obtain ⟨content, rfl, hold⟩ : ∃ content, entry = .regular content ∧
      decisionNumber? tables.toSyncTables old = some number := by
    rw [DecisionStore.number?, hentry] at hnumber
    cases entry with
    | regular content => exact ⟨content, rfl, hnumber⟩
    | irregular => cases hnumber
  obtain ⟨holdListed, holdSuffix, -⟩ := decisionNumber?_eq_some hold
  have hne : old ≠ new := by
    rintro rfl
    rw [hentry] at hfree
    cases hfree
  refine ⟨fun other => ?_, ?_, fun other => ?_⟩
  · rw [hasName_iff, Corpus.recordRenamed, replace_names, List.mem_cons, List.mem_filter,
      ← hasName_iff, h.names other, hafter other]
    by_cases hnew : other = new
    · simp [hnew, hlisted]
    · by_cases holdName : other = old
      · simp [holdName, hne]
      · simp [hnew, holdName]
  · obtain ⟨entry', hentry', hplaced⟩ := Option.bind_eq_some_iff.mp hrenamed
    have hsame : entry' = .regular content := Option.some.inj (hentry'.symm.trans hentry)
    rw [hsame] at hplaced
    have hfree' : (store.remove old).entryAt? new = none := by
      rw [entryAt?_remove, if_neg (Ne.symm hne)]
      exact hfree
    rw [Corpus.recordRenamed, replace_irregular, scan_irregular_place hplaced hfree'
      (listEntry_ne_irregular hlisted hsuffix _), scan_irregular_remove hentry
      (listEntry_ne_irregular holdListed holdSuffix _)]
    exact h.irregular
  · rw [Corpus.recordRenamed, get?_replace]
    have hother : ∀ {name : Text}, name ≠ old →
        (corpus.files.erase old).get? name = corpus.files.get? name :=
      fun hne => Table.get?_erase_of_ne hne
    split_ifs with heq
    · have hentryNew := hafter new
      rw [if_pos rfl] at hentryNew
      have hnone : corpus.files.get? new = none := by
        have hnew := h.numbers new
        rw [DecisionStore.number?, hfree] at hnew
        exact Option.map_eq_none_iff.mp hnew
      rw [heq, number?_of_entry hentryNew, decisionNumber?_of_listed hlisted hsuffix]
      cases extractDecisionNumber tables.toUnicodeTables new with
      | none => rw [hother (Ne.symm hne), hnone]; rfl
      | some number => rfl
    · have hentryOther := hafter other
      rw [if_neg heq] at hentryOther
      by_cases holdName : other = old
      · rw [if_pos holdName] at hentryOther
        rw [holdName, Table.get?_erase_self, DecisionStore.number?, ← holdName, hentryOther]
        rfl
      · rw [if_neg holdName] at hentryOther
        rw [hother holdName, number?_congr hentryOther]
        exact h.numbers other

/-- `record_rewritten` keeps the listing. -/
theorem Tracks.rewritten {store : DecisionStore} {corpus : Corpus} {name text : Text} {number : Nat}
    (h : Tracks tables store corpus)
    (hnumber : store.number? tables.toSyncTables name = some number) (bytes : List UInt8) :
    Tracks tables (store.write name bytes) (corpus.recordRewritten tables name text) := by
  obtain ⟨content, hentry, hown⟩ : ∃ content, store.entryAt? name = some (.regular content) ∧
      decisionNumber? tables.toSyncTables name = some number := by
    rw [DecisionStore.number?] at hnumber
    split at hnumber
    · next content hentry => exact ⟨content, hentry, hnumber⟩
    · cases hnumber
  obtain ⟨hlisted, hsuffix, hextract⟩ := decisionNumber?_eq_some hown
  refine ⟨fun other => ?_, ?_, fun other => ?_⟩
  · rw [hasName_iff, Corpus.recordRewritten, replace_names, ← hasName_iff, h.names other,
      entryAt?_write]
    split_ifs with heq
    · rw [Option.isSome_map]
    · rfl
  · rw [Corpus.recordRewritten, replace_irregular, scan_irregular_write hentry
      fun content => listEntry_ne_irregular hlisted hsuffix content]
    exact h.irregular
  · rw [Corpus.recordRewritten, get?_replace, hextract]
    have hafter := entryAt?_write store name bytes other
    split_ifs with heq
    · rw [if_pos heq, heq, hentry] at hafter
      rw [heq, number?_of_entry hafter, hown]
      rfl
    · rw [if_neg heq] at hafter
      rw [number?_congr hafter]
      exact h.numbers other

/-! ## Recorded texts -/

theorem content?_congr {store after : DecisionStore} {name : Text}
    (h : after.entryAt? name = store.entryAt? name) : after.content? name = store.content? name := by
  rw [content?_eq, content?_eq, h]

/-- A notice with the text of the file keeps the recorded texts, whatever else was forgotten. -/
theorem Recorded.replace {store after : DecisionStore} {corpus cleared : Corpus} {name text : Text}
    (h : Recorded store corpus)
    (hunnumbered : extractDecisionNumber tables.toUnicodeTables name = none →
      cleared.files.get? name = none)
    (hcleared : ∀ other file, other ≠ name → cleared.files.get? other = some file →
      corpus.files.get? other = some file ∧ after.entryAt? other = store.entryAt? other)
    (htext : (after.content? name).map readTextLenient = some text) :
    Recorded after (cleared.replace tables name text) := by
  intro other file recorded hfile hrecorded
  rw [get?_replace] at hfile
  split_ifs at hfile with heq
  · rw [heq]
    cases hnumber : extractDecisionNumber tables.toUnicodeTables name with
    | none =>
        rw [hnumber, hunnumbered hnumber] at hfile
        cases hfile
    | some number =>
        rw [hnumber] at hfile
        cases hfile
        cases hrecorded
        exact htext
  · obtain ⟨hbefore, hentry⟩ := hcleared other file heq hfile
    rw [content?_congr hentry]
    exact h other file recorded hbefore hrecorded

end Sync
end Nauro
