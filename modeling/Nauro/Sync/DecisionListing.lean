import Nauro.Sync.ListedNames

/-!
# What a scan says of each name

A scan is described name by name, and so is what a write, a removal or a rename leaves of it.

* `scan_irregular_place`, `scan_irregular_remove` — a decision that comes or goes changes nothing of
  what is never read.
-/

namespace Nauro
namespace Sync

open Foundation Core

/-! ## Entries by their names -/

/-- The directory as a table. -/
def DecisionStore.table (store : DecisionStore) : Table Text DirEntry :=
  ⟨store.entries, store.distinct⟩

theorem entryAt?_iff {store : DecisionStore} {name : Text} {entry : DirEntry} :
    store.entryAt? name = some entry ↔ (name, entry) ∈ store.entries :=
  (Table.mem_entries_iff (t := store.table)).symm

def DirEntry.content? : DirEntry → Option (List UInt8)
  | .regular content => content
  | .irregular => none

theorem content?_eq (store : DecisionStore) (name : Text) :
    store.content? name = (store.entryAt? name).bind DirEntry.content? := by
  rw [DecisionStore.content?, DecisionStore.entryAt?]
  induction store.entries with
  | nil => rfl
  | cons first rest ih =>
      rw [List.find?_cons, List.lookup_cons, Bool.beq_comm (a := name)]
      cases hname : first.1 == name with
      | true =>
          obtain ⟨other, entry⟩ := first
          cases entry <;> rfl
      | false => exact ih

theorem entryAt?_of_content? {store : DecisionStore} {name : Text} {bytes : List UInt8}
    (h : store.content? name = some bytes) :
    store.entryAt? name = some (.regular (some bytes)) := by
  rw [content?_eq] at h
  obtain ⟨entry, hentry, hbytes⟩ := Option.bind_eq_some_iff.mp h
  cases entry with
  | irregular => cases hbytes
  | regular content =>
      cases hbytes
      exact hentry

theorem entryAt?_remove (store : DecisionStore) (name other : Text) :
    (store.remove name).entryAt? other = if other = name then none else store.entryAt? other := by
  split_ifs with heq
  · rw [heq]
    exact Table.get?_erase_self store.table name
  · exact Table.get?_erase_of_ne (t := store.table) heq

theorem entries_place {store after : DecisionStore} {name : Text} {entry : DirEntry}
    (h : store.place? name entry = some after) :
    after.entries = insertEntry name entry (withoutName name store.entries) ∧
      after.questions = store.questions := by
  unfold DecisionStore.place? at h
  split_ifs at h
  cases h
  exact ⟨rfl, rfl⟩

theorem entryAt?_place {store after : DecisionStore} {name : Text} {entry : DirEntry}
    (h : store.place? name entry = some after) (other : Text) :
    after.entryAt? other = if other = name then some entry else store.entryAt? other := by
  have hperm : after.entries.Perm ((name, entry) :: (store.remove name).entries) := by
    rw [(entries_place h).1]
    exact perm_insertEntry name entry _
  have hdistinct : (((name, entry) :: (store.remove name).entries).map Prod.fst).Nodup :=
    (hperm.map Prod.fst).nodup_iff.mp after.distinct
  have hlookup : after.table.get? other = Table.get? ⟨_, hdistinct⟩ other :=
    Table.get?_eq_of_perm hperm other
  refine hlookup.trans ?_
  show List.lookup other ((name, entry) :: (store.remove name).entries) = _
  rw [List.lookup_cons]
  split_ifs with heq
  · rw [heq, beq_self_eq_true]
  · rw [beq_false_of_ne heq]
    show (store.remove name).entryAt? other = _
    rw [entryAt?_remove, if_neg heq]

/-- A rename moves one entry, and what stood under the new name is gone. -/
theorem entryAt?_rename {store after : DecisionStore} {old new : Text}
    (h : store.rename? old new = some after) :
    ∃ entry, store.entryAt? old = some entry ∧ ∀ other, after.entryAt? other =
      if other = new then some entry else if other = old then none else store.entryAt? other := by
  obtain ⟨entry, hentry, hplaced⟩ := Option.bind_eq_some_iff.mp h
  exact ⟨entry, hentry, fun other => by rw [entryAt?_place hplaced, entryAt?_remove]⟩

theorem entryAt?_write (store : DecisionStore) (name : Text) (bytes : List UInt8) (other : Text) :
    (store.write name bytes).entryAt? other =
      if other = name then (store.entryAt? other).map fun _ => .regular (some bytes)
      else store.entryAt? other := by
  show (store.entries.map (writeEntry name bytes)).lookup other =
    if other = name then (store.entries.lookup other).map fun _ => .regular (some bytes)
    else store.entries.lookup other
  induction store.entries with
  | nil => split_ifs <;> rfl
  | cons first rest ih =>
      rw [List.map_cons, List.lookup_cons, List.lookup_cons, writeEntry_fst]
      by_cases hfirst : other = first.1
      · rw [beq_iff_eq.mpr hfirst, writeEntry, hfirst]
        split_ifs <;> rfl
      · rw [beq_false_of_ne hfirst]
        exact ih

/-! ## Listed names -/

/-- The number under which a regular file of a name is listed. -/
def decisionNumber? (tables : SyncTables) (name : Text) : Option Nat :=
  if isListedName tables name && decisionSuffix.isSuffixOf name then
    extractDecisionNumber tables.toUnicodeTables name
  else none

variable {tables : SyncTables}

theorem decisionNumber?_of_listed {name : Text} (hlisted : isListedName tables name = true)
    (hsuffix : decisionSuffix.isSuffixOf name = true) :
    decisionNumber? tables name = extractDecisionNumber tables.toUnicodeTables name := by
  rw [decisionNumber?, hlisted, hsuffix]
  rfl

theorem decisionNumber?_eq_some {name : Text} {number : Nat}
    (h : decisionNumber? tables name = some number) :
    isListedName tables name = true ∧ decisionSuffix.isSuffixOf name = true ∧
      extractDecisionNumber tables.toUnicodeTables name = some number := by
  unfold decisionNumber? at h
  split_ifs at h with hboth
  rw [Bool.and_eq_true] at hboth
  exact ⟨hboth.1, hboth.2, h⟩

/-- What a regular entry is listed as. -/
theorem listEntry_file_iff {name : Text} {entry : DirEntry} {file : CorpusFile} :
    listEntry tables name entry = .file file ↔
      entry = .regular file.content ∧ file.name = name ∧
        decisionNumber? tables name = some file.number := by
  rw [decisionNumber?, isListedName]
  unfold listEntry
  simp only
  obtain ⟨filename, number, content⟩ := file
  cases hclass : classifySyncPath tables (Core.decisionsDir ++ '/' :: name) with
  | unsafePath defect => simp
  | _ =>
      cases hfold : decisionSuffix.isSuffixOf (casefold tables name) with
      | false => simp
      | true =>
          cases entry with
          | irregular => simp
          | regular bytes =>
              cases hsuffix : decisionSuffix.isSuffixOf name with
              | false => simp
              | true =>
                  cases hnumber : extractDecisionNumber tables.toUnicodeTables name with
                  | none => simp
                  | some found =>
                      simp only [Bool.not_true, Bool.false_eq_true, if_false, Listed.file.injEq,
                        CorpusFile.mk.injEq, DirEntry.regular.injEq, Bool.and_self, if_true,
                        Option.some.injEq]
                      tauto

/-- A decision file is listed or ignored, and its number is never one of a file that is not read. -/
theorem listEntry_ne_irregular {name : Text} (hlisted : isListedName tables name = true)
    (hsuffix : decisionSuffix.isSuffixOf name = true) (content : Option (List UInt8))
    (number : Option Nat) : listEntry tables name (.regular content) ≠ .irregular number := by
  rw [isListedName] at hlisted
  unfold listEntry
  simp only
  cases hclass : classifySyncPath tables (Core.decisionsDir ++ '/' :: name) with
  | unsafePath defect =>
      rw [hclass] at hlisted
      cases hlisted
  | _ =>
      rw [hclass] at hlisted
      simp only at hlisted
      simp only [hlisted, hsuffix, Bool.not_true, Bool.false_eq_true, if_false]
      cases extractDecisionNumber tables.toUnicodeTables name with
      | none => exact fun h => Listed.noConfusion h
      | some found => exact fun h => Listed.noConfusion h

theorem mem_files_iff_entry {store : DecisionStore} {file : CorpusFile} :
    file ∈ store.files tables ↔ store.entryAt? file.name = some (.regular file.content) ∧
      decisionNumber? tables file.name = some file.number := by
  rw [mem_files_iff]
  constructor
  · rintro ⟨⟨name, entry⟩, hin, hlisted⟩
    obtain ⟨rfl, rfl, hnumber⟩ := listEntry_file_iff.mp hlisted
    exact ⟨entryAt?_iff.mpr hin, hnumber⟩
  · rintro ⟨hentry, hnumber⟩
    exact ⟨_, entryAt?_iff.mp hentry, listEntry_file_iff.mpr ⟨rfl, rfl, hnumber⟩⟩

/-! ## A fresh scan -/

/-- The number that the regular file of a name holds. -/
def DecisionStore.number? (tables : SyncTables) (store : DecisionStore) (name : Text) :
    Option Nat :=
  match store.entryAt? name with
  | some (.regular _) => decisionNumber? tables name
  | _ => none

theorem number?_eq_some {store : DecisionStore} {name : Text} {number : Nat} :
    store.number? tables name = some number ↔
      ∃ file ∈ store.files tables, file.name = name ∧ file.number = number := by
  rw [DecisionStore.number?]
  constructor
  · intro h
    split at h
    · next content hentry => exact ⟨⟨name, number, content⟩, mem_files_iff_entry.mpr ⟨hentry, h⟩, rfl, rfl⟩
    · cases h
  · rintro ⟨file, hfile, rfl, rfl⟩
    obtain ⟨hentry, hnumber⟩ := mem_files_iff_entry.mp hfile
    rw [hentry]
    exact hnumber

theorem scan_get? (store : DecisionStore) (name : Text) :
    (Corpus.scan tables store).files.get? name =
      (store.number? tables name).map fun number => ⟨number, none⟩ := by
  have hrows : (((store.files tables).map fun file =>
      (file.name, (⟨file.number, none⟩ : CachedFile))).map Prod.fst).Nodup := by
    rw [List.map_map]
    exact files_names_nodup store
  have hiff (file : CachedFile) : (Corpus.scan tables store).files.get? name = some file ↔
      ∃ listed ∈ store.files tables, listed.name = name ∧ file = ⟨listed.number, none⟩ := by
    rw [← Table.mem_entries_iff, Corpus.scan, Table.entries_ofPairs hrows, List.mem_map]
    refine exists_congr fun listed => and_congr_right fun _ => ?_
    rw [Prod.mk.injEq, eq_comm (b := file)]
  apply Option.ext
  intro file
  rw [hiff, Option.map_eq_some_iff]
  constructor
  · rintro ⟨listed, hlisted, hname, rfl⟩
    exact ⟨listed.number, number?_eq_some.mpr ⟨listed, hlisted, hname, rfl⟩, rfl⟩
  · rintro ⟨number, hnumber, rfl⟩
    obtain ⟨listed, hlisted, hname, rfl⟩ := number?_eq_some.mp hnumber
    exact ⟨listed, hlisted, hname, rfl⟩

theorem mem_scan_names {store : DecisionStore} {name : Text} :
    name ∈ (Corpus.scan tables store).names ↔
      (store.entryAt? name).isSome = true ∧ isListedName tables name = true := by
  rw [Corpus.scan, List.mem_filter]
  exact and_congr_left fun _ => Table.mem_keys_iff (t := store.table)

/-- What a scan takes of an entry that is never read. -/
def irregularOf (tables : SyncTables) (entry : Text × DirEntry) : Option (Text × Option Nat) :=
  match listEntry tables entry.1 entry.2 with
  | .irregular number => some (entry.1, number)
  | _ => none

theorem irregularOf_eq_none {name : Text} {entry : DirEntry}
    (h : ∀ number, listEntry tables name entry ≠ .irregular number) :
    irregularOf tables (name, entry) = none := by
  unfold irregularOf
  split
  · next number hnumber => exact absurd hnumber (h number)
  · rfl

theorem scan_irregular (store : DecisionStore) :
    (Corpus.scan tables store).irregular = store.entries.filterMap (irregularOf tables) :=
  rfl

theorem filterMap_insertEntry {name : Text} {entry : DirEntry}
    (h : irregularOf tables (name, entry) = none) (entries : List (Text × DirEntry)) :
    (insertEntry name entry entries).filterMap (irregularOf tables) =
      entries.filterMap (irregularOf tables) := by
  have hsplit := List.takeWhile_append_dropWhile (p := fun other => decide (other.1 < name))
    (l := entries)
  conv_rhs => rw [← hsplit]
  rw [insertEntry, List.filterMap_append, List.filterMap_append, List.filterMap_cons_none h]

theorem filterMap_withoutName {name : Text} {entries : List (Text × DirEntry)}
    (h : ∀ entry, (name, entry) ∈ entries → irregularOf tables (name, entry) = none) :
    (withoutName name entries).filterMap (irregularOf tables) =
      entries.filterMap (irregularOf tables) := by
  rw [withoutName, List.filterMap_filter]
  refine List.filterMap_congr fun entry hin => ?_
  split_ifs with hne
  · rfl
  · have hname : entry.1 = name := not_not.mp fun hne' => hne (bne_iff_ne.mpr hne')
    obtain ⟨other, value⟩ := entry
    cases hname
    exact (h value hin).symm

/-- A decision that is put under a free name is no entry that is never read. -/
theorem scan_irregular_place {store after : DecisionStore} {name : Text} {entry : DirEntry}
    (h : store.place? name entry = some after) (hfree : store.entryAt? name = none)
    (hregular : ∀ number, listEntry tables name entry ≠ .irregular number) :
    (Corpus.scan tables after).irregular = (Corpus.scan tables store).irregular := by
  rw [scan_irregular, scan_irregular, (entries_place h).1,
    filterMap_insertEntry (irregularOf_eq_none hregular), filterMap_withoutName]
  intro other hin
  rw [entryAt?_iff.mpr hin] at hfree
  cases hfree

/-- Nor is one that goes away. -/
theorem scan_irregular_remove {store : DecisionStore} {name : Text} {entry : DirEntry}
    (hentry : store.entryAt? name = some entry)
    (hregular : ∀ number, listEntry tables name entry ≠ .irregular number) :
    (Corpus.scan tables (store.remove name)).irregular = (Corpus.scan tables store).irregular := by
  rw [scan_irregular, scan_irregular, DecisionStore.remove, filterMap_withoutName]
  intro other hin
  have hsame : other = entry := Option.some.inj ((entryAt?_iff.mpr hin).symm.trans hentry)
  rw [hsame]
  exact irregularOf_eq_none hregular

theorem scan_irregular_write {store : DecisionStore} {name : Text}
    {content : Option (List UInt8)} (hentry : store.entryAt? name = some (.regular content))
    (hregular : ∀ content number, listEntry tables name (.regular content) ≠ .irregular number)
    (bytes : List UInt8) :
    (Corpus.scan tables (store.write name bytes)).irregular =
      (Corpus.scan tables store).irregular := by
  rw [scan_irregular, scan_irregular, DecisionStore.write, List.filterMap_map]
  refine List.filterMap_congr fun entry hin => ?_
  rw [Function.comp_apply, writeEntry]
  split_ifs with hname
  · obtain ⟨other, value⟩ := entry
    cases hname
    have hsame := Option.some.inj ((entryAt?_iff.mpr hin).symm.trans hentry)
    cases hsame
    rw [irregularOf_eq_none (hregular _), irregularOf_eq_none (hregular _)]
  · rfl

end Sync
end Nauro
