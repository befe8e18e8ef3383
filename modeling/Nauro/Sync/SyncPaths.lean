import Nauro.Core.Text

/-!
# Paths that a sync may touch

Sync paths are strings from a server, or names found in a directory. They are judged by their
spelling alone, folded the way the strictest of the file systems would fold them.

* `walkClass_of_ordinary` — a path whose components are ordinary is met as ordinary.
-/

namespace Nauro
namespace Sync

open Foundation Nauro.Core

/-- What the sync layer asks of the Unicode database, beyond what the core asks. -/
structure SyncTables extends UnicodeTables where
  /-- The full case folding of one character. -/
  foldChar : Char → Text

/-- ASCII characters fold to lower case. -/
structure SyncTables.Lawful (tables : SyncTables) : Prop where
  fold_ascii : ∀ c : Char, c.toNat < 128 → tables.foldChar c = [c.toLower]

/-- The tables on ASCII; every other character folds to itself. -/
def SyncTables.ascii : SyncTables where
  toUnicodeTables := .ascii
  foldChar c := [c.toLower]

theorem SyncTables.ascii_lawful : SyncTables.ascii.Lawful where
  fold_ascii _ _ := rfl

/-- `text.casefold()`. -/
def casefold (tables : SyncTables) (text : Text) : Text :=
  text.flatMap tables.foldChar

theorem casefold_cons_ascii {tables : SyncTables} (hlawful : tables.Lawful) {c : Char}
    (hc : c.toNat < 128) (rest : Text) :
    casefold tables (c :: rest) = c.toLower :: casefold tables rest := by
  rw [casefold, List.flatMap_cons, hlawful.fold_ascii c hc]
  rfl

/-- ASCII text folds to its ASCII lower case. -/
theorem casefold_ascii {tables : SyncTables} (hlawful : tables.Lawful) {text : Text}
    (h : ∀ c ∈ text, c.toNat < 128) : casefold tables text = text.map Char.toLower := by
  induction text with
  | nil => rfl
  | cons c rest ih =>
      have hrest : ∀ other ∈ rest, other.toNat < 128 :=
        fun other hother => h other (List.mem_cons_of_mem c hother)
      rw [casefold_cons_ascii hlawful (h c (List.mem_cons_self ..)), ih hrest]
      rfl

/-! ## Judging a path by its spelling -/

inductive UnsafeReason where
  | rawAbsolute
  | rawRooted
  | rawDrive
  | rawUnc
  | rawDevice
  | rawParent
  | emptyPath
  | foldedEmpty
  | foldedDot
  | foldedParent
deriving DecidableEq

inductive PathClass where
  | ordinary
  | reservedControl
  | unsafePath (reason : UnsafeReason)
deriving DecidableEq

/-- The spaces and dots that Windows trims at the end of a name, and the spaces before it. -/
def trimmedBase (base : Text) : Text :=
  (base.dropWhile (· = ' ')).rdropWhile fun c => c = ' ' || c = '.'

/-- What Windows and a case-folding file system make of a name. -/
def foldSemanticComponent (tables : SyncTables) (component : Text) : Except UnsafeReason Text :=
  let base := component.takeWhile (· ≠ ':')
  let trimmed := trimmedBase base
  if trimmed = [] then
    let spaced := Trim.trim (· = ' ') base
    if spaced = ".".toList then .error .foldedDot
    else if spaced = "..".toList then .error .foldedParent
    else .error .foldedEmpty
  else
    let folded := casefold tables trimmed
    if folded = ".".toList then .error .foldedDot
    else if folded = "..".toList then .error .foldedParent
    else .ok folded

/-- `raw.replace("\\", "/")`. -/
def forwardSlashes (raw : Text) : Text :=
  raw.map fun c => if c = '\\' then '/' else c

/-- `raw.replace("/", "\\")`. -/
def backSlashes (raw : Text) : Text :=
  raw.map fun c => if c = '/' then '\\' else c

/-- The components of a path, whichever slash separates them. -/
def pathComponents (raw : Text) : List Text :=
  (forwardSlashes raw).splitOn '/'

def submissionRecordsDir : Text := "submission-records".toList
def replicaControlRootName : Text := ".replica".toList
def replicaControlLockName : Text := ".replica-control.lock".toList

/-- The class of a path whose components are folded. -/
def classifyFolded (tables : SyncTables) : List Text → PathClass
  | [] => .unsafePath .emptyPath
  | first :: rest =>
      if submissionRecordsDir ∈ first :: rest then .reservedControl
      else if first = casefold tables replicaControlRootName ∨
          first = casefold tables replicaControlLockName then .reservedControl
      else .ordinary

def classifyComponentPath (tables : SyncTables) (components : List Text) : PathClass :=
  match ((components.flatMap pathComponents).filter (· ≠ [])).mapM
      (foldSemanticComponent tables) with
  | .error reason => .unsafePath reason
  | .ok folded => classifyFolded tables folded

/-- The prefixes of device paths. -/
def devicePrefixes : List Text :=
  ["\\\\?\\".toList, "\\??\\".toList, "\\\\.\\".toList, "\\device\\".toList]

/-- What makes a string no relative path. A drive is a letter before a colon, or a share. -/
def syncInputFailure (tables : SyncTables) (raw : Text) : Option UnsafeReason :=
  let folded := casefold tables (backSlashes raw)
  if devicePrefixes.any fun device => device.isPrefixOf folded then some .rawDevice
  else if "\\\\".toList.isPrefixOf raw || "//".toList.isPrefixOf raw then some .rawUnc
  else if (raw.drop 1).head? = some ':' || "\\\\".toList.isPrefixOf (backSlashes raw) then
    some .rawDrive
  else if "/".toList.isPrefixOf raw then some .rawAbsolute
  else if "\\".toList.isPrefixOf raw then some .rawRooted
  else if "..".toList ∈ pathComponents raw then some .rawParent
  else none

def classifySyncPath (tables : SyncTables) (raw : Text) : PathClass :=
  match syncInputFailure tables raw with
  | some reason => .unsafePath reason
  | none =>
      classifyComponentPath tables
        ((pathComponents raw).filter fun component => component ≠ [] ∧ component ≠ ['.'])

/-! ## Walking a folder -/

/-- The folders on the way are judged one after another. -/
def walkFrom (tables : SyncTables) (above : List Text) : List Text → PathClass
  | [] => .ordinary
  | component :: rest =>
      match classifyComponentPath tables (above ++ [component]) with
      | .ordinary => walkFrom tables (above ++ [component]) rest
      | other => other

/-- A walk judges a file by each folder on its way and then by itself; the first that is not
ordinary decides. -/
def walkClass (tables : SyncTables) (path : Text) : PathClass :=
  walkFrom tables [] (path.splitOn '/')

/-- A component that no slash splits further. -/
def IsPlainComponent (component : Text) : Prop :=
  component ≠ [] ∧ '/' ∉ component ∧ '\\' ∉ component

theorem forwardSlashes_eq_self {raw : Text} (h : '\\' ∉ raw) : forwardSlashes raw = raw := by
  have hsame : forwardSlashes raw = raw.map id := by
    refine List.map_congr_left fun c hc => ?_
    have hne : c ≠ '\\' := by
      rintro rfl
      exact h hc
    rw [if_neg hne]
    rfl
  rw [hsame, List.map_id]

theorem pathComponents_plain {component : Text} (h : IsPlainComponent component) :
    pathComponents component = [component] := by
  unfold pathComponents
  rw [forwardSlashes_eq_self h.2.2]
  have hnone : ∀ other ∈ [component], '/' ∉ other := by
    intro other hother
    rw [List.mem_singleton.mp hother]
    exact h.2.1
  have hsplit := List.splitOn_intercalate '/' hnone (List.cons_ne_nil _ _)
  rw [List.intercalate_singleton] at hsplit
  exact hsplit

variable {tables : SyncTables} {components front back : List Text}

theorem flatMap_pathComponents_plain (h : ∀ component ∈ components, IsPlainComponent component) :
    components.flatMap pathComponents = components := by
  induction components with
  | nil => rfl
  | cons component rest ih =>
      rw [List.flatMap_cons, pathComponents_plain (h component (List.mem_cons_self ..)),
        ih fun other hother => h other (List.mem_cons_of_mem component hother)]
      rfl

/-- Plain components are judged as they stand. -/
theorem classifyComponentPath_plain (h : ∀ component ∈ components, IsPlainComponent component) :
    classifyComponentPath tables components =
      match components.mapM (foldSemanticComponent tables) with
      | .error reason => .unsafePath reason
      | .ok folded => classifyFolded tables folded := by
  have hfilter : components.filter (· ≠ []) = components :=
    List.filter_eq_self.mpr fun component hin => decide_eq_true (h component hin).1
  unfold classifyComponentPath
  rw [flatMap_pathComponents_plain h, hfilter]

theorem classifyFolded_front {front back : List Text} (hfront : front ≠ [])
    (h : classifyFolded tables (front ++ back) = .ordinary) :
    classifyFolded tables front = .ordinary := by
  cases front with
  | nil => exact absurd rfl hfront
  | cons first rest =>
      rw [List.cons_append] at h
      by_cases hrecords : submissionRecordsDir ∈ first :: (rest ++ back)
      · rw [classifyFolded, if_pos hrecords] at h
        cases h
      · have hnotin : submissionRecordsDir ∉ first :: rest := fun hin =>
          hrecords (List.mem_append_left back hin)
        rw [classifyFolded, if_neg hrecords] at h
        rw [classifyFolded, if_neg hnotin]
        exact h

theorem mapM_fold_ne_nil {folded : List Text} (hne : components ≠ [])
    (h : components.mapM (foldSemanticComponent tables) = .ok folded) : folded ≠ [] := by
  cases components with
  | nil => exact absurd rfl hne
  | cons component rest =>
      rw [List.mapM_cons] at h
      cases hfirst : foldSemanticComponent tables component with
      | error reason =>
          rw [hfirst] at h
          cases h
      | ok first =>
          rw [hfirst] at h
          cases hrest : rest.mapM (foldSemanticComponent tables) with
          | error reason =>
              rw [hrest] at h
              cases h
          | ok last =>
              rw [hrest] at h
              cases h
              exact List.cons_ne_nil first last

theorem mapM_fold_append {folded : List Text}
    (h : (front ++ back).mapM (foldSemanticComponent tables) = .ok folded) :
    ∃ first last, front.mapM (foldSemanticComponent tables) = .ok first ∧
      folded = first ++ last ∧ (front ≠ [] → first ≠ []) := by
  rw [List.mapM_append] at h
  cases hfront : front.mapM (foldSemanticComponent tables) with
  | error reason =>
      rw [hfront] at h
      cases h
  | ok first =>
      rw [hfront] at h
      cases hback : back.mapM (foldSemanticComponent tables) with
      | error reason =>
          rw [hback] at h
          cases h
      | ok last =>
          rw [hback] at h
          cases h
          exact ⟨first, last, rfl, rfl, fun hne => mapM_fold_ne_nil hne hfront⟩

/-- The folders on the way to an ordinary path are ordinary. -/
theorem classifyComponentPath_front (hplain : ∀ component ∈ front ++ back, IsPlainComponent component)
    (hfront : front ≠ []) (h : classifyComponentPath tables (front ++ back) = .ordinary) :
    classifyComponentPath tables front = .ordinary := by
  rw [classifyComponentPath_plain hplain] at h
  rw [classifyComponentPath_plain fun component hin => hplain component (List.mem_append_left _ hin)]
  cases hall : (front ++ back).mapM (foldSemanticComponent tables) with
  | error reason =>
      rw [hall] at h
      cases h
  | ok folded =>
      rw [hall] at h
      obtain ⟨first, last, hfirst, rfl, hne⟩ := mapM_fold_append hall
      rw [hfirst]
      exact classifyFolded_front (hne hfront) h

theorem walkFrom_of_ordinary {above rest : List Text}
    (hplain : ∀ component ∈ above ++ rest, IsPlainComponent component)
    (h : classifyComponentPath tables (above ++ rest) = .ordinary) :
    walkFrom tables above rest = .ordinary := by
  induction rest generalizing above with
  | nil => rfl
  | cons component rest ih =>
      have hsplit : above ++ component :: rest = (above ++ [component]) ++ rest := by simp
      rw [hsplit] at hplain h
      have hfirst := classifyComponentPath_front hplain (by simp) h
      rw [walkFrom, hfirst]
      exact ih hplain h

/-- A path of plain components is met as ordinary when its spelling is. -/
theorem walkClass_of_ordinary {path : Text}
    (hplain : ∀ component ∈ path.splitOn '/', IsPlainComponent component)
    (h : classifyComponentPath tables (path.splitOn '/') = .ordinary) :
    walkClass tables path = .ordinary :=
  walkFrom_of_ordinary hplain h

end Sync
end Nauro
