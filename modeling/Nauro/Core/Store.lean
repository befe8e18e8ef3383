import Mathlib.Data.List.MinMax
import Nauro.Core.Decision
import Nauro.Core.PlainYaml
import Nauro.Foundation.Table

/-!
# The store that the operations work on
-/

namespace Nauro
namespace Core

open Foundation

/-- What the program takes from outside. -/
structure Runtime (E : Type) where
  tables : UnicodeTables
  yaml : Yaml E
  /-- The hex digest of a content hash. -/
  digest : Text → Text
  /-- The text that a read returns of a file's text: `universalNewlines` on a file system. -/
  readText : Text → Text
  today : Date

/-- A runtime to evaluate with: ASCII tables, plain YAML and files on disk. -/
def Runtime.plain (today : Date) : Runtime Empty where
  tables := .ascii
  yaml := plainYaml
  digest := id
  readText := universalNewlines
  today := today

/-- The files of a project store. -/
structure Store where
  /-- The text of `decisions/<stem>.md` by stem. -/
  decisions : Table Text Text
  /-- The text of `open-questions.md`. -/
  questions : Option Text
  /-- The keys of the hash index. -/
  hashes : List Text
deriving DecidableEq

variable {E : Type}

/-! ## Reading and writing -/

/-- `list_decisions`: the stems in lexicographic order. -/
def Store.listDecisions (store : Store) : List Text :=
  store.decisions.keys.insertionSort fun a b => textLe a b = true

def Store.readDecision (rt : Runtime E) (store : Store) (stem : Text) : Option Text :=
  (store.decisions.get? stem).map rt.readText

def Store.readQuestions (rt : Runtime E) (store : Store) : Option Text :=
  store.questions.map rt.readText

/-- `write_file` at `_decision_path(stem)`. -/
def Store.writeDecision (store : Store) (stem text : Text) : Store :=
  { store with decisions := store.decisions.put stem text }

def Store.writeQuestions (store : Store) (text : Text) : Store :=
  { store with questions := some text }

/-- `index[content_hash] = ...`. -/
def Store.addHash (store : Store) (contentHash : Text) : Store :=
  if contentHash ∈ store.hashes then store
  else { store with hashes := store.hashes ++ [contentHash] }

@[simp] theorem Store.mem_listDecisions {store : Store} {stem : Text} :
    stem ∈ store.listDecisions ↔ stem ∈ store.decisions.keys :=
  (List.perm_insertionSort _ _).mem_iff

@[simp] theorem Store.addHash_decisions (store : Store) (contentHash : Text) :
    (store.addHash contentHash).decisions = store.decisions := by
  unfold Store.addHash
  split <;> rfl

@[simp] theorem Store.addHash_questions (store : Store) (contentHash : Text) :
    (store.addHash contentHash).questions = store.questions := by
  unfold Store.addHash
  split <;> rfl

@[simp] theorem Store.readDecision_addHash (rt : Runtime E) (store : Store)
    (contentHash stem : Text) :
    (store.addHash contentHash).readDecision rt stem = store.readDecision rt stem := by
  rw [Store.readDecision, Store.addHash_decisions]
  rfl

@[simp] theorem Store.readDecision_writeDecision_self (rt : Runtime E) (store : Store)
    (stem text : Text) :
    (store.writeDecision stem text).readDecision rt stem = some (rt.readText text) := by
  rw [Store.readDecision, Store.writeDecision, Table.get?_put_self]
  rfl

/-! ## Reading every decision -/

/-- A parsed decision with the stem that carries it. -/
structure ScannedDecision (E : Type) where
  stem : Text
  decision : Decision E

/-- A decision file that did not parse. -/
structure ParseFailure where
  stem : Text
  error : ParseError

/-- The decision file at a stem, read and parsed; `none` for a missing file. -/
def Store.parseAt (rt : Runtime E) (store : Store) (stem : Text) :
    Option (Except ParseError (Decision E)) :=
  (store.readDecision rt stem).map fun body =>
    parseDecision rt.tables rt.yaml body (decisionFilename stem)

/-- The record that a scan makes of one stem. -/
def Store.recordAt? (rt : Runtime E) (store : Store) (stem : Text) :
    Option (ScannedDecision E) :=
  match store.parseAt rt stem with
  | some (.ok d) => some ⟨stem, d⟩
  | _ => none

/-- The failure that a scan makes of one stem. -/
def Store.failureAt? (rt : Runtime E) (store : Store) (stem : Text) : Option ParseFailure :=
  match store.parseAt rt stem with
  | some (.error error) => some ⟨stem, error⟩
  | _ => none

/-- `scan_decision_records`: records and failures in the order of the numbers. -/
def scanDecisionRecords (rt : Runtime E) (store : Store) :
    List (ScannedDecision E) × List ParseFailure :=
  let stems := sortStemsByNumber rt.tables store.listDecisions
  (stems.filterMap (store.recordAt? rt), stems.filterMap (store.failureAt? rt))

/-- `parse_all_decisions`. -/
def parseAllDecisions (rt : Runtime E) (store : Store) : List (Decision E) :=
  (scanDecisionRecords rt store).1.map ScannedDecision.decision

/-! ## Stems and numbers -/

/-- `find_decision_stem_by_num`. -/
def findDecisionStemByNum (store : Store) (num : Nat) : Option Text :=
  store.listDecisions.find? fun stem => (decisionNumberPrefix num).isPrefixOf stem

/-- `find_decision_stem_by_id`. -/
def findDecisionStemById (rt : Runtime E) (store : Store) (decisionId : Text) : Option Text :=
  (extractDecisionNumber rt.tables decisionId).bind (findDecisionStemByNum store)

/-- `_next_decision_num`. -/
def nextDecisionNum (rt : Runtime E) (store : Store) : Nat :=
  (store.listDecisions.filterMap (extractDecisionNumber rt.tables)).foldr max 0 + 1

/-- The next number is past every number in the store. -/
theorem lt_nextDecisionNum {rt : Runtime E} {store : Store} {stem : Text} {n : Nat}
    (hstem : stem ∈ store.listDecisions)
    (hnumber : extractDecisionNumber rt.tables stem = some n) : n < nextDecisionNum rt store := by
  have hmem : n ∈ store.listDecisions.filterMap (extractDecisionNumber rt.tables) :=
    List.mem_filterMap.mpr ⟨stem, hstem, hnumber⟩
  have hle : n ≤ (store.listDecisions.filterMap (extractDecisionNumber rt.tables)).foldr max 0 :=
    List.le_max_of_le' 0 hmem le_rfl
  rw [nextDecisionNum]
  omega

/-- No file in the store starts with the prefix of the next number. -/
theorem next_prefix_fresh {rt : Runtime E} (htables : rt.tables.Lawful) {store : Store}
    (slug : Text) :
    decisionNumberPrefix (nextDecisionNum rt store) ++ slug ∉ store.decisions.keys := by
  intro hin
  have hnumber := extractDecisionNumber_prefix htables (nextDecisionNum rt store) slug
  exact absurd (lt_nextDecisionNum (Store.mem_listDecisions.mpr hin) hnumber) (lt_irrefl _)

theorem findDecisionStemByNum_some {store : Store} {num : Nat} {stem : Text}
    (h : findDecisionStemByNum store num = some stem) :
    stem ∈ store.decisions.keys ∧ ∃ slug, stem = decisionNumberPrefix num ++ slug := by
  obtain ⟨slug, hslug⟩ := List.isPrefixOf_iff_prefix.mp (List.find?_some h)
  exact ⟨Store.mem_listDecisions.mp (List.mem_of_find?_eq_some h), slug, hslug.symm⟩

end Core
end Nauro
