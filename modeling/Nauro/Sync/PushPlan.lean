import Nauro.Sync.StoreTree
import Nauro.Sync.SyncState

/-!
# What a push selects

A push walks the store and selects the files whose bytes differ from what the sync state records
of them. An object's key is the path of its file with slashes.

* `mem_candidates` — where a candidate comes from.
-/

namespace Nauro
namespace Sync

open Foundation Nauro.Core

/-! ## Paths that are never synced -/

/-- `normalize_rel`. -/
def normalizeRel (relativePath : Text) : Text :=
  forwardSlashes relativePath

def neverSync : List Text := [".sync-state.json".toList, "nauro-graph.html".toList]
def spoolDirPrefix : Text := ".pull-spool-".toList
def conflictBackupDir : Text := ".conflict-backup".toList
def journalDir : Text := "journal".toList
def dirLockName : Text := ".lock".toList
def lockArtifactSuffixes : List Text :=
  [".md.lock".toList, ".json.lock".toList, ".rmwlock".toList]

def tmpSuffix : Text := ".tmp".toList
def tmpTokenLength : Nat := 16

/-- The last part of a text at a separator; the text itself without one. -/
def lastPart (separator : Char) (text : Text) : Text :=
  (text.splitOn separator).getLastD []

/-- A basename that the atomic write could have made for a sibling. -/
def isTmpSibling (name : Text) : Bool :=
  let token := lastPart '.' (name.take (name.length - tmpSuffix.length))
  ".".toList.isPrefixOf name && tmpSuffix.isSuffixOf name && token.length == tmpTokenLength &&
    token.all fun c => "0123456789abcdef".toList.contains c

variable (tables : SyncTables)

/-- `should_skip`. -/
def shouldSkip (relativePath : Text) : Bool :=
  let normalized := normalizeRel relativePath
  let basename := lastPart '/' normalized
  classifySyncPath tables relativePath = .reservedControl || neverSync.contains normalized ||
    spoolDirPrefix.isPrefixOf ((normalized.splitOn '/').headD []) ||
    (journalDir ++ ['/']).isPrefixOf normalized || isTmpSibling basename ||
    basename = dirLockName || lockArtifactSuffixes.any fun suffix => suffix.isSuffixOf normalized

/-! ## The plan -/

structure PushCandidate where
  relativePath : Text
  localSha256 : Text
  /-- The native path under the root of the store. -/
  localFile : List Text
deriving DecidableEq

structure PushPlan where
  candidates : List PushCandidate
  oversizedBriefs : List (Text × Nat)
  unsafePaths : List (Text × AdmissionReason)

def maxBriefBytes : Nat := 50 * 1024

/-- A context brief, whose size is limited. -/
def isBrief (rel : Text) : Bool :=
  "context/".toList.isPrefixOf rel && ".md".toList.isSuffixOf rel

/-- What is not pushed although the walk meets it. -/
def isExcluded (rel : Text) : Bool :=
  shouldSkip tables rel || conflictBackupDir.isPrefixOf rel || "__pycache__".toList.isPrefixOf rel

variable (sha256Hex : Bytes → Text) (state : SyncState)

/-- `plan_push` of the files that the walk meets. -/
def planEntries : List WalkEntry → PushPlan
  | [] => ⟨[], [], []⟩
  | entry :: rest =>
      let plan := planEntries rest
      let raw := joinParts entry.parts
      match entry.outcome with
      | .error reason => { plan with unsafePaths := (raw, reason) :: plan.unsafePaths }
      | .ok content =>
          let rel := normalizeRel raw
          if isExcluded tables rel then plan
          else if isBrief rel ∧ maxBriefBytes < content.length then
            { plan with oversizedBriefs := (rel, content.length) :: plan.oversizedBriefs }
          else if ((state.files.get? rel).map FileState.localSha256) = some (sha256Hex content) then
            plan
          else
            { plan with candidates := ⟨rel, sha256Hex content, entry.parts⟩ :: plan.candidates }

/-- `plan_push`. -/
def planPush (tree : StoreTree) : PushPlan :=
  planEntries tables sha256Hex state (walkStoreFiles tables tree)

variable {tables sha256Hex state}

/-- A candidate is a file that the walk met. -/
theorem mem_candidates {entries : List WalkEntry} {candidate : PushCandidate}
    (h : candidate ∈ (planEntries tables sha256Hex state entries).candidates) :
    ∃ content, ⟨candidate.localFile, .ok content⟩ ∈ entries ∧
      candidate.localSha256 = sha256Hex content ∧
      candidate.relativePath = normalizeRel (joinParts candidate.localFile) ∧
      isExcluded tables candidate.relativePath = false := by
  induction entries with
  | nil => cases h
  | cons entry rest ih =>
      have hlater : candidate ∈ (planEntries tables sha256Hex state rest).candidates →
          ∃ content, ⟨candidate.localFile, .ok content⟩ ∈ entry :: rest ∧
            candidate.localSha256 = sha256Hex content ∧
            candidate.relativePath = normalizeRel (joinParts candidate.localFile) ∧
            isExcluded tables candidate.relativePath = false := by
        intro hin
        obtain ⟨content, hentry, hpath⟩ := ih hin
        exact ⟨content, List.mem_cons_of_mem entry hentry, hpath⟩
      obtain ⟨parts, outcome⟩ := entry
      unfold planEntries at h
      cases outcome with
      | error reason => exact hlater h
      | ok content =>
          dsimp only at h
          split_ifs at h with hexcluded hbrief hsame
          · exact hlater h
          · exact hlater h
          · exact hlater h
          · rcases List.mem_cons.mp h with rfl | hin
            · exact ⟨content, List.mem_cons_self .., rfl, rfl, Bool.eq_false_iff.mpr hexcluded⟩
            · exact hlater hin

end Sync
end Nauro
