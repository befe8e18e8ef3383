import Nauro.Sync.RecordFile
import Nauro.Sync.SyncPaths

/-!
# A store on a POSIX file system

Names are any that the system allows: a name ends at a slash, and nothing else separates. A path
is admitted by walking it from the root of the store, links included.
-/

namespace Nauro
namespace Sync

open Foundation Nauro.Core

/-! ## Files and folders -/

mutual
inductive Node where
  | file (content : Bytes)
  | folder (entries : Folder)
  | link (target : Text)
  | special
inductive Folder where
  | empty
  | entry (name : Text) (node : Node) (rest : Folder)
end

/-- A name that the system allows. -/
def IsName (name : Text) : Prop :=
  name ≠ [] ∧ '/' ∉ name ∧ Char.ofNat 0 ∉ name ∧ name ≠ ".".toList ∧ name ≠ "..".toList

instance (name : Text) : Decidable (IsName name) :=
  inferInstanceAs (Decidable (_ ∧ _))

def Folder.find? : Folder → Text → Option Node
  | .empty, _ => none
  | .entry name node rest, wanted => if name = wanted then some node else rest.find? wanted

mutual
def Node.WellFormed : Node → Prop
  | .file _ => True
  | .folder entries => entries.WellFormed
  | .link _ => True
  | .special => True
def Folder.WellFormed : Folder → Prop
  | .empty => True
  | .entry name node rest =>
      IsName name ∧ node.WellFormed ∧ rest.find? name = none ∧ rest.WellFormed
end

mutual
instance Node.decidableWellFormed : (node : Node) → Decidable node.WellFormed
  | .file _ => inferInstanceAs (Decidable True)
  | .folder entries => entries.decidableWellFormed
  | .link _ => inferInstanceAs (Decidable True)
  | .special => inferInstanceAs (Decidable True)
instance Folder.decidableWellFormed : (folder : Folder) → Decidable folder.WellFormed
  | .empty => inferInstanceAs (Decidable True)
  | .entry name node rest =>
      have _ := node.decidableWellFormed
      have _ := rest.decidableWellFormed
      inferInstanceAs (Decidable (IsName name ∧ node.WellFormed ∧ rest.find? name = none ∧
        rest.WellFormed))
end

/-- A store: where its root lies, and what is in it. -/
structure StoreTree where
  canonicalParts : List Text
  root : Folder
  wellFormed : root.WellFormed

/-! ## Admission -/

/-- What a path leads to; a file with its content. -/
inductive NativeKind where
  | directory
  | regularFile (content : Bytes)
  | irregular
deriving DecidableEq

def Node.kind : Node → NativeKind
  | .file content => .regularFile content
  | .folder _ => .directory
  | .link _ => .irregular
  | .special => .irregular

inductive AdmissionReason where
  | spelling (reason : UnsafeReason)
  | outsideStore
  | observationLost
  | metadataUnavailable
  | linkLoop
  | linkHopLimit
  | nonDirectoryParent
deriving DecidableEq

inductive Admission where
  /-- It leads to what lies at `resolved`. -/
  | existing (resolved : List Text) (kind : NativeKind)
  /-- Nothing is there, but a file may be created at `resolved`. -/
  | absent (resolved : List Text)
  | reservedControl
  | unsafePath (reason : AdmissionReason)
deriving DecidableEq

inductive MissingPathPolicy where
  | observed
  | createDestination
deriving DecidableEq

/-- A component that is still to be walked, or the slash at the end of a path. -/
inductive PathStep where
  | component (name : Text)
  | trailingSeparator
deriving DecidableEq

/-- The parts of a native path; only a slash separates. -/
def slashParts (path : Text) : List Text :=
  (path.splitOn '/').filter (· ≠ [])

/-- `_native_relative_parts`. -/
def nativeRelativeParts (raw : Text) : List PathStep :=
  (slashParts raw).map .component ++
    if raw.getLast? = some '/' then [.trailingSeparator] else []

/-- What is pending once a link is followed; a backslash ends a target like a slash does. -/
def targetSteps (parts : List Text) (target : Text) : List PathStep :=
  parts.map .component ++
    if target.getLast? = some '/' ∨ target.getLast? = some '\\' then [.trailingSeparator] else []

variable (tables : SyncTables)

/-- What is not there may be created when the names on the way to it are ordinary. -/
def classifyMissing (above : List Text) : List PathStep → Admission
  | [] => .absent above
  | .trailingSeparator :: pending => classifyMissing above pending
  | .component name :: pending =>
      if name = ".".toList then classifyMissing above pending
      else if name = "..".toList then .unsafePath (.spelling .foldedParent)
      else
        match classifyComponentPath tables (above ++ [name]) with
        | .ordinary => classifyMissing (above ++ [name]) pending
        | .reservedControl => .reservedControl
        | .unsafePath reason => .unsafePath (.spelling reason)

/-- `_missing_admission`. -/
def missingAdmission (policy : MissingPathPolicy) (above : List Text) (name : Text)
    (pending : List PathStep) : Admission :=
  match policy with
  | .observed => .unsafePath .observationLost
  | .createDestination => classifyMissing tables (above ++ [name]) pending

/-- The folder that the walk has reached. -/
def currentFolder (root : Folder) (stack : List (Text × Node)) : Option Folder :=
  match stack.getLast? with
  | none => some root
  | some (_, .folder entries) => some entries
  | some _ => none

def stackNames (stack : List (Text × Node)) : List Text :=
  stack.map Prod.fst

/-- What the walk has come to. -/
def stackKind (stack : List (Text × Node)) : NativeKind :=
  (stack.getLast?.map fun top => top.2.kind).getD .directory

/-- The loop of `_admit_native_path`; `hops` is the number of links that may still be followed. -/
def admitSteps (tree : StoreTree) (policy : MissingPathPolicy) :
    (hops : Nat) → (followed : List (List Text)) → (stack : List (Text × Node)) →
      (pending : List PathStep) → Admission
  | _, _, stack, [] => .existing (stackNames stack) (stackKind stack)
  | hops, followed, stack, step :: pending =>
      match currentFolder tree.root stack with
      | none => .unsafePath .nonDirectoryParent
      | some folder =>
          match step with
          | .trailingSeparator => admitSteps tree policy hops followed stack pending
          | .component name =>
              if name = ".".toList then admitSteps tree policy hops followed stack pending
              else if name = "..".toList then
                if stack = [] then .unsafePath .outsideStore
                else admitSteps tree policy hops followed stack.dropLast pending
              else
                match classifyComponentPath tables (stackNames stack ++ [name]) with
                | .reservedControl => .reservedControl
                | .unsafePath reason => .unsafePath (.spelling reason)
                | .ordinary =>
                    match folder.find? name with
                    | none => missingAdmission tables policy (stackNames stack) name pending
                    | some (.link target) =>
                        if stackNames stack ++ [name] ∈ followed then .unsafePath .linkLoop
                        else
                          match hops with
                          | 0 => .unsafePath .linkHopLimit
                          | hops + 1 =>
                              let followed := (stackNames stack ++ [name]) :: followed
                              let parts := slashParts target
                              if target.head? ≠ some '/' then
                                admitSteps tree policy hops followed stack
                                  (targetSteps parts target ++ pending)
                              else if tree.canonicalParts.isPrefixOf parts then
                                admitSteps tree policy hops followed []
                                  (targetSteps (parts.drop tree.canonicalParts.length) target ++
                                    pending)
                              else .unsafePath .outsideStore
                    | some node =>
                        admitSteps tree policy hops followed (stack ++ [(name, node)]) pending
  termination_by hops _ _ pending => (hops, pending.length)

def maxNativeLinkHops : Nat := 40

/-- `_admit_native_path`. -/
def admitNativePath (tree : StoreTree) (policy : MissingPathPolicy) (raw : Text) : Admission :=
  match classifySyncPath tables raw with
  | .reservedControl => .reservedControl
  | .unsafePath reason => .unsafePath (.spelling reason)
  | .ordinary =>
      if raw.contains (Char.ofNat 0) then .unsafePath .metadataUnavailable
      else admitSteps tables tree policy maxNativeLinkHops [] [] (nativeRelativeParts raw)

/-! ## The walk -/

/-- `os.path.join` of relative names. -/
def joinParts (parts : List Text) : Text :=
  ['/'].intercalate parts

/-- A file that the walk meets: its native path under the root, and its content or why it is
refused. -/
structure WalkEntry where
  parts : List Text
  outcome : Except AdmissionReason Bytes

/-- A link is met like the file that it leads to. -/
def walkLink (tree : StoreTree) (parts : List Text) : List WalkEntry :=
  match admitNativePath tables tree .observed (joinParts parts) with
  | .unsafePath reason => [⟨parts, .error reason⟩]
  | .existing _ (.regularFile content) => [⟨parts, .ok content⟩]
  | _ => []

mutual
def walkNode (tree : StoreTree) (parts : List Text) : Node → List WalkEntry
  | .file content => [⟨parts, .ok content⟩]
  | .folder entries => walkFolder tree parts entries
  | .link _ => walkLink tables tree parts
  | .special => []
def walkFolder (tree : StoreTree) (above : List Text) : Folder → List WalkEntry
  | .empty => []
  | .entry name node rest =>
      (match classifyComponentPath tables (above ++ [name]) with
        | .reservedControl => []
        | .unsafePath reason => [⟨above ++ [name], .error (.spelling reason)⟩]
        | .ordinary => walkNode tree (above ++ [name]) node) ++
        walkFolder tree above rest
end

/-- `_walk_store_files`. -/
def walkStoreFiles (tree : StoreTree) : List WalkEntry :=
  walkFolder tables tree [] tree.root

end Sync
end Nauro
