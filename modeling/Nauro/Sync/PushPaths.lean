import Nauro.Sync.PushPlan

/-!
# Paths of a push and of a pull

A push names an object after the path of its file; a pull admits the name and walks it. The two
agree on a file unless its name has a backslash, which the push takes for a separator, or starts
like a drive.

* `paths_agree_iff` — when push and pull agree on a store.
-/

namespace Nauro
namespace Sync

open Foundation Nauro.Core

variable (tables : SyncTables)

/-! ## The pull's side -/

/-- `_destination_admitted`. -/
def destinationAdmitted (tree : StoreTree) (rel : Text) : Admission :=
  match classifySyncPath tables rel with
  | .reservedControl => .reservedControl
  | .unsafePath reason => .unsafePath (.spelling reason)
  | .ordinary =>
      match admitNativePath tables tree .createDestination rel with
      | .existing _ .irregular => .unsafePath .metadataUnavailable
      | admission => admission

inductive ContentMatch where
  | isSame
  | differs
  | unknown
deriving DecidableEq

/-- What else a pull knows: its state, the entry's etag, whether and where the decisions are, which
names it mints for decisions, and how bytes compare with an etag. -/
structure PullSide where
  state : SyncState
  etag : Text
  decisionsUsable : Bool
  decisionsRoot : List Text
  canonicalFilename : Text → Bool
  compare : Bytes → Text → ContentMatch
  sha256Hex : Bytes → Text

inductive Route where
  | ignore
  | unusable
  | refuse
  | gate
  | install
  | adopt
  | conflict
deriving DecidableEq

def decisionsDir : Text := "decisions".toList
def snapshotsDir : Text := "snapshots".toList

/-- `_is_decision_path`. -/
def isDecisionPath (rel : Text) : Bool :=
  match rel.splitOn '/' with
  | head :: _ :: _ => casefold tables head = decisionsDir
  | _ => false

/-- `is_canonical_decision_path`. -/
def isCanonicalDecisionPath (side : PullSide) (rel : Text) : Bool :=
  match rel.splitOn '/' with
  | [directory, filename] => directory = decisionsDir && side.canonicalFilename filename
  | _ => false

/-- `_is_canonical_snapshot_path`. -/
def isCanonicalSnapshotPath (rel : Text) : Bool :=
  match rel.splitOn '/' with
  | head :: first :: rest =>
      head = snapshotsDir &&
        (first :: rest).all fun part => part ≠ [] ∧ part ≠ ".".toList ∧ part ≠ "..".toList
  | _ => false

/-- `needs_decision_gate`. -/
def needsDecisionGate (side : PullSide) (rel : Text) (insideDecisions isThere : Bool) : Bool :=
  (isDecisionPath tables rel || insideDecisions) &&
    (!isCanonicalDecisionPath side rel ||
      ((side.state.files.get? rel).isNone || !isThere))

/-- The parts of `store_path / rel`. -/
def destinationParts (rel : Text) : List Text :=
  (slashParts rel).filter (· ≠ ".".toList)

/-- The routes of a file that is there and that no gate stops. -/
def routeExisting (side : PullSide) (rel : Text) (content : Bytes) : Route :=
  if side.compare content side.etag = .isSame then .adopt
  else if (side.state.files.get? rel).map FileState.localSha256 = some (side.sha256Hex content) then
    .install
  else .conflict

/-- `_route_entry` of a path without backslashes, as the keys of a push are. -/
def routeEntry (side : PullSide) (tree : StoreTree) (rel : Text) : Route :=
  if shouldSkip tables rel then .ignore
  else if "..".toList ∈ slashParts rel ∨ rel.head? = some '/' then .unusable
  else
    match destinationAdmitted tables tree rel with
    | .reservedControl => .ignore
    | .unsafePath _ =>
        if isDecisionPath tables rel ∧ ¬ side.decisionsUsable ∧
            classifySyncPath tables rel = .ordinary then .refuse
        else .unusable
    | .absent resolved =>
        let insideDecisions := side.decisionsRoot.isPrefixOf resolved
        if (isDecisionPath tables rel ∨ insideDecisions) ∧ ¬ side.decisionsUsable then .refuse
        else if isCanonicalSnapshotPath rel then .ignore
        else if needsDecisionGate tables side rel insideDecisions false then .gate
        else .install
    | .existing resolved kind =>
        let insideDecisions := side.decisionsRoot.isPrefixOf resolved
        if (isDecisionPath tables rel ∨ insideDecisions) ∧ ¬ side.decisionsUsable then .refuse
        else if resolved = [] then .unusable
        else if isCanonicalSnapshotPath rel then .ignore
        else if (side.state.files.get? rel).map FileState.remoteEtag = some side.etag then .ignore
        else if needsDecisionGate tables side rel insideDecisions true then .gate
        else
          match kind with
          | .regularFile content => routeExisting side rel content
          | _ => .unusable

/-! ## Joined names -/

variable {tables} {parts : List Text}

theorem splitOn_joinParts (hparts : ∀ part ∈ parts, IsName part) (hne : parts ≠ []) :
    (joinParts parts).splitOn '/' = parts :=
  List.splitOn_intercalate '/' (fun part hpart => (hparts part hpart).2.1) hne

theorem slashParts_joinParts (hparts : ∀ part ∈ parts, IsName part) (hne : parts ≠ []) :
    slashParts (joinParts parts) = parts := by
  unfold slashParts
  rw [splitOn_joinParts hparts hne, List.filter_eq_self]
  exact fun part hpart => decide_eq_true (hparts part hpart).1

theorem mem_joinParts {c : Char} (h : c ∈ joinParts parts) : c = '/' ∨ ∃ part ∈ parts, c ∈ part := by
  induction parts with
  | nil => cases h
  | cons part rest ih =>
      cases rest with
      | nil =>
          have hpart : c ∈ part := by simpa [joinParts] using h
          exact Or.inr ⟨part, List.mem_cons_self .., hpart⟩
      | cons next rest =>
          rw [joinParts, LineText.intercalate_cons_cons] at h
          rcases List.mem_append.mp h with hpart | hrest
          · exact Or.inr ⟨part, List.mem_cons_self .., hpart⟩
          · rcases List.mem_cons.mp hrest with rfl | hlater
            · exact Or.inl rfl
            · refine (ih hlater).imp_right ?_
              rintro ⟨other, hother, hc⟩
              exact ⟨other, List.mem_cons_of_mem _ hother, hc⟩

theorem joinParts_head (hparts : ∀ part ∈ parts, IsName part) (hne : parts ≠ []) :
    ∃ c rest more, parts.head? = some (c :: rest) ∧ c ≠ '/' ∧ joinParts parts = c :: more := by
  cases parts with
  | nil => exact absurd rfl hne
  | cons part others =>
      obtain ⟨hpart, hslash, -⟩ := hparts part (List.mem_cons_self ..)
      obtain ⟨c, rest, rfl⟩ := List.exists_cons_of_ne_nil hpart
      have hc : c ≠ '/' := fun heq => hslash (heq ▸ List.mem_cons_self ..)
      cases others with
      | nil => exact ⟨c, rest, rest, rfl, hc, by simp [joinParts]⟩
      | cons next others =>
          exact ⟨c, rest, rest ++ '/' :: joinParts (next :: others), rfl, hc,
            LineText.intercalate_cons_cons _ _ _⟩

theorem joinParts_getLast (hparts : ∀ part ∈ parts, IsName part) (hne : parts ≠ []) :
    (joinParts parts).getLast? ≠ some '/' := by
  intro hlast
  have hsplit := splitOn_joinParts hparts hne
  obtain ⟨front, hfront⟩ := List.getLast?_eq_some_iff.mp hlast
  have hempty : (joinParts parts).splitOn '/' = front.splitOn '/' ++ [[]] := by
    rw [hfront]
    exact LineText.splitOn_append_sep front []
  have hnil : ([] : Text) ∈ parts := by
    rw [← hsplit, hempty]
    exact List.mem_append_right _ (List.mem_singleton_self _)
  exact (hparts [] hnil).1 rfl

theorem nativeRelativeParts_joinParts (hparts : ∀ part ∈ parts, IsName part) (hne : parts ≠ []) :
    nativeRelativeParts (joinParts parts) = parts.map .component := by
  unfold nativeRelativeParts
  rw [slashParts_joinParts hparts hne, if_neg (joinParts_getLast hparts hne), List.append_nil]

theorem backslash_notMem_joinParts (hplain : ∀ part ∈ parts, '\\' ∉ part) :
    '\\' ∉ joinParts parts := by
  intro hin
  rcases mem_joinParts hin with heq | ⟨part, hpart, hc⟩
  · exact absurd heq (by decide)
  · exact hplain part hpart hc

theorem nul_notMem_joinParts (hparts : ∀ part ∈ parts, IsName part) :
    (joinParts parts).contains (Char.ofNat 0) = false := by
  rw [List.contains_eq_mem, decide_eq_false_iff_not]
  intro hin
  rcases mem_joinParts hin with heq | ⟨part, hpart, hc⟩
  · exact absurd heq (by decide)
  · exact (hparts part hpart).2.2.1 hc

/-! ## The spelling of joined names -/

/-- Only a backslash folds to a text with a backslash. -/
structure SyncTables.KeepsBackslash (tables : SyncTables) : Prop where
  fold_ne_nil : ∀ c, tables.foldChar c ≠ []
  fold_backslash : ∀ c, c ≠ '\\' → '\\' ∉ tables.foldChar c

theorem SyncTables.ascii_keepsBackslash : SyncTables.ascii.KeepsBackslash where
  fold_ne_nil _ := List.cons_ne_nil _ _
  fold_backslash c hc := by
    have hlower : c.toLower ≠ '\\' := by
      intro heq
      by_cases hupper : 65 ≤ c.toNat ∧ c.toNat ≤ 90
      · have hnat := toLower_toNat hupper
        rw [heq] at hnat
        have hcode : '\\'.toNat = 92 := rfl
        omega
      · exact hc (by rw [← toLower_eq_self hupper, heq])
    exact fun hin => hlower (List.mem_singleton.mp hin).symm

/-- The second character of a path marks a drive. -/
def HasDrive (raw : Text) : Prop :=
  (raw.drop 1).head? = some ':'

instance (raw : Text) : Decidable (HasDrive raw) :=
  inferInstanceAs (Decidable (_ = _))

theorem head_casefold {tables : SyncTables} (htables : tables.KeepsBackslash) {c : Char}
    (hc : c ≠ '\\') (rest : Text) : (casefold tables (c :: rest)).head? ≠ some '\\' := by
  obtain ⟨first, others, hfold⟩ := List.exists_cons_of_ne_nil (htables.fold_ne_nil c)
  have hnot := htables.fold_backslash c hc
  rw [hfold] at hnot
  rw [casefold, List.flatMap_cons, hfold]
  intro heq
  exact hnot (by rw [← Option.some.inj heq]; exact List.mem_cons_self ..)

theorem not_backslash_prefix {pattern text : Text} (hpattern : pattern.head? = some '\\')
    (htext : text.head? ≠ some '\\') : pattern.isPrefixOf text = false := by
  rw [Bool.eq_false_iff, Ne, List.isPrefixOf_iff_prefix]
  rintro ⟨more, rfl⟩
  obtain ⟨rest, rfl⟩ := List.head?_eq_some_iff.mp hpattern
  exact htext rfl

/-- Names without backslashes spell a path that only a drive makes unusable. -/
theorem syncInputFailure_joinParts (htables : tables.KeepsBackslash)
    (hparts : ∀ part ∈ parts, IsName part) (hne : parts ≠ [])
    (hplain : ∀ part ∈ parts, '\\' ∉ part) :
    syncInputFailure tables (joinParts parts) =
      if HasDrive (joinParts parts) then some .rawDrive else none := by
  obtain ⟨c, rest, more, hhead, hslash, hjoin⟩ := joinParts_head hparts hne
  have hraw := backslash_notMem_joinParts hplain
  have hback : c ≠ '\\' := fun heq => hraw (by rw [hjoin, heq]; exact List.mem_cons_self ..)
  have hslashes : backSlashes (joinParts parts) = c :: backSlashes more := by
    rw [hjoin]
    show (if c = '/' then '\\' else c) :: backSlashes more = _
    rw [if_neg hslash]
  have hdevice : (devicePrefixes.any fun device =>
      device.isPrefixOf (casefold tables (backSlashes (joinParts parts)))) = false := by
    rw [List.any_eq_false]
    intro device hdevice
    have hpattern : device.head? = some '\\' := by
      have hall : devicePrefixes.all (fun device => device.head? == some '\\') = true := by decide
      exact beq_iff_eq.mp (List.all_eq_true.mp hall device hdevice)
    rw [hslashes, not_backslash_prefix hpattern (head_casefold htables hback _)]
    exact Bool.false_ne_true
  have hunc : "\\\\".toList.isPrefixOf (joinParts parts) = false :=
    not_backslash_prefix rfl (by rw [hjoin]; exact fun heq => hback (Option.some.inj heq))
  have hshare : "\\\\".toList.isPrefixOf (backSlashes (joinParts parts)) = false :=
    not_backslash_prefix rfl (by rw [hslashes]; exact fun heq => hback (Option.some.inj heq))
  have hrooted : "\\".toList.isPrefixOf (joinParts parts) = false :=
    not_backslash_prefix rfl (by rw [hjoin]; exact fun heq => hback (Option.some.inj heq))
  have hroot (text : Text) : ('/' :: text).isPrefixOf (joinParts parts) = false := by
    rw [hjoin, List.isPrefixOf, Bool.and_eq_false_iff]
    exact Or.inl (beq_eq_false_iff_ne.mpr (Ne.symm hslash))
  have hparent : "..".toList ∉ pathComponents (joinParts parts) := by
    unfold pathComponents
    rw [forwardSlashes_eq_self hraw, splitOn_joinParts hparts hne]
    exact fun hin => (hparts _ hin).2.2.2.2 rfl
  have hdouble : "//".toList.isPrefixOf (joinParts parts) = false := hroot ['/']
  have habsolute : "/".toList.isPrefixOf (joinParts parts) = false := hroot []
  unfold syncInputFailure
  by_cases hdrive : HasDrive (joinParts parts)
  · have hcolon : ((joinParts parts).drop 1).head? = some ':' := hdrive
    rw [if_pos hdrive]
    simp only [hdevice, hunc, hdouble, hcolon, Bool.or_self, decide_true, Bool.true_or,
      Bool.false_eq_true, if_false, if_true]
  · have hcolon : ¬ ((joinParts parts).drop 1).head? = some ':' := hdrive
    rw [if_neg hdrive]
    simp only [hdevice, hunc, hdouble, hshare, habsolute, hrooted, hcolon, if_neg hparent,
      decide_false, Bool.or_self, Bool.false_eq_true, if_false]

theorem classifySyncPath_joinParts (htables : tables.KeepsBackslash)
    (hparts : ∀ part ∈ parts, IsName part) (hne : parts ≠ [])
    (hplain : ∀ part ∈ parts, '\\' ∉ part) :
    classifySyncPath tables (joinParts parts) =
      if HasDrive (joinParts parts) then .unsafePath .rawDrive
      else classifyComponentPath tables parts := by
  have hraw := backslash_notMem_joinParts hplain
  have hcomponents : (pathComponents (joinParts parts)).filter
      (fun component => component ≠ [] ∧ component ≠ ['.']) = parts := by
    unfold pathComponents
    rw [forwardSlashes_eq_self hraw, splitOn_joinParts hparts hne, List.filter_eq_self]
    intro part hpart
    obtain ⟨hink, -, -, hdot, -⟩ := hparts part hpart
    exact decide_eq_true ⟨hink, hdot⟩
  unfold classifySyncPath
  rw [syncInputFailure_joinParts htables hparts hne hplain, hcomponents]
  by_cases hdrive : HasDrive (joinParts parts)
  · rw [if_pos hdrive, if_pos hdrive]
  · rw [if_neg hdrive, if_neg hdrive]

/-! ## Files that a walk meets -/

/-- The folders that a walk enters, by their names from the root. -/
inductive Reach (tables : SyncTables) (root : Folder) : List Text → Folder → Prop where
  | root : Reach tables root [] root
  | enter {above : List Text} {folder entries : Folder} {name : Text}
      (hreach : Reach tables root above folder) (hfind : folder.find? name = some (.folder entries))
      (hname : IsName name) (hclass : classifyComponentPath tables (above ++ [name]) = .ordinary) :
      Reach tables root (above ++ [name]) entries

/-- A file that a walk meets, or a link that it takes for one. -/
structure Walked (tables : SyncTables) (tree : StoreTree) (above : List Text) (name : Text)
    (content : Bytes) where
  folder : Folder
  node : Node
  reach : Reach tables tree.root above folder
  find : folder.find? name = some node
  isName : IsName name
  ordinary : classifyComponentPath tables (above ++ [name]) = .ordinary
  leads : node = .file content ∨ ∃ resolved,
    admitNativePath tables tree .observed (joinParts (above ++ [name])) =
      .existing resolved (.regularFile content)

variable {tree : StoreTree} {above : List Text} {content : Bytes}

theorem mem_walkLink (h : ⟨parts, .ok content⟩ ∈ walkLink tables tree parts) :
    ∃ resolved, admitNativePath tables tree .observed (joinParts parts) =
      .existing resolved (.regularFile content) := by
  unfold walkLink at h
  cases hadmitted : admitNativePath tables tree .observed (joinParts parts) with
  | unsafePath reason =>
      rw [hadmitted] at h
      have heq := List.mem_singleton.mp h
      exact absurd (congrArg WalkEntry.outcome heq) (by simp)
  | reservedControl =>
      rw [hadmitted] at h
      cases h
  | absent resolved =>
      rw [hadmitted] at h
      cases h
  | existing resolved kind =>
      rw [hadmitted] at h
      cases kind with
      | directory => cases h
      | irregular => cases h
      | regularFile found =>
          have heq := congrArg WalkEntry.outcome (List.mem_singleton.mp h)
          exact ⟨resolved, by rw [Except.ok.inj heq]⟩

theorem parts_of_mem_walkLink {entry : WalkEntry} (h : entry ∈ walkLink tables tree parts) :
    entry.parts = parts := by
  unfold walkLink at h
  split at h
  · rw [List.mem_singleton.mp h]
  · rw [List.mem_singleton.mp h]
  · cases h

mutual
theorem walkNode_spec {above : List Text} {node : Node} (hnode : node.WellFormed) {folder : Folder} {name : Text}
    (hreach : Reach tables tree.root above folder) (hfind : folder.find? name = some node)
    (hname : IsName name) (hclass : classifyComponentPath tables (above ++ [name]) = .ordinary)
    (h : ⟨parts, .ok content⟩ ∈ walkNode tables tree (above ++ [name]) node) :
    ∃ front last, parts = front ++ [last] ∧ Nonempty (Walked tables tree front last content) := by
  cases node with
  | file found =>
      have heq := List.mem_singleton.mp h
      have hparts := congrArg WalkEntry.parts heq
      have hcontent : content = found := Except.ok.inj (congrArg WalkEntry.outcome heq)
      exact ⟨above, name, hparts,
        ⟨folder, .file found, hreach, hfind, hname, hclass, Or.inl (by rw [hcontent])⟩⟩
  | folder entries =>
      exact walkFolder_spec hnode (.enter hreach hfind hname hclass) (fun _ _ h => h) h
  | link target =>
      have hparts := parts_of_mem_walkLink h
      dsimp only at hparts
      subst hparts
      exact ⟨above, name, rfl,
        ⟨folder, .link target, hreach, hfind, hname, hclass, Or.inr (mem_walkLink h)⟩⟩
  | special => cases h
theorem walkFolder_spec {above : List Text} {rest folder : Folder} (hrest : rest.WellFormed)
    (hreach : Reach tables tree.root above folder)
    (hsub : ∀ name node, rest.find? name = some node → folder.find? name = some node)
    (h : ⟨parts, .ok content⟩ ∈ walkFolder tables tree above rest) :
    ∃ front last, parts = front ++ [last] ∧ Nonempty (Walked tables tree front last content) := by
  cases rest with
  | empty => cases h
  | entry name node rest =>
      obtain ⟨hname, hnode, hfresh, hlater⟩ := hrest
      have hfirst : (Folder.entry name node rest).find? name = some node := by
        rw [Folder.find?, if_pos rfl]
      have hothers : ∀ other found, rest.find? other = some found →
          folder.find? other = some found := by
        intro other found hother
        apply hsub
        have hne : name ≠ other := by
          rintro rfl
          rw [hfresh] at hother
          cases hother
        rw [Folder.find?, if_neg hne, hother]
      rw [walkFolder] at h
      rcases List.mem_append.mp h with hentry | hin
      · cases hclass : classifyComponentPath tables (above ++ [name]) with
        | ordinary =>
            rw [hclass] at hentry
            exact walkNode_spec hnode hreach (hsub name node hfirst) hname hclass hentry
        | reservedControl =>
            rw [hclass] at hentry
            cases hentry
        | unsafePath reason =>
            rw [hclass] at hentry
            have heq := congrArg WalkEntry.outcome (List.mem_singleton.mp hentry)
            cases heq
      · exact walkFolder_spec hlater hreach hothers hin
end

theorem walked_of_mem (h : ⟨parts, .ok content⟩ ∈ walkStoreFiles tables tree) :
    ∃ front last, parts = front ++ [last] ∧ Nonempty (Walked tables tree front last content) :=
  walkFolder_spec tree.wellFormed .root (fun _ _ h => h) h

theorem Reach.names {root folder : Folder} (h : Reach tables root above folder) :
    ∀ part ∈ above, IsName part := by
  induction h with
  | root => exact fun _ h => absurd h List.not_mem_nil
  | enter hreach hfind hname hclass ih =>
      intro part hpart
      rcases List.mem_append.mp hpart with hin | hin
      · exact ih part hin
      · rw [List.mem_singleton.mp hin]
        exact hname

/-! ## The same file admitted -/

theorem admitSteps_component {policy : MissingPathPolicy} {hops : Nat} {followed : List (List Text)}
    {stack : List (Text × Node)} {pending : List PathStep} {folder : Folder} {name : Text}
    {node : Node} (hfolder : currentFolder tree.root stack = some folder)
    (hdot : name ≠ ".".toList) (hparent : name ≠ "..".toList)
    (hclass : classifyComponentPath tables (stackNames stack ++ [name]) = .ordinary)
    (hfind : folder.find? name = some node) (hlink : ∀ target, node ≠ .link target) :
    admitSteps tables tree policy hops followed stack (.component name :: pending) =
      admitSteps tables tree policy hops followed (stack ++ [(name, node)]) pending := by
  rw [admitSteps, hfolder]
  dsimp only
  rw [if_neg hdot, if_neg hparent, hclass, hfind]
  cases node with
  | link target => exact absurd rfl (hlink target)
  | file content => rfl
  | folder entries => rfl
  | special => rfl

theorem currentFolder_concat (root : Folder) (stack : List (Text × Node)) (name : Text)
    (entries : Folder) : currentFolder root (stack ++ [(name, .folder entries)]) = some entries := by
  rw [currentFolder, List.getLast?_append]
  rfl

/-- The admission enters the folders that a walk enters. -/
theorem admitSteps_reach {folder : Folder} (h : Reach tables tree.root above folder) :
    ∃ stack, stackNames stack = above ∧ currentFolder tree.root stack = some folder ∧
      ∀ policy hops followed pending,
        admitSteps tables tree policy hops followed [] (above.map .component ++ pending) =
          admitSteps tables tree policy hops followed stack pending := by
  induction h with
  | root => exact ⟨[], rfl, rfl, fun _ _ _ _ => rfl⟩
  | @enter above folder entries name hreach hfind hname hclass ih =>
      obtain ⟨stack, hstack, hfolder, hwalk⟩ := ih
      refine ⟨stack ++ [(name, .folder entries)], ?_, currentFolder_concat _ _ _ _, ?_⟩
      · rw [stackNames, List.map_append]
        change stackNames stack ++ [name] = above ++ [name]
        rw [hstack]
      · intro policy hops followed pending
        obtain ⟨-, -, -, hdot, hparent⟩ := hname
        rw [List.map_append, List.append_assoc, hwalk]
        rw [← hstack] at hclass
        exact admitSteps_component hfolder hdot hparent hclass hfind (by intro target heq; cases heq)

theorem classifyMissing_ne_existing {above resolved : List Text} {kind : NativeKind}
    {pending : List PathStep} :
    classifyMissing tables above pending ≠ .existing resolved kind := by
  fun_induction classifyMissing tables above pending with
  | case1 => exact fun h => by cases h
  | case2 above pending ih => exact ih
  | case3 above pending ih => exact ih
  | case4 => exact fun h => by cases h
  | case5 above name pending hdot hparent hclass ih => exact ih
  | case6 => exact fun h => by cases h
  | case7 => exact fun h => by cases h

theorem missingAdmission_ne_existing {policy : MissingPathPolicy} {above resolved : List Text}
    {kind : NativeKind} {name : Text} {pending : List PathStep} :
    missingAdmission tables policy above name pending ≠ .existing resolved kind := by
  cases policy with
  | observed => exact fun h => by cases h
  | createDestination => exact classifyMissing_ne_existing

section

variable {hops : Nat} {followed : List (List Text)} {stack : List (Text × Node)}
  {pending : List PathStep} {resolved : List Text} {kind : NativeKind}

/-- What exists is where the walk ended. -/
theorem admitSteps_existing {policy : MissingPathPolicy}
    (h : admitSteps tables tree policy hops followed stack pending = .existing resolved kind) :
    ∃ reached, resolved = stackNames reached ∧ kind = stackKind reached := by
  fun_induction admitSteps tables tree policy hops followed stack pending with
  | case1 hops followed stack =>
      injection h with hresolved hkind
      exact ⟨stack, hresolved.symm, hkind.symm⟩
  | case2 | case5 | case7 | case8 | case10 | case11 | case14 => cases h
  | case9 => exact absurd h missingAdmission_ne_existing
  | case3 | case4 | case6 | case12 | case13 | case15 =>
      rename_i ih
      exact ih h

theorem resolved_ne_nil {policy : MissingPathPolicy}
    (h : admitSteps tables tree policy hops followed stack pending =
      .existing resolved (.regularFile content)) : resolved ≠ [] := by
  obtain ⟨reached, rfl, hkind⟩ := admitSteps_existing h
  rintro hnames
  rw [List.map_eq_nil_iff.mp hnames] at hkind
  cases hkind

/-- What exists is found whatever becomes of what does not. -/
theorem admitSteps_of_existing (policy : MissingPathPolicy)
    (h : admitSteps tables tree .observed hops followed stack pending = .existing resolved kind) :
    admitSteps tables tree policy hops followed stack pending = .existing resolved kind := by
  fun_induction admitSteps tables tree .observed hops followed stack pending with
  | case1 =>
      rw [admitSteps]
      exact h
  | case2 | case5 | case7 | case8 | case10 | case11 | case14 => cases h
  | case9 => exact absurd h missingAdmission_ne_existing
  | case3 hops followed stack pending folder hfolder ih =>
      rw [admitSteps, hfolder]
      exact ih h
  | case4 hops followed stack pending folder hfolder ih =>
      rw [admitSteps, hfolder]
      exact ih h
  | case6 hops followed stack pending folder hfolder hstack hparent ih =>
      rw [admitSteps, hfolder]
      dsimp only
      rw [if_neg hparent, if_pos rfl, if_neg hstack]
      exact ih h
  | case12 =>
      rename_i hfolder name hdot hparent hclass target hfind hfresh hops followed parts hhead ih
      rw [admitSteps, hfolder]
      dsimp only
      rw [if_neg hdot, if_neg hparent, hclass, hfind]
      dsimp only
      rw [if_neg hfresh, if_pos hhead]
      exact ih h
  | case13 =>
      rename_i hfolder name hdot hparent hclass target hfind hfresh hops followed parts hhead hroot ih
      rw [admitSteps, hfolder]
      dsimp only
      rw [if_neg hdot, if_neg hparent, hclass, hfind]
      dsimp only
      rw [if_neg hfresh, if_neg hhead, if_pos hroot]
      exact ih h
  | case15 =>
      rename_i hfolder name hdot hparent hclass node hlink hfind ih
      rw [admitSteps_component hfolder hdot hparent hclass hfind hlink]
      exact ih h

end

theorem Walked.names {name : Text} (walked : Walked tables tree above name content) :
    ∀ part ∈ above ++ [name], IsName part := by
  intro part hpart
  rcases List.mem_append.mp hpart with hin | hin
  · exact walked.reach.names part hin
  · rw [List.mem_singleton.mp hin]
    exact walked.isName

/-- A walked file is admitted under its own name. -/
theorem admitNativePath_walked {name : Text}
    (walked : Walked tables tree above name content) {raw : Text}
    (hraw : raw = joinParts (above ++ [name]))
    (hclass : classifySyncPath tables raw = .ordinary) :
    ∃ resolved, resolved ≠ [] ∧ admitNativePath tables tree .createDestination raw =
      .existing resolved (.regularFile content) := by
  have hnames := walked.names
  have hne : above ++ [name] ≠ [] := List.append_ne_nil_of_right_ne_nil _ (List.cons_ne_nil _ _)
  have hnul : raw.contains (Char.ofNat 0) = false := by
    rw [hraw]
    exact nul_notMem_joinParts hnames
  have hstart (policy : MissingPathPolicy) : admitNativePath tables tree policy raw =
      admitSteps tables tree policy maxNativeLinkHops [] [] (nativeRelativeParts raw) := by
    rw [admitNativePath, hclass]
    dsimp only
    rw [hnul, if_neg Bool.false_ne_true]
  rcases walked.leads with hfile | ⟨resolved, hlink⟩
  · obtain ⟨stack, hstack, hfolder, hwalk⟩ := admitSteps_reach walked.reach
    obtain ⟨-, -, -, hdot, hparent⟩ := walked.isName
    have hsteps : nativeRelativeParts raw = above.map .component ++ [.component name] := by
      rw [hraw, nativeRelativeParts_joinParts hnames hne, List.map_append]
      rfl
    have hordinary := walked.ordinary
    have hfind := walked.find
    rw [← hstack] at hordinary
    rw [hfile] at hfind
    refine ⟨stackNames (stack ++ [(name, .file content)]), ?_, ?_⟩
    · rw [stackNames, List.map_append]
      exact List.append_ne_nil_of_right_ne_nil _ (List.cons_ne_nil _ _)
    · rw [hstart, hsteps, hwalk, admitSteps_component hfolder hdot hparent hordinary hfind
        (by intro target heq; cases heq), admitSteps, stackKind, List.getLast?_append]
      rfl
  · rw [← hraw, hstart] at hlink
    exact ⟨resolved, resolved_ne_nil hlink, by rw [hstart, admitSteps_of_existing _ hlink]⟩

/-! ## Agreement -/

/-- No part of the name has a backslash, and the name does not start like a drive. -/
def IsPortable (localFile : List Text) : Prop :=
  (∀ part ∈ localFile, '\\' ∉ part) ∧ ¬ HasDrive (joinParts localFile)

instance (localFile : List Text) : Decidable (IsPortable localFile) :=
  inferInstanceAs (Decidable (_ ∧ _))

/-- A pull of the candidate's path, whatever else the pull knows, comes to the file that the push
would read. -/
structure PathsAgree (tables : SyncTables) (sha256Hex : Bytes → Text) (tree : StoreTree)
    (candidate : PushCandidate) : Prop where
  usable : ∀ side, routeEntry tables side tree candidate.relativePath ≠ .unusable
  sameFile : destinationParts candidate.relativePath = candidate.localFile
  sameBytes : ∃ resolved content,
    destinationAdmitted tables tree candidate.relativePath =
      .existing resolved (.regularFile content) ∧ sha256Hex content = candidate.localSha256

theorem backslash_notMem_forwardSlashes (raw : Text) : '\\' ∉ forwardSlashes raw := by
  intro hin
  obtain ⟨c, -, heq⟩ := List.mem_map.mp hin
  split_ifs at heq with hc
  · exact absurd heq (by decide)
  · exact hc heq

theorem destinationParts_normalizeRel_plain {raw part : Text}
    (hpart : part ∈ destinationParts (normalizeRel raw)) : '\\' ∉ part := by
  intro hin
  have hslash : part ∈ slashParts (normalizeRel raw) := (List.mem_filter.mp hpart).1
  have hsplit : part ∈ (normalizeRel raw).splitOn '/' := (List.mem_filter.mp hslash).1
  exact backslash_notMem_forwardSlashes raw (LineText.mem_of_mem_splitOn hsplit hin)

section

variable {sha256Hex : Bytes → Text} {state : SyncState} {candidate : PushCandidate}

theorem routeExisting_ne_unusable (side : PullSide) (rel : Text) (content : Bytes) :
    routeExisting side rel content ≠ .unusable := by
  unfold routeExisting
  split_ifs <;> exact fun h => by cases h

/-- A portable candidate is pulled to the file that it was read from. -/
theorem pathsAgree_of_portable (htables : tables.KeepsBackslash)
    (h : candidate ∈ (planPush tables sha256Hex state tree).candidates)
    (hportable : IsPortable candidate.localFile) : PathsAgree tables sha256Hex tree candidate := by
  obtain ⟨content, hentry, hsha, hrel, hexcluded⟩ := mem_candidates h
  obtain ⟨above, name, hparts, ⟨walked⟩⟩ := walked_of_mem hentry
  obtain ⟨hplain, hdrive⟩ := hportable
  have hne : candidate.localFile ≠ [] := by
    rw [hparts]
    exact List.append_ne_nil_of_right_ne_nil _ (List.cons_ne_nil _ _)
  have hnames : ∀ part ∈ candidate.localFile, IsName part := by
    rw [hparts]
    exact walked.names
  have hraw : candidate.relativePath = joinParts candidate.localFile := by
    rw [hrel]
    exact forwardSlashes_eq_self (backslash_notMem_joinParts hplain)
  have hclass : classifySyncPath tables candidate.relativePath = .ordinary := by
    rw [hraw, classifySyncPath_joinParts htables hnames hne hplain, if_neg hdrive, hparts]
    exact walked.ordinary
  obtain ⟨resolved, hresolved, hadmitted⟩ :=
    admitNativePath_walked walked (by rw [hraw, hparts]) hclass
  have hdestination : destinationAdmitted tables tree candidate.relativePath =
      .existing resolved (.regularFile content) := by
    rw [destinationAdmitted, hclass, hadmitted]
  have hslash : slashParts candidate.relativePath = candidate.localFile := by
    rw [hraw, slashParts_joinParts hnames hne]
  refine ⟨?_, ?_, ⟨resolved, content, hdestination, hsha.symm⟩⟩
  · intro side
    have hskip : shouldSkip tables candidate.relativePath = false := by
      unfold isExcluded at hexcluded
      rw [Bool.or_eq_false_iff, Bool.or_eq_false_iff] at hexcluded
      exact hexcluded.1.1
    have hparent : ¬ ("..".toList ∈ slashParts candidate.relativePath ∨
        candidate.relativePath.head? = some '/') := by
      rw [hslash, hraw]
      rintro (hin | hhead)
      · exact (hnames _ hin).2.2.2.2 rfl
      · obtain ⟨c, rest, more, -, hc, hjoin⟩ := joinParts_head hnames hne
        rw [hjoin] at hhead
        exact hc (Option.some.inj hhead)
    unfold routeEntry
    rw [hskip, if_neg Bool.false_ne_true, if_neg hparent, hdestination]
    dsimp only
    rw [if_neg hresolved]
    split_ifs
    · exact fun h => by cases h
    · exact fun h => by cases h
    · exact fun h => by cases h
    · exact fun h => by cases h
    · exact routeExisting_ne_unusable side _ content
  · rw [destinationParts, hslash, List.filter_eq_self]
    exact fun part hpart => decide_eq_true (hnames part hpart).2.2.2.1

theorem sameFile_plain (h : candidate ∈ (planPush tables sha256Hex state tree).candidates)
    (hfile : destinationParts candidate.relativePath = candidate.localFile) :
    ∀ part ∈ candidate.localFile, '\\' ∉ part := by
  obtain ⟨content, -, -, hrel, -⟩ := mem_candidates h
  intro part hpart
  rw [← hfile, hrel] at hpart
  exact destinationParts_normalizeRel_plain hpart

/-- A name that starts like a drive is pushed, but no pull takes it. -/
theorem routeEntry_drive (htables : tables.KeepsBackslash)
    (h : candidate ∈ (planPush tables sha256Hex state tree).candidates)
    (hplain : ∀ part ∈ candidate.localFile, '\\' ∉ part)
    (hdrive : HasDrive (joinParts candidate.localFile)) (side : PullSide) :
    routeEntry tables side tree candidate.relativePath = .unusable := by
  obtain ⟨content, hentry, -, hrel, hexcluded⟩ := mem_candidates h
  obtain ⟨above, name, hparts, ⟨walked⟩⟩ := walked_of_mem hentry
  have hne : candidate.localFile ≠ [] := by
    rw [hparts]
    exact List.append_ne_nil_of_right_ne_nil _ (List.cons_ne_nil _ _)
  have hnames : ∀ part ∈ candidate.localFile, IsName part := by
    rw [hparts]
    exact walked.names
  have hclass : classifySyncPath tables candidate.relativePath = .unsafePath .rawDrive := by
    rw [hrel, normalizeRel, forwardSlashes_eq_self (backslash_notMem_joinParts hplain),
      classifySyncPath_joinParts htables hnames hne hplain, if_pos hdrive]
  have hskip : shouldSkip tables candidate.relativePath = false := by
    unfold isExcluded at hexcluded
    rw [Bool.or_eq_false_iff, Bool.or_eq_false_iff] at hexcluded
    exact hexcluded.1.1
  have hrefuse : ¬ (isDecisionPath tables candidate.relativePath ∧ ¬ side.decisionsUsable ∧
      classifySyncPath tables candidate.relativePath = .ordinary) := by
    rw [hclass]
    rintro ⟨-, -, heq⟩
    cases heq
  unfold routeEntry
  rw [hskip, if_neg Bool.false_ne_true]
  by_cases hparent : "..".toList ∈ slashParts candidate.relativePath ∨
      candidate.relativePath.head? = some '/'
  · exact if_pos hparent
  · rw [if_neg hparent, destinationAdmitted, hclass]
    rw [hclass] at hrefuse
    exact if_neg hrefuse

end

/-- Push and pull agree on a store when every file that a push selects has a portable name, and
only then. -/
theorem paths_agree_iff (htables : tables.KeepsBackslash) (sha256Hex : Bytes → Text)
    (state : SyncState) (tree : StoreTree) :
    ((∀ candidate ∈ (planPush tables sha256Hex state tree).candidates,
        PathsAgree tables sha256Hex tree candidate) ∧
      ∀ candidate ∈ (planPush tables sha256Hex state tree).candidates,
        ∀ other ∈ (planPush tables sha256Hex state tree).candidates,
          candidate.relativePath = other.relativePath → candidate.localFile = other.localFile) ↔
      ∀ candidate ∈ (planPush tables sha256Hex state tree).candidates,
        IsPortable candidate.localFile := by
  constructor
  · rintro ⟨hagree, -⟩ candidate hcandidate
    have hplain := sameFile_plain hcandidate (hagree candidate hcandidate).sameFile
    refine ⟨hplain, fun hdrive => ?_⟩
    let side : PullSide := ⟨state, [], true, [], fun _ => false, fun _ _ => .unknown, sha256Hex⟩
    exact (hagree candidate hcandidate).usable side
      (routeEntry_drive htables hcandidate hplain hdrive side)
  · intro hportable
    have hagree (candidate : PushCandidate)
        (hcandidate : candidate ∈ (planPush tables sha256Hex state tree).candidates) :=
      pathsAgree_of_portable htables hcandidate (hportable candidate hcandidate)
    refine ⟨hagree, fun candidate hcandidate other hother hsame => ?_⟩
    rw [← (hagree candidate hcandidate).sameFile, hsame, (hagree other hother).sameFile]

/-- The state before a first sync, and a digest that spells the bytes out. -/
def neverSynced : SyncState := ⟨Table.empty, []⟩
def spelledOut (content : Bytes) : Text :=
  content.map fun byte => Char.ofNat byte.toNat

def noteTree : StoreTree where
  canonicalParts := ["store".toList]
  root := .entry "notes".toList (.folder (.entry "a.md".toList (.file [1]) .empty)) .empty
  wellFormed := by decide

theorem note_agrees : (∀ candidate ∈ (planPush .ascii spelledOut neverSynced noteTree).candidates,
    PathsAgree .ascii spelledOut noteTree candidate) ∧
    (planPush .ascii spelledOut neverSynced noteTree).candidates ≠ [] :=
  ⟨((paths_agree_iff SyncTables.ascii_keepsBackslash spelledOut neverSynced noteTree).mpr
    (by decide +kernel)).1, by decide +kernel⟩

/-- Two files whose names differ in a slash, and one whose name starts like a drive. -/
def slashesTree : StoreTree where
  canonicalParts := ["store".toList]
  root := .entry "a\\b".toList (.file [1])
    (.entry "a".toList (.folder (.entry "b".toList (.file [2]) .empty))
      (.entry "c:x".toList (.file [3]) .empty))
  wellFormed := by decide

theorem slashes_disagree :
    (∃ candidate ∈ (planPush .ascii spelledOut neverSynced slashesTree).candidates, ∀ side,
      routeEntry .ascii side slashesTree candidate.relativePath = .unusable) ∧
    ∃ candidate ∈ (planPush .ascii spelledOut neverSynced slashesTree).candidates,
      ∃ other ∈ (planPush .ascii spelledOut neverSynced slashesTree).candidates,
        candidate.relativePath = other.relativePath ∧ candidate.localFile ≠ other.localFile := by
  constructor
  · refine ⟨⟨"c:x".toList, spelledOut [3], ["c:x".toList]⟩, by decide +kernel, ?_⟩
    have hselected : ⟨"c:x".toList, spelledOut [3], ["c:x".toList]⟩ ∈
        (planPush .ascii spelledOut neverSynced slashesTree).candidates := by decide +kernel
    exact routeEntry_drive SyncTables.ascii_keepsBackslash hselected (by decide) (by decide)
  · exact ⟨⟨"a/b".toList, spelledOut [1], ["a\\b".toList]⟩, by decide +kernel,
      ⟨"a/b".toList, spelledOut [2], ["a".toList, "b".toList]⟩, by decide +kernel, rfl, by decide⟩

end Sync
end Nauro
