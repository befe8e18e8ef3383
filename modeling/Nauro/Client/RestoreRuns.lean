import Nauro.Client.RestorePaths

/-!
# Runs of a restore
-/

namespace Nauro
namespace Client

open Foundation Foundation.Session Nauro.Core Nauro.Sync

variable {File : Type} (rules : RestoreRules File)

/-! ## Assertions -/

/-- Every file is met as ordinary by a walk. -/
def Ordinary (tree : Tree) : Prop :=
  ∀ path content, tree.get? path = some content → walkClass rules.tables path = .ordinary

/-- The record that a run found vouches for a staged file it found, under the entry that the
manifest now has for the path. -/
def Trusted (found : RestoreDisk File) (world : RestoreWorld) (path : Text) (content : Bytes) :
    Prop :=
  ∃ entries skipped entry record,
    admittedEntries rules world.manifest = .ok (entries, skipped) ∧
      entries.get? path = some entry ∧ found.staging.tree.get? path = some content ∧
      (readLedger rules found.ledger).get? path = some record ∧ record.etag = entry.etag ∧
      rules.sha256Hex content = record.sha256

/-- Every staged file that was kept is trusted. -/
def KeptTrusted (found : RestoreDisk File) (world : RestoreWorld) (trace : List RestoreEvent) :
    Prop :=
  ∀ path content, .kept path content ∈ trace → Trusted rules found world path content

/-- Before the install step of a run that found the given disk. -/
structure Untouched (found : RestoreDisk File) (world : RestoreWorld) (disk : RestoreDisk File)
    (trace : List RestoreEvent) : Prop where
  destination : disk.destination = found.destination
  ordinary : Ordinary rules disk.staging.tree
  notInstalling : .installing ∉ trace
  kept : KeptTrusted rules found world trace
  ledger : (∀ path content, .accepted path content ∉ trace) → disk.ledger = found.ledger

/-- The run staged the file itself, or kept it. -/
def Sourced (trace : List RestoreEvent) (path : Text) (content : Bytes) : Prop :=
  .kept path content ∈ trace ∨ .accepted path content ∈ trace

/-- The file of a path passed the checks of the manifest, and the record says what it is. -/
def Verified (entries : Table Text ManifestEntry) (ledger : StagingLedger) (tree : Tree)
    (trace : List RestoreEvent) (path : Text) : Prop :=
  ∃ entry content, entries.get? path = some entry ∧ tree.get? path = some content ∧
    contentDefect rules content entry = none ∧ Sourced trace path content ∧
    ledger.get? path = some { etag := entry.etag, sha256 := rules.sha256Hex content }

/-- The staged files are those of the paths in hand, and so are the rows of the record. -/
structure Matched (entries : Table Text ManifestEntry) (inHand : Text → Prop)
    (ledger : StagingLedger) (tree : Tree) (trace : List RestoreEvent) : Prop where
  files : ∀ path, (tree.get? path).isSome = true → inHand path
  rows : ∀ path, (ledger.get? path).isSome = true → inHand path
  verified : ∀ path, inHand path → Verified rules entries ledger tree trace path

/-- The destination holds the files of the manifest, each with a content that passed its checks,
and the sync state, which records the digest and the tag of each. -/
def Restored (world : RestoreWorld) (disk : RestoreDisk File) (trace : List RestoreEvent) : Prop :=
  ∃ entries skipped tree state,
    admittedEntries rules world.manifest = .ok (entries, skipped) ∧
      disk.destination = .folder tree ∧
      tree.get? syncStateFile = some (rules.dumpState state) ∧
      (∀ path, path ≠ syncStateFile →
        ((tree.get? path).isSome = true ↔ (entries.get? path).isSome = true)) ∧
      (∀ path, (state.files.get? path).isSome = true ↔ (entries.get? path).isSome = true) ∧
      ∀ path entry, entries.get? path = some entry →
        ∃ content, tree.get? path = some content ∧ contentDefect rules content entry = none ∧
          Sourced trace path content ∧
          state.files.get? path = some
            { localSha256 := rules.sha256Hex content, remoteEtag := entry.etag
              lastSync := world.now }

/-- What a run leaves, wherever it stops: the destination it found, an empty place for it, or
the restored record. -/
structure Left (found : RestoreDisk File) (world : RestoreWorld) (disk : RestoreDisk File)
    (trace : List RestoreEvent) : Prop where
  destination : disk.destination = found.destination ∨
    (found.destination.isAvailable = true ∧
      (disk.destination = .absent ∨ Restored rules world disk trace))
  untouched : .installing ∉ trace → disk.destination = found.destination
  ordinary : Ordinary rules disk.staging.tree
  kept : KeptTrusted rules found world trace

variable {rules} {world : RestoreWorld} {found : RestoreDisk File}

theorem Untouched.left {disk : RestoreDisk File} {trace : List RestoreEvent}
    (h : Untouched rules found world disk trace) : Left rules found world disk trace where
  destination := .inl h.destination
  untouched _ := h.destination
  ordinary := h.ordinary
  kept := h.kept

theorem ordinary_empty : Ordinary rules .empty :=
  fun _ _ h => nomatch h

theorem Ordinary.erase {tree : Tree} (h : Ordinary rules tree) (path : Text) :
    Ordinary rules (tree.erase path) := by
  intro other content hother
  by_cases hsame : other = path
  · subst hsame
    rw [Table.get?_erase_self] at hother
    cases hother
  · rw [Table.get?_erase_of_ne hsame] at hother
    exact h other content hother

theorem Ordinary.put {tree : Tree} (h : Ordinary rules tree) {path : Text}
    (hpath : walkClass rules.tables path = .ordinary) (content : Bytes) :
    Ordinary rules (tree.put path content) := by
  intro other found hother
  by_cases hsame : other = path
  · subst hsame
    exact hpath
  · rw [Table.get?_put_of_ne hsame] at hother
    exact h other found hother

/-! ## Steps before the install -/

/-- A step before the install step, with assertions on the staged files and the events. -/
abbrev Stages {α : Type} (rules : RestoreRules File) (found : RestoreDisk File)
    (world : RestoreWorld) (X : Tree → List RestoreEvent → Prop) (x : RestoreCall File α)
    (Y : α → Tree → List RestoreEvent → Prop) : Prop :=
  Holds (fun disk trace => Untouched rules found world disk trace ∧ X disk.staging.tree trace) x
    (fun a disk trace => Untouched rules found world disk trace ∧ Y a disk.staging.tree trace)
    (Left rules found world)

variable {α β : Type} {X : Tree → List RestoreEvent → Prop}

theorem Stages.bind {x : RestoreCall File α} {f : α → RestoreCall File β}
    {Y : α → Tree → List RestoreEvent → Prop} {Z : β → Tree → List RestoreEvent → Prop}
    (hx : Stages rules found world X x Y) (hf : ∀ a, Stages rules found world (Y a) (f a) Z) :
    Stages rules found world X (x >>= f) Z :=
  Holds.bind hx hf

theorem Stages.pure {a : α} {Y : α → Tree → List RestoreEvent → Prop}
    (h : ∀ tree trace, X tree trace → Y a tree trace) :
    Stages rules found world X (pure a : RestoreCall File α) Y :=
  Holds.pure fun _ _ hp => ⟨hp.1, h _ _ hp.2⟩

theorem Stages.throw {e : RestoreError} {Y : α → Tree → List RestoreEvent → Prop} :
    Stages rules found world X (throw e : RestoreCall File α) Y :=
  Holds.throw fun _ _ hp => hp.1.left

theorem Stages.weaken {x : RestoreCall File α} {X' : Tree → List RestoreEvent → Prop}
    {Y Y' : α → Tree → List RestoreEvent → Prop} (h : Stages rules found world X x Y)
    (hX : ∀ tree trace, X' tree trace → X tree trace)
    (hY : ∀ a tree trace, Y a tree trace → Y' a tree trace) :
    Stages rules found world X' x Y' :=
  Holds.weaken h (fun _ _ hp => ⟨hp.1, hX _ _ hp.2⟩) fun a _ _ hq => ⟨hq.1, hY a _ _ hq.2⟩

theorem point_stages (cut : Nat → Bool) :
    Stages rules found world X (point cut .stopped : RestoreCall File PUnit) fun _ => X :=
  Holds.point fun _ _ hp => hp.1.left

theorem ask_stages (answers : Nat → α) :
    Stages rules found world X (ask answers : RestoreCall File α) fun _ => X :=
  Holds.weaken (Holds.ask answers) (fun _ _ hp => hp) fun _ _ _ hq => hq.1

theorem ensure_stages {condition : Prop} [Decidable condition] {error : RestoreError} :
    Stages rules found world X (ensure condition error : RestoreCall File PUnit)
      fun _ tree trace => X tree trace ∧ condition :=
  Holds.weaken (Holds.ensure fun _ _ hp => hp.1.left) (fun _ _ hp => hp)
    fun _ _ _ hq => ⟨hq.1.1, hq.1.2, hq.2⟩

theorem mayFail_stages (error : RestoreError) :
    Stages rules found world X (mayFail world error : RestoreCall File PUnit) fun _ => X := by
  unfold mayFail
  refine (ask_stages world.fails).bind fun failed => ?_
  exact ensure_stages.weaken (fun _ _ hx => hx) fun _ _ _ hx => hx.1

/-- The staged files that are read are those that are there. -/
theorem staged_stages :
    Stages rules found world X (staged : RestoreCall File Tree)
      fun read tree trace => X tree trace ∧ read = tree := by
  unfold staged
  refine Holds.bind Holds.readDisk fun read => Holds.pure ?_
  rintro disk trace ⟨⟨huntouched, hx⟩, rfl⟩
  exact ⟨huntouched, hx, rfl⟩

/-- Other ordinary files may be staged. -/
theorem putStaged_stages {Y : Tree → List RestoreEvent → Prop} {tree : Tree}
    (htree : Ordinary rules tree) (h : ∀ old trace, X old trace → Y tree trace) :
    Stages rules found world X (putStaged tree : RestoreCall File PUnit) fun _ => Y := by
  unfold putStaged
  refine Holds.bind Holds.readDisk fun read => Holds.replaceDisk ?_
  rintro disk trace ⟨⟨huntouched, hx⟩, rfl⟩
  exact ⟨{ huntouched with ordinary := htree }, h _ _ hx⟩

/-- What is proved for each tree that may be staged. -/
theorem Stages.of_tree {x : RestoreCall File α} {Y : α → Tree → List RestoreEvent → Prop}
    (h : ∀ tree trace, X tree trace → Ordinary rules tree →
      Stages rules found world (fun t l => t = tree ∧ l = trace) x Y) :
    Stages rules found world X x Y := by
  refine Holds.of_state fun disk trace hp => ?_
  refine Holds.weaken (h disk.staging.tree trace hp.2 hp.1.ordinary) ?_ fun _ _ _ hq => hq
  rintro d t ⟨rfl, rfl⟩
  exact ⟨hp.1, rfl, rfl⟩

theorem unlinkStaged_stages (path : Text) (error : RestoreError) (tree : Tree)
    (trace : List RestoreEvent) (htree : Ordinary rules tree) :
    Stages rules found world (fun t l => t = tree ∧ l = trace)
      (unlinkStaged world path error : RestoreCall File PUnit)
      fun _ t l => t = tree.erase path ∧ l = trace := by
  unfold unlinkStaged
  refine (point_stages world.cut).bind fun _ => ?_
  refine (mayFail_stages error).bind fun _ => ?_
  refine staged_stages.bind fun read => ?_
  refine Stages.of_tree fun t l hx _ => ?_
  obtain ⟨⟨rfl, rfl⟩, rfl⟩ := hx
  refine putStaged_stages (htree.erase path) ?_
  rintro old l' ⟨rfl, rfl⟩
  exact ⟨rfl, rfl⟩

/-- A write puts the content in place and leaves every other file, its own temporary sibling gone
again. -/
theorem writeStaged_stages {path : Text} {content : Bytes} {error : RestoreError} {tree : Tree}
    {trace : List RestoreEvent} (htree : Ordinary rules tree)
    (hpath : walkClass rules.tables path = .ordinary)
    (htmp : ∀ n, walkClass rules.tables (tmpSibling path (tokenHex n)) = .ordinary) :
    Stages rules found world (fun t l => t = tree ∧ l = trace)
      (writeStaged world path content error : RestoreCall File PUnit)
      fun _ t l => (∀ other, t.get? other =
        if other = path then some content else tree.get? other) ∧ l = trace := by
  unfold writeStaged
  refine (point_stages world.cut).bind fun _ => ?_
  refine (ask_stages world.token).bind fun drawn => ?_
  refine (ask_stages world.halfWritten).bind fun half => ?_
  refine staged_stages.bind fun read => ?_
  refine ensure_stages.bind fun _ => ?_
  refine Stages.of_tree fun t l hx _ => ?_
  obtain ⟨⟨⟨rfl, rfl⟩, rfl⟩, hfree⟩ := hx
  have hhalf := htree.put (htmp drawn) half
  have hback := hhalf.erase (tmpSibling path (tokenHex drawn))
  refine Stages.bind (putStaged_stages (Y := fun t' l' =>
    t' = read.put (tmpSibling path (tokenHex drawn)) half ∧ l' = l) hhalf ?_) fun _ => ?_
  · rintro old l' ⟨rfl, rfl⟩
    exact ⟨rfl, rfl⟩
  refine (point_stages world.cut).bind fun _ => ?_
  refine (ask_stages world.fails).bind fun failed => ?_
  cases failed with
  | true =>
      refine staged_stages.bind fun read => ?_
      refine Stages.of_tree fun t' l' hx _ => ?_
      obtain ⟨⟨rfl, rfl⟩, rfl⟩ := hx
      exact (putStaged_stages (Y := fun _ _ => True) hback fun _ _ _ => trivial).bind fun _ =>
        Stages.throw
  | false =>
      refine staged_stages.bind fun read => ?_
      refine Stages.of_tree fun t' l' hx _ => ?_
      obtain ⟨⟨rfl, rfl⟩, rfl⟩ := hx
      refine putStaged_stages (hback.put hpath content) ?_
      rintro old l'' ⟨rfl, rfl⟩
      refine ⟨fun other => ?_, rfl⟩
      rw [Table.get?_put, beq_eq_decide]
      by_cases hother : other = path
      · simp [hother]
      · rw [decide_eq_false hother, if_neg hother]
        by_cases hsame : other = tmpSibling path (tokenHex drawn)
        · rw [hsame, hfree]
          exact Table.get?_erase_self _ _
        · show Table.get? (Table.erase _ _) _ = _
          rw [Table.get?_erase_of_ne hsame, Table.get?_put_of_ne hsame]

/-- The record may be replaced once a file is accepted. -/
theorem saveLedger_stages {ledger : StagingLedger}
    (haccepted : ∀ tree trace, X tree trace → ∃ path content, .accepted path content ∈ trace) :
    Stages rules found world X (saveLedger rules world ledger)
      fun saved tree trace => X tree trace ∧ saved = ledger := by
  unfold saveLedger
  refine (point_stages world.cut).bind fun _ => ?_
  refine (mayFail_stages .ledgerWrite).bind fun _ => ?_
  refine Holds.bind Holds.readDisk fun read => ?_
  refine Holds.bind (Q := fun _ disk trace =>
    Untouched rules found world disk trace ∧ X disk.staging.tree trace)
    (Holds.replaceDisk ?_) fun _ => Holds.pure fun _ _ hp => ⟨hp.1, hp.2, rfl⟩
  rintro disk trace ⟨⟨huntouched, hx⟩, rfl⟩
  obtain ⟨path, content, hin⟩ := haccepted _ _ hx
  exact ⟨{ huntouched with ledger := fun hnone => absurd hin (hnone path content) }, hx⟩

/-! ## Discarding -/

theorem Left.of_erased {disk next : RestoreDisk File} {trace : List RestoreEvent}
    (h : Left rules found world disk trace) (hdestination : next.destination = disk.destination)
    (hordinary : Ordinary rules next.staging.tree) : Left rules found world next trace where
  destination := by
    rcases h.destination with hsame | ⟨havailable, habsent | hrestored⟩
    · exact .inl (hdestination.trans hsame)
    · exact .inr ⟨havailable, .inl (hdestination.trans habsent)⟩
    · refine .inr ⟨havailable, .inr ?_⟩
      unfold Restored at hrestored ⊢
      rw [hdestination]
      exact hrestored
  untouched hnot := hdestination.trans (h.untouched hnot)
  ordinary := hordinary
  kept := h.kept

theorem putErased_left (path : Text) :
    Holds (Left rules found world)
      (do putStaged ((← staged).erase path) : RestoreCall File PUnit)
      (fun _ => Left rules found world) (Left rules found world) := by
  unfold staged putStaged
  refine Holds.bind (Q := fun tree disk trace =>
    Left rules found world disk trace ∧ tree = disk.staging.tree) ?_ fun tree => ?_
  · refine Holds.bind Holds.readDisk fun read => Holds.pure ?_
    rintro disk trace ⟨hleft, rfl⟩
    exact ⟨hleft, rfl⟩
  · refine Holds.bind Holds.readDisk fun read => Holds.replaceDisk ?_
    rintro disk trace ⟨⟨hleft, rfl⟩, rfl⟩
    exact hleft.of_erased rfl (hleft.ordinary.erase path)

/-- An assertion that an answer of the surroundings does not touch. -/
theorem ask_keeps {P : RestoreDisk File → List RestoreEvent → Prop}
    {R : RestoreDisk File → List RestoreEvent → Prop} (answers : Nat → α) :
    Holds P (ask answers : RestoreCall File α) (fun _ => P) R :=
  Holds.weaken (Holds.ask answers) (fun _ _ hp => hp) fun _ _ _ hq => hq.1

/-- Discarding keeps what a run leaves. -/
theorem discardStaging_left :
    Holds (Left rules found world) (discardStaging world : RestoreCall File PUnit)
      (fun _ => Left rules found world) (Left rules found world) := by
  unfold discardStaging
  refine Holds.bind (Q := fun _ => Left rules found world) ?_ fun tree => ?_
  · exact Holds.bind Holds.readDisk fun read => Holds.pure fun _ _ hp => hp.1
  refine Holds.bind (Holds.forM fun path _ => ?_) fun _ => ?_
  · refine Holds.bind (Holds.point fun _ _ hp => hp) fun _ => ?_
    refine Holds.bind (ask_keeps world.fails) fun failed => ?_
    exact Holds.onlyIf (fun _ => putErased_left path) fun _ _ _ hp => hp
  refine Holds.bind (Holds.point fun _ _ hp => hp) fun _ => ?_
  refine Holds.bind (ask_keeps world.fails) fun failed => ?_
  refine Holds.bind Holds.readDisk fun read => ?_
  refine Holds.onlyIf (fun _ => Holds.replaceDisk ?_) fun _ _ _ hp => hp.1
  rintro disk trace ⟨hleft, rfl⟩
  exact hleft.of_erased rfl ordinary_empty

theorem discardLedger_keeps {P : RestoreDisk File → List RestoreEvent → Prop}
    {R : RestoreDisk File → List RestoreEvent → Prop}
    (h : ∀ disk trace, P disk trace → P { disk with ledger := none } trace)
    (hstop : ∀ disk trace, P disk trace → R disk trace) :
    Holds P (discardLedger world : RestoreCall File PUnit) (fun _ => P) R := by
  unfold discardLedger
  refine Holds.bind (Holds.point hstop) fun _ => ?_
  refine Holds.bind (ask_keeps world.fails) fun failed => ?_
  refine Holds.onlyIf (fun _ => ?_) fun _ _ _ hp => hp
  refine Holds.bind Holds.readDisk fun read => Holds.replaceDisk ?_
  rintro disk trace ⟨hp, rfl⟩
  exact h read trace hp

theorem discardRestoreState_left :
    Holds (Left rules found world) (discardRestoreState world : RestoreCall File PUnit)
      (fun _ => Left rules found world) (Left rules found world) := by
  unfold discardRestoreState
  refine Holds.bind discardStaging_left fun _ => ?_
  exact discardLedger_keeps (fun _ _ hleft => hleft.of_erased rfl hleft.ordinary) fun _ _ h => h

/-! ## Opening the staging folder -/

/-- The staged files are among those that the run found. -/
def WithinFound (found : RestoreDisk File) (tree : Tree) : Prop :=
  ∀ path content, tree.get? path = some content → found.staging.tree.get? path = some content

theorem openStaging_stages :
    Stages rules found world X (openStaging world : RestoreCall File PUnit) fun _ => X := by
  unfold openStaging
  refine Holds.bind Holds.readDisk fun read => ?_
  refine Holds.bind (Holds.ensure fun _ _ hp => hp.1.1.left) fun _ => ?_
  refine Holds.bind (Holds.point fun _ _ hp => hp.1.1.1.left) fun _ => ?_
  refine Holds.bind (Q := fun _ d t =>
    (Untouched rules found world d t ∧ X d.staging.tree t) ∧ read = d) ?_ fun _ => ?_
  · unfold mayFail
    refine Holds.bind (ask_keeps world.fails) fun failed => ?_
    exact Holds.weaken (Holds.ensure fun _ _ hp => hp.1.1.left) (fun _ _ hp => hp.1)
      fun _ _ _ hq => hq.1
  refine Holds.replaceDisk ?_
  rintro disk trace ⟨⟨huntouched, hx⟩, rfl⟩
  exact ⟨{ huntouched with }, hx⟩

theorem removeControl_stages :
    Stages rules found world (fun tree trace => WithinFound found tree ∧ trace = [])
      (removeControl world : RestoreCall File PUnit)
      fun _ tree trace => WithinFound found tree ∧ trace = [] := by
  unfold removeControl
  refine Stages.bind (Y := fun _ tree trace => WithinFound found tree ∧ trace = []) ?_ fun tree => ?_
  · exact staged_stages.weaken (fun _ _ hx => hx) fun _ _ _ hx => hx.1
  refine Holds.forM fun path _ => Holds.onlyIf (fun _ => ?_) fun _ _ _ hp => hp
  show Stages rules found world (fun tree trace => WithinFound found tree ∧ trace = []) _
    fun _ tree trace => WithinFound found tree ∧ trace = []
  refine Stages.of_tree fun t l hx htree => ?_
  refine (unlinkStaged_stages path .controlState t l htree).weaken (fun _ _ hx => hx) ?_
  rintro _ t' l' ⟨rfl, rfl⟩
  refine ⟨fun other content hother => hx.1 other content ?_, hx.2⟩
  by_cases hsame : other = path
  · rw [hsame, Table.get?_erase_self] at hother
    cases hother
  · rw [Table.get?_erase_of_ne hsame] at hother
    exact hother

/-- The record that a run goes by is the one it found, or none. -/
theorem openStagingArea_stages :
    Stages rules found world (fun tree trace => WithinFound found tree ∧ trace = [])
      (openStagingArea rules world : RestoreCall File StagingLedger)
      fun ledger tree trace => (WithinFound found tree ∧ trace = []) ∧
        ∀ path record, ledger.get? path = some record →
          (readLedger rules found.ledger).get? path = some record := by
  unfold openStagingArea
  refine openStaging_stages.bind fun _ => ?_
  refine removeControl_stages.bind fun _ => ?_
  refine Holds.bind Holds.readDisk fun read => ?_
  refine Holds.bind (ask_keeps world.fails) fun unreadable => Holds.pure ?_
  rintro disk trace ⟨⟨huntouched, hx⟩, rfl⟩
  refine ⟨huntouched, hx, fun path record hrecord => ?_⟩
  cases unreadable with
  | true => exact nomatch hrecord
  | false =>
      have hledger : read.ledger = found.ledger :=
        huntouched.ledger fun path content hin => by
          rw [hx.2] at hin
          cases hin
      rw [← hledger]
      exact hrecord

/-! ## The audit -/

/-- Part of the way through an audit: the files that are staged were kept or are still to be
looked at, and a kept one is vouched for. -/
structure Audited (rules : RestoreRules File) (found : RestoreDisk File)
    (entries : Table Text ManifestEntry) (ledger : StagingLedger) (kept : List Text)
    (rest : List (Text × Bytes)) (tree : Tree) (trace : List RestoreEvent) : Prop where
  files : ∀ path content, tree.get? path = some content → path ∈ kept ∨ (path, content) ∈ rest
  vouched : ∀ path ∈ kept, path ∉ rest.map Prod.fst ∧ ∃ entry content,
    entries.get? path = some entry ∧ tree.get? path = some content ∧
      stillGood rules ledger entry path content = true ∧ .kept path content ∈ trace
  found : ∀ row ∈ rest, found.staging.tree.get? row.1 = some row.2 ∧
    tree.get? row.1 = some row.2
  distinct : (rest.map Prod.fst).Nodup

variable {entries : Table Text ManifestEntry} {ledger : StagingLedger} {kept : List Text}
  {rest : List (Text × Bytes)} {file : Text × Bytes} {tree : Tree} {trace : List RestoreEvent}

/-- A file that is removed is not looked at again. -/
theorem Audited.removed (h : Audited rules found entries ledger kept (file :: rest) tree trace) :
    Audited rules found entries ledger kept rest (tree.erase file.1) trace where
  files path content hpath := by
    by_cases hsame : path = file.1
    · rw [hsame, Table.get?_erase_self] at hpath
      cases hpath
    · rw [Table.get?_erase_of_ne hsame] at hpath
      refine (h.files path content hpath).imp_right fun hin => ?_
      exact (List.mem_cons.mp hin).resolve_left fun heq => hsame (congrArg Prod.fst heq)
  vouched path hin := by
    obtain ⟨hnot, entry, content, hentry, hcontent, hgood, hevent⟩ := h.vouched path hin
    rw [List.map_cons, List.mem_cons, not_or] at hnot
    refine ⟨hnot.2, entry, content, hentry, ?_, hgood, hevent⟩
    rw [Table.get?_erase_of_ne hnot.1]
    exact hcontent
  found row hrow := by
    obtain ⟨hfound, hstaged⟩ := h.found row (List.mem_cons_of_mem file hrow)
    have hne : row.1 ≠ file.1 := fun heq =>
      (List.nodup_cons.mp h.distinct).1 (heq ▸ List.mem_map_of_mem hrow)
    rw [Table.get?_erase_of_ne hne]
    exact ⟨hfound, hstaged⟩
  distinct := (List.nodup_cons.mp h.distinct).2

/-- A file that is kept stays as it is. -/
theorem Audited.keptFile {entry : ManifestEntry}
    (h : Audited rules found entries ledger kept (file :: rest) tree trace)
    (hentry : entries.get? file.1 = some entry)
    (hgood : stillGood rules ledger entry file.1 file.2 = true) :
    Audited rules found entries ledger (kept ++ [file.1]) rest tree
      (trace ++ [.kept file.1 file.2]) where
  files path content hpath := by
    rcases h.files path content hpath with hin | hin
    · exact .inl (List.mem_append_left _ hin)
    · rcases List.mem_cons.mp hin with rfl | hrest
      · exact .inl (List.mem_append_right _ (List.mem_singleton_self path))
      · exact .inr hrest
  vouched path hin := by
    rcases List.mem_append.mp hin with hold | hnew
    · obtain ⟨hnot, other, content, hother, hcontent, hkeep, hevent⟩ := h.vouched path hold
      rw [List.map_cons, List.mem_cons, not_or] at hnot
      exact ⟨hnot.2, other, content, hother, hcontent, hkeep, List.mem_append_left _ hevent⟩
    · rw [List.mem_singleton.mp hnew]
      exact ⟨(List.nodup_cons.mp h.distinct).1, entry, file.2, hentry,
        (h.found file (List.mem_cons_self ..)).2, hgood,
        List.mem_append_right _ (List.mem_singleton_self _)⟩
  found row hrow := h.found row (List.mem_cons_of_mem file hrow)
  distinct := (List.nodup_cons.mp h.distinct).2

theorem stillGood_spec {entry : ManifestEntry} {path : Text} {content : Bytes}
    (h : stillGood rules ledger entry path content = true) :
    contentDefect rules content entry = none ∧
      ledger.get? path = some { etag := entry.etag, sha256 := rules.sha256Hex content } := by
  unfold stillGood at h
  split at h
  · cases h
  · next record hrecord =>
      simp only [Bool.and_eq_true, beq_iff_eq] at h
      obtain ⟨⟨htag, hdigest⟩, hdefect⟩ := h
      refine ⟨hdefect, hrecord.trans ?_⟩
      rw [← htag, hdigest]

/-- Keeping a file that the record vouches for is a trusted keep. -/
theorem Untouched.keep {disk : RestoreDisk File} {skipped : Nat} {entry : ManifestEntry}
    (h : Untouched rules found world disk trace)
    (hentries : admittedEntries rules world.manifest = .ok (entries, skipped))
    (hledger : ∀ path record, ledger.get? path = some record →
      (readLedger rules found.ledger).get? path = some record)
    (hfound : found.staging.tree.get? file.1 = some file.2)
    (hentry : entries.get? file.1 = some entry)
    (hgood : stillGood rules ledger entry file.1 file.2 = true) :
    Untouched rules found world disk (trace ++ [.kept file.1 file.2]) where
  destination := h.destination
  ordinary := h.ordinary
  notInstalling hin := by
    rcases List.mem_append.mp hin with hold | hnew
    · exact h.notInstalling hold
    · cases List.mem_singleton.mp hnew
  kept path content hin := by
    rcases List.mem_append.mp hin with hold | hnew
    · exact h.kept path content hold
    · cases List.mem_singleton.mp hnew
      obtain ⟨-, hrecord⟩ := stillGood_spec hgood
      exact ⟨entries, skipped, entry, _, hentries, hentry, hfound, hledger _ _ hrecord, rfl, rfl⟩
  ledger hnone := h.ledger fun path content hin => hnone path content (List.mem_append_left _ hin)

theorem auditFile_stages {skipped : Nat}
    (hentries : admittedEntries rules world.manifest = .ok (entries, skipped))
    (hledger : ∀ path record, ledger.get? path = some record →
      (readLedger rules found.ledger).get? path = some record)
    (kept : List Text) (file : Text × Bytes) (rest : List (Text × Bytes)) :
    Stages rules found world (Audited rules found entries ledger kept (file :: rest))
      (auditFile rules world entries ledger kept file : RestoreCall File (List Text))
      fun kept => Audited rules found entries ledger kept rest := by
  refine Stages.of_tree fun tree trace h htree => ?_
  obtain ⟨hfound, hstaged⟩ := h.found file (List.mem_cons_self ..)
  have hremove : Stages rules found world (fun t l => t = tree ∧ l = trace)
      (do unlinkStaged world file.1 .auditFailed; return kept : RestoreCall File (List Text))
      fun kept => Audited rules found entries ledger kept rest := by
    refine (unlinkStaged_stages file.1 .auditFailed tree trace htree).bind fun _ => Stages.pure ?_
    rintro t l ⟨rfl, rfl⟩
    exact h.removed
  unfold auditFile
  rw [htree file.1 file.2 hstaged]
  cases hentry : entries.get? file.1 with
  | none => exact hremove
  | some entry =>
      refine (ask_stages world.fails).bind fun unreadable => ?_
      split
      · next hgood =>
          refine Holds.bind (Q := fun _ disk l =>
            Untouched rules found world disk l ∧
              Audited rules found entries ledger (kept ++ [file.1]) rest disk.staging.tree l)
            (Holds.emit ?_) fun _ => Holds.pure fun _ _ hp => hp
          rintro disk l ⟨huntouched, rfl, rfl⟩
          exact ⟨huntouched.keep hentries hledger hfound hentry hgood.2,
            h.keptFile hentry hgood.2⟩
      · exact hremove

theorem audit_stages {skipped : Nat}
    (hentries : admittedEntries rules world.manifest = .ok (entries, skipped))
    (hledger : ∀ path record, ledger.get? path = some record →
      (readLedger rules found.ledger).get? path = some record) :
    Stages rules found world (fun tree _ => WithinFound found tree)
      (audit rules world entries ledger : RestoreCall File (List Text))
      fun kept => Audited rules found entries ledger kept [] := by
  unfold audit
  refine staged_stages.bind fun read => ?_
  refine Holds.weaken (Holds.foldlM (J := fun kept rest disk trace =>
    Untouched rules found world disk trace ∧
      Audited rules found entries ledger kept rest disk.staging.tree trace)
    (auditFile_stages hentries hledger) []) ?_ fun _ _ _ hq => hq
  rintro disk trace ⟨huntouched, hwithin, rfl⟩
  refine ⟨huntouched, ⟨?_, fun _ hin => absurd hin List.not_mem_nil, fun row hrow => ?_,
    disk.staging.tree.distinct⟩⟩
  · intro path content hpath
    exact .inr (Table.mem_entries_iff.mpr hpath)
  · have hstaged := Table.mem_entries_iff.mp hrow
    exact ⟨hwithin _ _ hstaged, hstaged⟩

/-! ## Downloads -/

/-- The paths that are staged, with the rows that are still to be downloaded. -/
def inHand (entries : Table Text ManifestEntry) (rest : List (Text × ManifestEntry))
    (path : Text) : Prop :=
  (entries.get? path).isSome = true ∧ path ∉ rest.map Prod.fst

/-- Part of the way through the downloads. -/
structure Downloading (rules : RestoreRules File) (entries : Table Text ManifestEntry)
    (ledger : StagingLedger) (rest : List (Text × ManifestEntry)) (tree : Tree)
    (trace : List RestoreEvent) : Prop where
  matched : Matched rules entries (inHand entries rest) ledger tree trace
  pending : ∀ row ∈ rest, entries.get? row.1 = some row.2
  distinct : (rest.map Prod.fst).Nodup

theorem get?_ofPairs_filter {V : Type} (t : Table Text V) (p : Text × V → Bool) (key : Text)
    (value : V) : (Table.ofPairs (t.entries.filter p)).get? key = some value ↔
      t.get? key = some value ∧ p (key, value) = true := by
  have hdistinct : ((t.entries.filter p).map Prod.fst).Nodup :=
    t.distinct.sublist (List.filter_sublist.map _)
  rw [← Table.mem_entries_iff, Table.entries_ofPairs hdistinct, List.mem_filter,
    Table.mem_entries_iff]

/-- After the audit, what was kept is in hand and the rest is to be downloaded. -/
theorem Audited.downloading (h : Audited rules found entries ledger kept [] tree trace) :
    Downloading rules entries (keptRows ledger kept)
      (entries.entries.filter fun row => !kept.contains row.1) tree trace := by
  have hinHand : ∀ path, inHand entries (entries.entries.filter fun row => !kept.contains row.1)
      path ↔ path ∈ kept := by
    intro path
    constructor
    · rintro ⟨hsome, hnot⟩
      obtain ⟨entry, hentry⟩ := Option.isSome_iff_exists.mp hsome
      by_contra hkept
      refine hnot (List.mem_map.mpr ⟨(path, entry), ?_, rfl⟩)
      exact List.mem_filter.mpr ⟨Table.mem_entries_iff.mpr hentry, by simpa using hkept⟩
    · intro hkept
      obtain ⟨-, entry, content, hentry, -⟩ := h.vouched path hkept
      refine ⟨by rw [hentry]; rfl, fun hin => ?_⟩
      obtain ⟨row, hrow, rfl⟩ := List.mem_map.mp hin
      have hnot := (List.mem_filter.mp hrow).2
      rw [List.contains_iff_mem.mpr hkept] at hnot
      cases hnot
  refine ⟨⟨fun path hsome => ?_, fun path hsome => ?_, fun path hin => ?_⟩, fun row hrow => ?_, ?_⟩
  · obtain ⟨content, hcontent⟩ := Option.isSome_iff_exists.mp hsome
    exact (hinHand path).mpr ((h.files path content hcontent).resolve_right List.not_mem_nil)
  · obtain ⟨record, hrecord⟩ := Option.isSome_iff_exists.mp hsome
    have hkept := ((get?_ofPairs_filter ledger _ path record).mp hrecord).2
    exact (hinHand path).mpr (List.contains_iff_mem.mp hkept)
  · have hkept := (hinHand path).mp hin
    obtain ⟨-, entry, content, hentry, hcontent, hgood, hevent⟩ := h.vouched path hkept
    obtain ⟨hdefect, hrecord⟩ := stillGood_spec hgood
    refine ⟨entry, content, hentry, hcontent, hdefect, .inl hevent, ?_⟩
    exact (get?_ofPairs_filter ledger _ path _).mpr ⟨hrecord, List.contains_iff_mem.mpr hkept⟩
  · exact Table.mem_entries_iff.mp (List.mem_filter.mp hrow).1
  · exact entries.distinct.sublist (List.filter_sublist.map _)

/-- One more file in hand. -/
theorem Downloading.accepted {row : Text × ManifestEntry} {rest : List (Text × ManifestEntry)}
    {next : Tree} {content : Bytes}
    (h : Downloading rules entries ledger (row :: rest) tree trace)
    (hnext : ∀ other, next.get? other = if other = row.1 then some content else tree.get? other)
    (hdefect : contentDefect rules content row.2 = none) :
    Downloading rules entries
      (ledger.put row.1 { etag := row.2.etag, sha256 := rules.sha256Hex content }) rest next
      (trace ++ [.accepted row.1 content]) where
  matched := by
    have hentry := h.pending row (List.mem_cons_self ..)
    have hnew : row.1 ∉ rest.map Prod.fst := (List.nodup_cons.mp h.distinct).1
    have hhere : inHand entries rest row.1 := ⟨by rw [hentry]; rfl, hnew⟩
    have hmore : ∀ path, inHand entries (row :: rest) path → inHand entries rest path := by
      rintro path ⟨hsome, hnot⟩
      rw [List.map_cons, List.mem_cons, not_or] at hnot
      exact ⟨hsome, hnot.2⟩
    refine ⟨fun path hsome => ?_, fun path hsome => ?_, fun path hin => ?_⟩
    · rw [hnext] at hsome
      split at hsome
      · next heq =>
          rw [heq]
          exact hhere
      · exact hmore path (h.matched.files path hsome)
    · rw [Table.get?_put] at hsome
      split at hsome
      · next heq =>
          rw [beq_iff_eq.mp heq]
          exact hhere
      · exact hmore path (h.matched.rows path hsome)
    · by_cases heq : path = row.1
      · subst heq
        refine ⟨row.2, content, hentry, ?_, hdefect, ?_, Table.get?_put_self _ _ _⟩
        · rw [hnext, if_pos rfl]
        · exact .inr (List.mem_append_right _ (List.mem_singleton_self _))
      · have hold : inHand entries (row :: rest) path := by
          refine ⟨hin.1, fun hmem => ?_⟩
          rw [List.map_cons, List.mem_cons] at hmem
          exact hmem.elim heq hin.2
        obtain ⟨entry, body, hbody, hcontent, hgood, hsourced, hrecord⟩ :=
          h.matched.verified path hold
        refine ⟨entry, body, hbody, ?_, hgood, ?_, ?_⟩
        · rw [hnext, if_neg heq]
          exact hcontent
        · exact hsourced.imp (List.mem_append_left _) (List.mem_append_left _)
        · rw [Table.get?_put_of_ne heq]
          exact hrecord
  pending other hother := h.pending other (List.mem_cons_of_mem row hother)
  distinct := (List.nodup_cons.mp h.distinct).2

theorem Untouched.accepted {disk : RestoreDisk File} {path : Text} {content : Bytes}
    (h : Untouched rules found world disk trace) :
    Untouched rules found world disk (trace ++ [.accepted path content]) where
  destination := h.destination
  ordinary := h.ordinary
  notInstalling hin := by
    rcases List.mem_append.mp hin with hold | hnew
    · exact h.notInstalling hold
    · cases List.mem_singleton.mp hnew
  kept other body hin := by
    rcases List.mem_append.mp hin with hold | hnew
    · exact h.kept other body hold
    · cases List.mem_singleton.mp hnew
  ledger hnone := h.ledger fun other body hin => hnone other body (List.mem_append_left _ hin)

theorem emit_accepted_stages {Y : Tree → List RestoreEvent → Prop} {path : Text}
    {content : Bytes} (h : ∀ tree trace, X tree trace → Y tree (trace ++ [.accepted path content])) :
    Stages rules found world X (emit (.accepted path content) : RestoreCall File PUnit)
      fun _ => Y :=
  Holds.emit fun _ _ hp => ⟨hp.1.accepted, h _ _ hp.2⟩

theorem downloadFile_stages (hsafe : EntriesSafe rules entries) (ledger : StagingLedger)
    (row : Text × ManifestEntry) (rest : List (Text × ManifestEntry)) :
    Stages rules found world (Downloading rules entries ledger (row :: rest))
      (downloadFile rules world ledger row : RestoreCall File StagingLedger)
      fun ledger => Downloading rules entries ledger rest := by
  unfold downloadFile
  refine (point_stages world.cut).bind fun _ => ?_
  refine (ask_stages world.body).bind fun body => ?_
  cases body with
  | none => exact Stages.throw
  | some content =>
      dsimp only
      split
      · exact Stages.throw
      · rename_i hdefect
        unfold accept
        refine staged_stages.bind fun read => ?_
        refine ensure_stages.bind fun _ => ?_
        refine Stages.of_tree fun tree trace hx htree => ?_
        obtain ⟨⟨h, -⟩, -⟩ := hx
        obtain ⟨hpath, -, htmp⟩ := hsafe row.1 row.2 (h.pending row (List.mem_cons_self ..))
        refine (writeStaged_stages htree hpath htmp).bind fun _ => ?_
        refine Stages.bind (emit_accepted_stages (Y := fun t l =>
          Downloading rules entries (ledger.put row.1
            { etag := row.2.etag, sha256 := rules.sha256Hex content }) rest t l ∧
              .accepted row.1 content ∈ l) ?_) fun _ => ?_
        · rintro next l ⟨hnext, rfl⟩
          exact ⟨h.accepted hnext hdefect, List.mem_append_right _ (List.mem_singleton_self _)⟩
        · refine (saveLedger_stages fun _ _ hx => ⟨_, _, hx.2⟩).weaken (fun _ _ hx => hx) ?_
          rintro _ t l ⟨hx, rfl⟩
          exact hx.1

theorem downloadPending_stages (hsafe : EntriesSafe rules entries) :
    Stages rules found world (Audited rules found entries ledger kept [])
      (downloadPending rules world entries kept
        (keptRows ledger kept) : RestoreCall File StagingLedger)
      fun ledger => Downloading rules entries ledger [] := by
  unfold downloadPending
  refine Holds.weaken (Holds.foldlM (J := fun ledger rest disk trace =>
    Untouched rules found world disk trace ∧
      Downloading rules entries ledger rest disk.staging.tree trace)
    (downloadFile_stages hsafe) _) ?_ fun _ _ _ hq => hq
  rintro disk trace ⟨huntouched, haudited⟩
  exact ⟨huntouched, haudited.downloading⟩

/-! ## The install -/

theorem validateRestoredStore_stages :
    Stages rules found world X (validateRestoredStore rules world : RestoreCall File PUnit)
      fun _ => X := by
  unfold validateRestoredStore
  refine staged_stages.bind fun read => ?_
  split
  · exact Stages.pure fun _ _ hx => hx.1
  · refine Holds.bind (Holds.weaken discardRestoreState_left (fun _ _ hp => hp.1.left)
      fun _ _ _ hq => hq) fun _ => ?_
    exact Holds.throw fun _ _ hleft => hleft

/-- The staged files are what a destination has to hold. -/
def Ready (rules : RestoreRules File) (world : RestoreWorld) (tree : Tree)
    (trace : List RestoreEvent) : Prop :=
  (tree.get? syncStateFile).isSome = true ∧
    ∀ disk : RestoreDisk File, disk.destination = .folder tree → Restored rules world disk trace

theorem get?_stateOf (now : Text) (ledger : StagingLedger) (path : Text) :
    (stateOf now ledger).files.get? path = (ledger.get? path).map fun record =>
      { localSha256 := record.sha256, remoteEtag := record.etag, lastSync := now } := by
  have hkeys : (ledger.entries.map fun row => (row.1,
      ({ localSha256 := row.2.sha256, remoteEtag := row.2.etag, lastSync := now } :
        FileState))).map Prod.fst = ledger.entries.map Prod.fst := by
    rw [List.map_map]
    rfl
  ext value
  unfold stateOf
  rw [← Table.mem_entries_iff, Table.entries_ofPairs (hkeys ▸ ledger.distinct), List.mem_map,
    Option.map_eq_some_iff]
  constructor
  · rintro ⟨row, hrow, heq⟩
    cases heq
    exact ⟨row.2, Table.mem_entries_iff.mp hrow, rfl⟩
  · rintro ⟨record, hrecord, rfl⟩
    exact ⟨(path, record), Table.mem_entries_iff.mpr hrecord, rfl⟩

/-- With every download in hand and the sync state written, the staged files are ready. -/
theorem Downloading.ready {skipped : Nat} {next : Tree}
    (h : Downloading rules entries ledger [] tree trace)
    (hentries : admittedEntries rules world.manifest = .ok (entries, skipped))
    (hsafe : EntriesSafe rules entries)
    (hnext : ∀ other, next.get? other =
      if other = syncStateFile then some (rules.dumpState (stateOf world.now ledger))
      else tree.get? other) :
    Ready rules world next trace := by
  have hstate : next.get? syncStateFile = some (rules.dumpState (stateOf world.now ledger)) := by
    rw [hnext, if_pos rfl]
  have hother : ∀ path, path ≠ syncStateFile → next.get? path = tree.get? path := by
    intro path hne
    rw [hnext, if_neg hne]
  have hinHand : ∀ path, inHand entries [] path ↔ (entries.get? path).isSome = true :=
    fun path => ⟨fun hin => hin.1, fun hsome => ⟨hsome, List.not_mem_nil⟩⟩
  refine ⟨by rw [hstate]; rfl, fun disk hdisk => ?_⟩
  refine ⟨entries, skipped, next, stateOf world.now ledger, hentries, hdisk, hstate, ?_, ?_, ?_⟩
  · intro path hne
    rw [hother path hne]
    constructor
    · intro hsome
      exact (hinHand path).mp (h.matched.files path hsome)
    · intro hsome
      obtain ⟨-, content, -, hcontent, -⟩ := h.matched.verified path ((hinHand path).mpr hsome)
      rw [hcontent]
      rfl
  · intro path
    rw [get?_stateOf, Option.isSome_map]
    constructor
    · intro hsome
      exact (hinHand path).mp (h.matched.rows path hsome)
    · intro hsome
      obtain ⟨_, _, -, -, -, -, hrecord⟩ := h.matched.verified path ((hinHand path).mpr hsome)
      rw [hrecord]
      rfl
  · intro path entry hentry
    have hsome : (entries.get? path).isSome = true := by
      rw [hentry]
      rfl
    obtain ⟨other, content, hsame, hcontent, hdefect, hsourced, hrecord⟩ :=
      h.matched.verified path ((hinHand path).mpr hsome)
    rw [hentry] at hsame
    cases hsame
    refine ⟨content, ?_, hdefect, hsourced, ?_⟩
    · rw [hother path (hsafe path entry hentry).2.1]
      exact hcontent
    · rw [get?_stateOf, hrecord]
      rfl

theorem seedSyncState_stages {skipped : Nat} (hlawful : rules.tables.Lawful)
    (hentries : admittedEntries rules world.manifest = .ok (entries, skipped))
    (hsafe : EntriesSafe rules entries) :
    Stages rules found world (Downloading rules entries ledger [])
      (seedSyncState rules world ledger : RestoreCall File PUnit)
      fun _ => Ready rules world := by
  unfold seedSyncState
  refine staged_stages.bind fun read => ?_
  refine ensure_stages.bind fun _ => ?_
  refine Stages.of_tree fun tree trace hx htree => ?_
  obtain ⟨⟨h, -⟩, -⟩ := hx
  refine (writeStaged_stages htree (walkClass_syncStateFile hlawful)
    (walkClass_tmp_syncStateFile hlawful)).weaken (fun _ _ hx => hx) ?_
  rintro _ next l ⟨hnext, rfl⟩
  exact h.ready hentries hsafe hnext

/-- In the install step, before the staging folder is moved. -/
structure Installing (rules : RestoreRules File) (found : RestoreDisk File)
    (world : RestoreWorld) (disk : RestoreDisk File) (trace : List RestoreEvent) : Prop where
  destination : disk.destination = found.destination ∨
    (found.destination.isAvailable = true ∧ disk.destination = .absent)
  ordinary : Ordinary rules disk.staging.tree
  kept : KeptTrusted rules found world trace
  begun : .installing ∈ trace
  ready : Ready rules world disk.staging.tree trace

theorem Installing.left {disk : RestoreDisk File} (h : Installing rules found world disk trace) :
    Left rules found world disk trace where
  destination := h.destination.imp_right fun hplace => ⟨hplace.1, .inl hplace.2⟩
  untouched hnot := absurd h.begun hnot
  ordinary := h.ordinary
  kept := h.kept

theorem Sourced.append {path : Text} {content : Bytes} (h : Sourced trace path content)
    (more : List RestoreEvent) : Sourced (trace ++ more) path content :=
  h.imp (List.mem_append_left more) (List.mem_append_left more)

theorem Restored.append {disk : RestoreDisk File} (h : Restored rules world disk trace)
    (more : List RestoreEvent) : Restored rules world disk (trace ++ more) := by
  obtain ⟨entries, skipped, tree, state, hentries, hdisk, hstate, hfiles, hrows, hall⟩ := h
  refine ⟨entries, skipped, tree, state, hentries, hdisk, hstate, hfiles, hrows, ?_⟩
  intro path entry hentry
  obtain ⟨content, hcontent, hdefect, hsourced, hrecord⟩ := hall path entry hentry
  exact ⟨content, hcontent, hdefect, hsourced.append more, hrecord⟩

theorem Untouched.install {disk : RestoreDisk File} (h : Untouched rules found world disk trace)
    (hready : Ready rules world disk.staging.tree trace) :
    Installing rules found world disk (trace ++ [.installing]) where
  destination := .inl h.destination
  ordinary := h.ordinary
  kept path content hin := by
    rcases List.mem_append.mp hin with hold | hnew
    · exact h.kept path content hold
    · cases List.mem_singleton.mp hnew
  begun := List.mem_append_right _ (List.mem_singleton_self _)
  ready := ⟨hready.1, fun disk hdisk => (hready.2 disk hdisk).append _⟩

/-- A folder whose files are ready is there. -/
theorem Ready.staging {place : Place} (h : Ready rules world place.tree trace) :
    place = .folder place.tree := by
  cases place with
  | folder tree => rfl
  | absent => exact nomatch h.1
  | link => exact nomatch h.1
  | file => exact nomatch h.1

theorem installStagedStore_holds :
    Holds (fun disk trace => Untouched rules found world disk trace ∧
        Ready rules world disk.staging.tree trace)
      (installStagedStore world : RestoreCall File PUnit)
      (fun _ disk trace => Left rules found world disk trace ∧ Restored rules world disk trace)
      (Left rules found world) := by
  unfold installStagedStore
  refine Holds.bind (Holds.point fun _ _ hp => hp.1.left) fun _ => ?_
  refine Holds.bind (Q := fun _ => Installing rules found world)
    (Holds.emit fun _ _ hp => hp.1.install hp.2) fun _ => ?_
  refine Holds.bind Holds.readDisk fun read => ?_
  refine Holds.bind (Holds.ensure fun _ _ hp => hp.1.left) fun _ => ?_
  refine Holds.bind (Q := fun _ disk trace => Installing rules found world disk trace ∧
    found.destination.isAvailable = true) (Holds.replaceDisk ?_) fun _ => ?_
  · rintro disk trace ⟨⟨hinstalling, rfl⟩, havailable⟩
    have hfound : found.destination.isAvailable = true := by
      rcases hinstalling.destination with hsame | ⟨hfound, -⟩
      · rw [← hsame]
        exact havailable
      · exact hfound
    exact ⟨{ hinstalling with destination := .inr ⟨hfound, rfl⟩ }, hfound⟩
  refine Holds.bind (Holds.point fun _ _ hp => hp.1.left) fun _ => ?_
  refine Holds.bind (Q := fun _ disk trace => Installing rules found world disk trace ∧
    found.destination.isAvailable = true) ?_ fun _ => ?_
  · unfold mayFail
    refine Holds.bind (ask_keeps world.fails) fun failed => ?_
    exact Holds.weaken (Holds.ensure fun _ _ hp => hp.1.left) (fun _ _ hp => hp) fun _ _ _ hq => hq.1
  refine Holds.bind Holds.readDisk fun read => Holds.replaceDisk ?_
  rintro disk trace ⟨⟨hinstalling, havailable⟩, rfl⟩
  have hrestored : Restored rules world
      { read with destination := read.staging, staging := .absent } trace :=
    hinstalling.ready.2 _ hinstalling.ready.staging
  refine ⟨⟨.inr ⟨havailable, .inr hrestored⟩, fun hnot => absurd hinstalling.begun hnot,
    ordinary_empty, hinstalling.kept⟩, hrestored⟩

/-! ## A run -/

theorem restoreInto_holds (hlawful : rules.tables.Lawful) (hsafe : ManifestSafe rules world) :
    Holds (fun disk trace => Untouched rules found world disk trace ∧
        WithinFound found disk.staging.tree ∧ trace = [])
      (restoreInto rules world : RestoreCall File PUnit)
      (fun _ disk trace => Left rules found world disk trace ∧ Restored rules world disk trace)
      (Left rules found world) := by
  unfold restoreInto
  cases hentries : admittedEntries rules world.manifest with
  | error error => exact Holds.throw fun _ _ hp => hp.1.left
  | ok admitted =>
      obtain ⟨entries, skipped⟩ := admitted
      dsimp only
      split
      · refine Holds.bind (Holds.weaken discardRestoreState_left (fun _ _ hp => hp.1.left)
          fun _ _ _ hq => hq) fun _ => ?_
        exact Holds.throw fun _ _ hleft => hleft
      · have hentriesSafe := hsafe.entries hentries
        refine Holds.bind openStagingArea_stages fun ledger => ?_
        refine Holds.of_fact (fun _ _ hp => hp.2.2) fun hledger => ?_
        refine Holds.bind (Holds.weaken (audit_stages hentries hledger)
          (fun _ _ hp => ⟨hp.1, hp.2.1.1⟩) fun _ _ _ hq => hq) fun kept => ?_
        refine Holds.bind (downloadPending_stages hentriesSafe) fun ledger => ?_
        refine Holds.bind validateRestoredStore_stages fun _ => ?_
        refine Holds.bind (seedSyncState_stages hlawful hentries hentriesSafe) fun _ => ?_
        refine Holds.bind installStagedStore_holds fun _ => ?_
        refine discardLedger_keeps (fun _ _ hp => ?_) fun _ _ hp => hp.1
        exact ⟨hp.1.of_erased rfl hp.1.ordinary, hp.2⟩

/-- One run, returned or stopped. -/
theorem restoreCloudStore_holds (hlawful : rules.tables.Lawful)
    (hsafe : ManifestSafe rules world) (hfound : Ordinary rules found.staging.tree) :
    Holds (fun disk trace => disk = found ∧ trace = [])
      (restoreCloudStore rules world : RestoreCall File PUnit)
      (fun _ disk trace => Left rules found world disk trace ∧ Restored rules world disk trace)
      (Left rules found world) := by
  have huntouched : Untouched rules found world found [] :=
    { destination := rfl
      ordinary := hfound
      notInstalling := List.not_mem_nil
      kept := fun _ _ hin => absurd hin List.not_mem_nil
      ledger := fun _ => rfl }
  have hstop : ∀ disk trace, disk = found ∧ trace = [] →
      Left rules found world disk trace := by
    rintro disk trace ⟨rfl, rfl⟩
    exact huntouched.left
  have hfails : ∀ error, Holds (fun disk trace => disk = found ∧ trace = [])
      (mayFail world error : RestoreCall File PUnit) (fun _ disk trace => disk = found ∧ trace = [])
      (Left rules found world) := by
    intro error
    unfold mayFail
    refine Holds.bind (ask_keeps world.fails) fun failed => ?_
    exact Holds.weaken (Holds.ensure hstop) (fun _ _ hp => hp) fun _ _ _ hq => hq.1
  unfold restoreCloudStore
  refine Holds.bind (Holds.ensure hstop) fun _ => ?_
  refine Holds.bind Holds.readDisk fun read => ?_
  refine Holds.bind (Holds.ensure fun _ _ hp => hstop _ _ hp.1.1) fun _ => ?_
  refine Holds.bind (Holds.ensure fun _ _ hp => hstop _ _ hp.1.1.1) fun _ => ?_
  refine Holds.of_fact (?_ : ∀ _ _, _ → found.destination.isAvailable = true)
    fun havailable => ?_
  · rintro disk trace ⟨⟨⟨⟨⟨rfl, -⟩, -⟩, rfl⟩, -⟩, havailable⟩
    exact havailable
  refine Holds.bind (Holds.weaken (hfails .migrationInProgress) (fun _ _ hp => hp.1.1.1.1)
    fun _ _ _ hq => hq) fun _ => ?_
  refine Holds.bind (Holds.point hstop) fun _ => ?_
  refine Holds.bind (hfails .busy) fun _ => ?_
  refine Holds.bind Holds.readDisk fun held => ?_
  refine Holds.of_fact (fun _ _ hp => hp.2.trans hp.1.1) fun hheld => ?_
  rw [hheld, if_pos havailable]
  refine Holds.weaken (restoreInto_holds hlawful hsafe) ?_ fun _ _ _ hq => hq
  rintro disk trace ⟨⟨rfl, rfl⟩, -⟩
  exact ⟨huntouched, fun _ _ h => h, rfl⟩

/-! ## Sequences of runs -/

/-- A run with a safe manifest, or damage that leaves ordinary files. -/
def Episode.Safe (rules : RestoreRules File) : Episode File → Prop
  | .run world => ManifestSafe rules world
  | .damage staging _ => Ordinary rules staging

theorem damage_holds {staging : Tree} {ledger : Option File} {destination : Place}
    (hstaging : Ordinary rules staging) :
    Holds (fun disk trace => disk.destination = destination ∧ trace = [])
      (Episode.call rules (.damage staging ledger) : RestoreCall File PUnit)
      (fun _ disk trace => Ordinary rules disk.staging.tree ∧
        (.installing ∉ trace → disk.destination = destination))
      (fun disk trace => Ordinary rules disk.staging.tree ∧
        (.installing ∉ trace → disk.destination = destination)) := by
  refine Holds.bind Holds.readDisk fun read => Holds.replaceDisk ?_
  rintro disk trace ⟨⟨hdestination, -⟩, rfl⟩
  exact ⟨hstaging, fun _ => hdestination⟩

/-- An episode leaves ordinary files, and the destination unless it installs. -/
theorem episode_runCall (hlawful : rules.tables.Lawful) {episode : Episode File}
    (hsafe : episode.Safe rules) {disk : RestoreDisk File}
    (hdisk : Ordinary rules disk.staging.tree) :
    Ordinary rules (runCall disk (episode.call rules)).1.staging.tree ∧
      (.installing ∉ (runCall disk (episode.call rules)).2 →
        (runCall disk (episode.call rules)).1.destination = disk.destination) := by
  cases episode with
  | run world =>
      have hleft := Holds.runCall (Holds.weaken (restoreCloudStore_holds hlawful hsafe hdisk)
        (fun _ _ hp => hp) fun _ _ _ hq => hq.1) ⟨rfl, rfl⟩
      exact ⟨hleft.ordinary, hleft.untouched⟩
  | damage staging ledger => exact Holds.runCall (damage_holds hsafe) ⟨rfl, rfl⟩

/-- After any episodes the staged files are ordinary, and the destination is what it was unless
one of them installed. -/
theorem reached_spec (hlawful : rules.tables.Lawful) (destination : Place)
    {episodes : List (Episode File)} (hepisodes : ∀ episode ∈ episodes, episode.Safe rules) :
    Ordinary rules (reached rules destination episodes).1.staging.tree ∧
      ((∀ trace ∈ (reached rules destination episodes).2, .installing ∉ trace) →
        (reached rules destination episodes).1.destination = destination) := by
  have hways : ∀ call ∈ episodes.map (Episode.call rules),
      ∃ episode : Episode File, episode.Safe rules ∧ call = episode.call rules := by
    intro call hcall
    obtain ⟨episode, hin, rfl⟩ := List.mem_map.mp hcall
    exact ⟨episode, hepisodes episode hin, rfl⟩
  have hstart : Ordinary rules (freshDisk destination : RestoreDisk File).staging.tree ∧
      ((∀ trace ∈ ([] : List (List RestoreEvent)), .installing ∉ trace) →
        (freshDisk destination : RestoreDisk File).destination = destination) :=
    ⟨ordinary_empty, fun _ => rfl⟩
  refine runCalls_induction (J := fun disk past => Ordinary rules disk.staging.tree ∧
    ((∀ trace ∈ past, .installing ∉ trace) → disk.destination = destination)) ?_ hways hstart
  rintro call ⟨episode, hsafe, rfl⟩ disk past ⟨hdisk, hpast⟩
  obtain ⟨hordinary, huntouched⟩ := episode_runCall hlawful hsafe hdisk
  refine ⟨hordinary, fun hnone => ?_⟩
  rw [huntouched (hnone _ (List.mem_append_right _ (List.mem_singleton_self _)))]
  exact hpast fun trace hin => hnone trace (List.mem_append_left _ hin)

/-- After any sequence of runs with safe manifests, each returned or cut off, and of damage to
what they staged: the destination is as it was unless a run installed; the next run leaves it
alone until its install step, keeps only staged files that the record vouches for under their
current tags, and when it succeeds the destination holds the files of its manifest and the sync
state that records them. -/
theorem restore_all_or_nothing (hlawful : rules.tables.Lawful) {destination : Place}
    {episodes : List (Episode File)} (hepisodes : ∀ episode ∈ episodes, episode.Safe rules)
    (hsafe : ManifestSafe rules world) {before : RestoreDisk File}
    (hbefore : before = (reached rules destination episodes).1) :
    ((∀ trace ∈ (reached rules destination episodes).2, .installing ∉ trace) →
        before.destination = destination) ∧
      Left rules before world (outcomeOf rules world before).2.disk
        (outcomeOf rules world before).2.trace ∧
      ((outcomeOf rules world before).1 = .ok ⟨⟩ →
        Restored rules world (outcomeOf rules world before).2.disk
          (outcomeOf rules world before).2.trace) := by
  subst hbefore
  obtain ⟨hordinary, huntouched⟩ := reached_spec hlawful destination hepisodes
  refine ⟨huntouched, ?_⟩
  have hrun := restoreCloudStore_holds hlawful hsafe hordinary
    { disk := _, trace := [], tick := 0 } ⟨rfl, rfl⟩
  unfold outcomeOf
  cases hexec : Effect.exec (restoreCloudStore rules world)
      { disk := (reached rules destination episodes).1, trace := [], tick := 0 } with
  | mk outcome left =>
      rw [hexec] at hrun
      cases outcome with
      | error error => exact ⟨hrun, fun h => nomatch h⟩
      | ok value => exact ⟨hrun.1, fun _ => hrun.2⟩

/-! ## Manifests that are safe and manifests that are not -/

def hexOf (content : Bytes) : Text :=
  content.flatMap fun byte => [hexDigit (byte.toNat / 16), hexDigit byte.toNat]

/-- Rules to evaluate with: contents are their own digests. -/
def plainRules : RestoreRules StagingLedger where
  tables := .ascii
  md5Hex := hexOf
  sha256Hex := hexOf
  loadLedger? := some
  dumpLedger := id
  dumpState state := (state.files.entries.flatMap fun row => row.1 ++ row.2.localSha256).map
    fun c => UInt8.ofNat c.toNat
  isClean _ := true

def plainEntry (path : String) (content : Bytes) : ManifestEntry where
  path := path.toList
  etag := "tag".toList
  size := some content.length
  sha256 := some (hexOf content)

/-- A server with files of one byte, and a run that is cut off at a tick or not at all. -/
def plainWorld (paths : List String) (cutAt : Option Nat) : RestoreWorld where
  cut tick := cutAt == some tick
  fails _ := false
  usable := true
  manifest := some (paths.map fun path => plainEntry path [65])
  body _ := some [65]
  token tick := tick + cutAt.getD 100
  halfWritten _ := []
  now := "2026-01-01T00:00:00+00:00".toList

def plainPaths : List String := ["project.md", "decisions/001-a.md"]

theorem plainPaths_safe (path : String) (h : path ∈ plainPaths) :
    path.toList ≠ syncStateFile ∧
      ∀ n, walkClass plainRules.tables (tmpSibling path.toList (tokenHex n)) = .ordinary := by
  have hlawful : plainRules.tables.Lawful := SyncTables.ascii_lawful
  rcases List.mem_cons.mp h with rfl | h
  · refine ⟨by decide, fun n => ?_⟩
    have hsplit : "project.md".toList.splitOn '/' = [] ++ ["project.md".toList] :=
      List.splitOn_eq_singleton (by decide)
    have hfold : [].mapM (foldSemanticComponent plainRules.tables) = .ok [] := rfl
    refine walkClass_tmpSibling hlawful hsplit (fun _ h => absurd h List.not_mem_nil) hfold
      (List.all_eq_true.mp (by decide)) (fun rest => classifyFolded_of_lawful hlawful ?_ ?_) n
    · refine notMem_of_take_three ?_
      show submissionRecordsDir.take 3 ∉ [['.', 'p', 'r']]
      decide
    · refine notMem_of_take_three ?_
      show ['.', 'p', 'r'] ∉ [replicaControlRootName, replicaControlLockName].map (List.take 3)
      decide
  · rw [List.mem_singleton.mp h]
    refine ⟨by decide, fun n => ?_⟩
    have hsplit : "decisions/001-a.md".toList.splitOn '/' =
        ["decisions".toList] ++ ["001-a.md".toList] := by decide
    have hfold : ["decisions".toList].mapM (foldSemanticComponent plainRules.tables) =
        .ok ["decisions".toList] := rfl
    have hdirs : ∀ dir ∈ ["decisions".toList], IsPlainComponent dir := by
      intro dir hin
      rw [List.mem_singleton.mp hin]
      exact isPlainComponent_of_chars (by decide) (List.all_eq_true.mp (by decide))
    refine walkClass_tmpSibling hlawful hsplit hdirs hfold (List.all_eq_true.mp (by decide))
      (fun rest => classifyFolded_of_lawful hlawful ?_ (by decide)) n
    refine notMem_of_take_three ?_
    show submissionRecordsDir.take 3 ∉ [['d', 'e', 'c'], ['.', '0', '0']]
    decide

theorem plainWorld_safe (cutAt : Option Nat) :
    ManifestSafe plainRules (plainWorld plainPaths cutAt) := by
  intro rows entry hrows hentry _
  cases hrows
  obtain ⟨path, hpath, rfl⟩ := List.mem_map.mp hentry
  exact plainPaths_safe path hpath

/-- A run that is cut off after its first download. -/
def cutEpisodes : List (Episode StagingLedger) :=
  [.run (plainWorld plainPaths (some 13))]

theorem cutEpisodes_safe : ∀ episode ∈ cutEpisodes, episode.Safe plainRules := by
  intro episode hin
  rw [List.mem_singleton.mp hin]
  exact plainWorld_safe (some 13)

/-- The disk after the run that is cut off. -/
def cutDisk : RestoreDisk StagingLedger :=
  (reached plainRules .absent cutEpisodes).1

theorem restore_resumed :
    (outcomeOf plainRules (plainWorld plainPaths none) cutDisk).1.isOk = true ∧
      ((∀ trace ∈ (reached plainRules .absent cutEpisodes).2, .installing ∉ trace) →
        cutDisk.destination = .absent) ∧
      Left plainRules cutDisk (plainWorld plainPaths none)
        (outcomeOf plainRules (plainWorld plainPaths none) cutDisk).2.disk
        (outcomeOf plainRules (plainWorld plainPaths none) cutDisk).2.trace ∧
      ((outcomeOf plainRules (plainWorld plainPaths none) cutDisk).1 = .ok ⟨⟩ →
        Restored plainRules (plainWorld plainPaths none)
          (outcomeOf plainRules (plainWorld plainPaths none) cutDisk).2.disk
          (outcomeOf plainRules (plainWorld plainPaths none) cutDisk).2.trace) :=
  ⟨by decide +kernel, restore_all_or_nothing SyncTables.ascii_lawful cutEpisodes_safe
    (plainWorld_safe none) rfl⟩

/-- A manifest that lists the sync state. -/
def statePaths : List String := ".sync-state.json" :: plainPaths

/-- A manifest with a name whose temporary sibling is a reserved one. -/
def hiddenPaths : List String := "replica:x.md" :: plainPaths

/-- The disk after a run that was cut off before its first file was put in place. -/
def hiddenDisk : RestoreDisk StagingLedger :=
  (reached plainRules .absent [.run (plainWorld hiddenPaths (some 11))]).1

/-- A listed sync state is overwritten, so that the destination holds no content that passed the
manifest's checks; and a temporary sibling that the audit does not see is installed. -/
theorem unsafe_manifests_restored :
    ((outcomeOf plainRules (plainWorld statePaths none) (freshDisk .absent)).1.isOk = true ∧
        ((outcomeOf plainRules (plainWorld statePaths none)
          (freshDisk .absent)).2.disk.destination.tree.get? syncStateFile).map
            (contentDefect plainRules · (plainEntry ".sync-state.json" [65])) =
          some (some .size)) ∧
      ((outcomeOf plainRules (plainWorld hiddenPaths none) hiddenDisk).1.isOk = true ∧
        (outcomeOf plainRules (plainWorld hiddenPaths none)
          hiddenDisk).2.disk.destination.tree.get? (tmpSibling "replica:x.md".toList
            (tokenHex 20)) = some []) := by
  decide +kernel

end Client
end Nauro
