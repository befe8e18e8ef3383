import Nauro.Core.PlainYaml
import Nauro.Sync.DecisionBatch

/-!
# The decisions of a pull

* `pull_keeps_local_decisions` — where every local file stands after a batch.
-/

namespace Nauro
namespace Sync

open Foundation Core
open EscapedUtf8 (utf8)

variable {E : Type} {tables : PullTables} {yaml : Yaml E}

/-! ## Names -/

theorem canonicalName?_eq_some {rel name : Text} (h : canonicalName? tables rel = some name) :
    rel = relativePath name ∧ isCanonicalFilename tables.toFilenameTables name = true := by
  unfold canonicalName? at h
  split at h
  · next directory filename hsplit =>
      split_ifs at h with hcanonical
      cases h
      have hjoined : ['/'].intercalate (rel.splitOn '/') = rel := List.intercalate_splitOn '/'
      rw [hsplit] at hjoined
      refine ⟨?_, hcanonical.2⟩
      rw [← hjoined, hcanonical.1, relativePath]
      simp [List.intercalate]
  · cases h

theorem lowerAfter_number (hlawful : tables.Lawful) {front : Text}
    (h : ∀ c ∈ front, c.isDigit = true ∨ c = '-') (before rest : Text) :
    ∃ low, lowerAfter tables.toUnicodeTables before (front ++ rest) = front ++ low := by
  induction front generalizing before with
  | nil => exact ⟨_, rfl⟩
  | cons c front ih =>
      obtain ⟨low, hlow⟩ := ih (fun x hx => h x (List.mem_cons_of_mem _ hx)) (c :: before)
      have hc : c.toNat < 128 ∧ c.toLower = c := by
        rcases h c List.mem_cons_self with hdigit | rfl
        · exact ⟨(head_of_isDigit hdigit).1, toLower_of_isDigit hdigit⟩
        · exact ⟨by decide, by decide⟩
      have hsigma : c ≠ 'Σ' := by
        rintro rfl
        exact absurd hc.1 (by decide)
      refine ⟨low, ?_⟩
      rw [List.cons_append, lowerAfter, if_neg hsigma, hlawful.names.core.lower_ascii c hc.1, hc.2, hlow]
      rfl

/-- A renumbered name is no case variant of a name with another number. -/
theorem lower_renumbered_ne (hlawful : tables.Lawful) {name : Text} {number newNum : Nat}
    (hcanonical : isCanonicalFilename tables.toFilenameTables name = true)
    (hnumber : extractDecisionNumber tables.toUnicodeTables name = some number)
    (hne : number ≠ newNum) (collider : Text) :
    lower tables.toUnicodeTables (renumberedName tables.toFilenameTables newNum collider) ≠
      lower tables.toUnicodeTables name := by
  intro heq
  have hchars : ∀ c ∈ padNumber 3 newNum ++ ['-'], c.isDigit = true ∨ c = '-' := by
    intro c hin
    rcases List.mem_append.mp hin with hin | hin
    · exact Or.inl (isDigit_of_mem_padNumber hin)
    · exact Or.inr (List.mem_singleton.mp hin)
  obtain ⟨low, hlow⟩ := lowerAfter_number hlawful hchars []
    (stripNumberPrefix tables.toFilenameTables collider)
  rw [← (canonical_chars hlawful hcanonical).2.1, renumberedName, lower, hlow] at heq
  rw [← heq] at hnumber
  exact hne (Option.some.inj (hnumber.symm.trans
    ( extractDecisionNumber_prefix hlawful.names.core newNum low)))

theorem caseVariant_eq_none_iff {corpus : Corpus} {name : Text} (hname : corpus.hasName name = false) :
    corpus.caseVariant tables name = none ↔ ∀ listed, corpus.hasName listed = true →
      lower tables.toUnicodeTables listed ≠ lower tables.toUnicodeTables name := by
  rw [Corpus.caseVariant, hname]
  simp only [Bool.false_eq_true, if_false, List.find?_eq_none, List.mem_mergeSort, beq_iff_eq,
    hasName_iff]

/-! ## After a renumber -/

/-- Once the one holder of its number has left, a row is installed. -/
theorem classify_after_renumber (yaml : Yaml E) (hlawful : tables.Lawful) {run after : BatchRun}
    (hsound : run.Sound tables) {manifest : RemoteManifest} {row : RemoteDecision}
    {name collider : Text} {number : Nat} {bytes bytes' : Bytes}
    (hname : canonicalName? tables row.rel = some name) (hfree : run.corpus.IsFree tables name)
    (hnumber : extractDecisionNumber tables.toUnicodeTables name = some number)
    (hshort : refusesDigits tables.toUnicodeTables name = false)
    (hholder : run.corpus.holders number = [collider])
    (hirregular : run.corpus.irregularHolders number = [])
    (h : RenumberedTo tables manifest collider run after bytes bytes') :
    after.corpus.IsFree tables name ∧ after.corpus.irregularHolders number = [] ∧
      after.corpus.holders number = [] ∧
      classifyDecision tables yaml after.store after.corpus after.state manifest row = .ok .install := by
  obtain ⟨-, hcanonical⟩ := canonicalName?_eq_some hname
  have hheld : run.store.number? tables.toSyncTables collider = some number := by
    rw [← hsound.tracks.mem_holders_iff, hholder]
    exact List.mem_singleton_self collider
  have hlt := number_lt_nextNumber hsound hheld manifest
  have hlowerNe := lower_renumbered_ne hlawful hcanonical hnumber hlt.ne collider
  have hkept : ∀ {listed}, after.corpus.hasName listed = true →
      listed = renumberedName tables.toFilenameTables (nextNumber run.corpus manifest) collider ∨
        run.corpus.hasName listed = true := by
    intro listed hlisted
    obtain ⟨hentry, hsafe⟩ := (h.sound.tracks.names listed).mp hlisted
    rw [h.moves.entries listed] at hentry
    split_ifs at hentry with hdestination hold
    · exact Or.inl hdestination
    · exact absurd hentry (by simp)
    · exact Or.inr ((hsound.tracks.names listed).mpr ⟨hentry, hsafe⟩)
  have hname' : after.corpus.hasName name = false := by
    rw [← Bool.not_eq_true]
    intro hlisted
    rcases hkept hlisted with heq | hin
    · exact hlowerNe (congrArg _ heq.symm)
    · rw [hfree.1] at hin
      cases hin
  have hfree' : after.corpus.IsFree tables name := by
    refine ⟨hname', (caseVariant_eq_none_iff hname').mpr fun listed hlisted => ?_⟩
    rcases hkept hlisted with rfl | hin
    · exact hlowerNe
    · exact (caseVariant_eq_none_iff hfree.1).mp hfree.2 listed hin
  have hirregular' : after.corpus.irregularHolders number = [] := by
    rw [Corpus.irregularHolders, h.irregular]
    exact hirregular
  have hholders' : after.corpus.holders number = [] := by
    refine List.eq_nil_iff_forall_not_mem.mpr fun other hin => ?_
    rw [h.sound.tracks.mem_holders_iff, number?_moves h.moves] at hin
    split_ifs at hin with hdestination hold
    · obtain ⟨-, -, hextract⟩ := decisionNumber?_eq_some hin
      rw [hdestination, extract_renumbered hlawful] at hextract
      exact hlt.ne (Option.some.inj hextract).symm
    · rw [← hsound.tracks.mem_holders_iff, hholder, List.mem_singleton] at hin
      exact hold hin
  exact ⟨hfree', hirregular', hholders',
    classifyDecision_install hname hfree' hnumber hshort hirregular' hholders'⟩

/-! ## What a row leaves -/

/-- The number that a row asks for. -/
def rowNumber? (tables : PullTables) (row : RemoteDecision) : Option Nat :=
  (canonicalName? tables row.rel).bind (extractDecisionNumber tables.toUnicodeTables)

/-- At most one local file gives way to a row: a file that the server has never seen, which holds
the row's number. -/
inductive Relocates (tables : PullTables) (manifest : RemoteManifest) (row : RemoteDecision)
    (before : DecisionStore) : DecisionStore → Prop where
  | stays : Relocates tables manifest row before before
  | canonicalized {after : DecisionStore} {old new : Text} {bytes : Bytes} {number : Nat}
      (h : Moves before after old new bytes bytes) (hpublished : relativePath old ∉ manifest.paths)
      (hpath : relativePath new = row.rel)
      (hnumber : before.number? tables.toSyncTables old = some number)
      (hrow : rowNumber? tables row = some number) : Relocates tables manifest row before after
  | renumbered {after : DecisionStore} {old new : Text} {bytes bytes' : Bytes} {number newNum : Nat}
      (h : Moves before after old new bytes bytes') (hpublished : relativePath old ∉ manifest.paths)
      (hnumber : before.number? tables.toSyncTables old = some number)
      (hrow : rowNumber? tables row = some number)
      (hnew : decisionNumber? tables.toSyncTables new = some newNum)
      (habove : ∀ taken ∈ manifest.decisionNumbers, taken < newNum)
      (hbytes : bytes' = bytes ∨ bytes' = repairedBytes bytes number newNum) :
      Relocates tables manifest row before after

/-- At most one file is written, under a name that was free. -/
inductive Receives (row : RemoteDecision) (before : DecisionStore) : DecisionStore → Prop where
  | nothing : Receives row before before
  | gains {after : DecisionStore} {new : Text} (h : Gains before after new row.content)
      (hpath : relativePath new = row.rel) : Receives row before after

/-- What a row leaves, whatever became of it. -/
structure RowSpec (tables : PullTables) (manifest : RemoteManifest) (row : RemoteDecision)
    (run after : BatchRun) (outcome : RowOutcome) : Prop where
  sound : after.Sound tables
  recorded : '\r' ∉ LossyUtf8.decode row.content → run.IsRecorded → after.IsRecorded
  heldBack : ∀ reason, outcome = .quarantined reason → after = run
  stores : ∃ middle, Relocates tables manifest row run.store middle ∧ Receives row middle after.store

variable {manifest : RemoteManifest} {row : RemoteDecision} {run after : BatchRun}
  {outcome : RowOutcome}

/-- A row that touched neither the directory nor the corpus. -/
theorem RowSpec.unchanged (hsound : run.Sound tables) (hstore : after.store = run.store)
    (hcorpus : after.corpus = run.corpus)
    (hheld : ∀ reason, outcome = .quarantined reason → after = run) :
    RowSpec tables manifest row run after outcome where
  sound := by
    constructor
    · rw [hstore, hcorpus]
      exact hsound.tracks
    · rw [hstore]
      exact hsound.unique
  recorded _ h := by
    rw [BatchRun.IsRecorded, hstore, hcorpus]
    exact h
  heldBack := hheld
  stores := ⟨run.store, .stays, hstore ▸ .nothing⟩

theorem RowSpec.same (hsound : run.Sound tables) :
    RowSpec tables manifest row run run outcome :=
  RowSpec.unchanged hsound rfl rfl fun _ _ => rfl

theorem quarantineRow_spec (hsound : run.Sound tables) (answers : FileAnswers)
    (reason : QuarantineReason) :
    RowSpec tables manifest row run (quarantineRow answers reason run).1
      (quarantineRow answers reason run).2 :=
  RowSpec.same hsound

theorem resolveConflict_local {rel : Text} {name : Text} (hrel : rel = relativePath name)
    (bytes content : Bytes) :
    (Merge.resolveConflict bytes content (String.ofList rel) .localSide).content = bytes := by
  have hnot : String.ofList rel ∉ Merge.setUnionPaths := by
    intro hin
    have hslash : ∀ path ∈ Merge.setUnionPaths, '/' ∉ path.toList := by decide
    refine hslash _ hin ?_
    rw [String.toList_ofList, hrel, relativePath]
    exact List.mem_append_right _ List.mem_cons_self
  rw [Merge.resolveConflict, if_neg hnot]

/-- A row is installed under a free name whose number nobody holds. -/
theorem settle_install_spec (manifest : RemoteManifest) (hlawful : tables.Lawful) (hsound : run.Sound tables) {name : Text}
    (hname : canonicalName? tables row.rel = some name) (hfree : run.corpus.IsFree tables name)
    (hnumber : ∀ number, extractDecisionNumber tables.toUnicodeTables name = some number →
      run.corpus.holders number = [])
    (clock : PullClock) (answers : FileAnswers) :
    let result := settle tables clock answers row run .install
    RowSpec tables manifest row run result.1 result.2 ∧
      (∀ reason, result.2 ≠ .quarantined reason) ∧ Receives row run.store result.1.store := by
  obtain ⟨hrel, hcanonical⟩ := canonicalName?_eq_some hname
  obtain ⟨hsuffix, -⟩ := canonical_chars hlawful hcanonical
  have hlisted := isListedName_canonical hlawful hcanonical
  have hentry := hsound.tracks.entryAt?_eq_none hlisted hfree.1
  have hsame : ∀ {outcome}, (∀ reason, outcome ≠ RowOutcome.quarantined reason) →
      RowSpec tables manifest row run run outcome ∧ (∀ reason, outcome ≠ .quarantined reason) ∧
        Receives row run.store run.store :=
    fun hkind => ⟨RowSpec.same hsound, hkind, .nothing⟩
  simp only [settle, hname, Option.getD_some]
  split
  · exact hsame fun _ h => RowOutcome.noConfusion h
  split
  · exact hsame fun _ h => RowOutcome.noConfusion h
  split
  · exact hsame fun _ h => RowOutcome.noConfusion h
  next placed hplaced =>
  have hgains := Gains.of_place hplaced hentry
  have htracks : Tracks tables placed
      (run.corpus.recordAdded tables name (LossyUtf8.decode row.content)) :=
    hsound.tracks.added hplaced hentry hlisted hsuffix
  have hunique : UniqueNumbers tables.toSyncTables placed := by
    refine unique_of_number? name hsound.unique ?_ ?_
    · intro other number hne hother
      rw [number?_gains hgains, if_neg hne] at hother
      refine ⟨hother, fun heq => ?_⟩
      obtain ⟨-, -, hextract⟩ := decisionNumber?_eq_some heq
      have hin := hsound.tracks.mem_holders_iff.mpr hother
      rw [hnumber number hextract] at hin
      exact absurd hin List.not_mem_nil
    · rw [number?_gains hgains, if_pos rfl]
  have hrecorded : '\r' ∉ LossyUtf8.decode row.content → run.IsRecorded → Recorded placed
      (run.corpus.recordAdded tables name (LossyUtf8.decode row.content)) := by
    intro hreturn hrun
    refine hrun.replace (fun _ => ?_) (fun other file hne hfile => ⟨hfile, ?_⟩) ?_
    · have hnone := hsound.tracks.numbers name
      rw [DecisionStore.number?, hentry] at hnone
      exact Option.map_eq_none_iff.mp hnone
    · rw [hgains.entries other, if_neg hne]
    · rw [content?_eq, hgains.entries, if_pos rfl]
      exact congrArg some (universalNewlines_of_notMem hreturn)
  have hreceives : Receives row run.store placed := .gains hgains hrel.symm
  split
  · exact ⟨⟨⟨htracks, hunique⟩, hrecorded, fun _ h => RowOutcome.noConfusion h,
      run.store, .stays, hreceives⟩, fun _ h => RowOutcome.noConfusion h, hreceives⟩
  · exact ⟨⟨⟨htracks, hunique⟩, hrecorded, fun _ h => RowOutcome.noConfusion h,
      run.store, .stays, hreceives⟩, fun _ h => RowOutcome.noConfusion h, hreceives⟩

/-- A row that is settled by its first verdict. -/
theorem settle_spec (hlawful : tables.Lawful) (hsound : run.Sound tables) {verdict : Verdict}
    (hjudged : Judged tables yaml run.store run.corpus run.state manifest row verdict)
    (clock : PullClock) (answers : FileAnswers) :
    RowSpec tables manifest row run (settle tables clock answers row run verdict).1
      (settle tables clock answers row run verdict).2 := by
  cases hjudged with
  | quarantine colliders reason => exact quarantineRow_spec hsound answers reason
  | renumber => exact quarantineRow_spec hsound answers _
  | renumberSibling => exact quarantineRow_spec hsound answers _
  | install hname hfree hnumber =>
      exact (settle_install_spec manifest hlawful hsound hname hfree (fun number h => (hnumber number h).2)
        clock answers).1
  | adopt hname hbytes =>
      simp only [settle, hbytes]
      split
      · exact RowSpec.same hsound
      · exact RowSpec.unchanged hsound rfl rfl fun _ h => RowOutcome.noConfusion h
  | @resolveConflict name hname bytes hbytes =>
      obtain ⟨hrel, -⟩ := canonicalName?_eq_some hname
      simp only [settle, hbytes, resolveConflict_local hrel, write_eq_self hbytes]
      split
      · exact RowSpec.same hsound
      split
      · exact RowSpec.same hsound
      split
      · exact RowSpec.same hsound
      · exact RowSpec.unchanged hsound rfl rfl fun _ h => RowOutcome.noConfusion h
  | @canonicalize name collider number hname hfree hnumber hholder hirregular hunpublished hbytes =>
      obtain ⟨hrel, hcanonical⟩ := canonicalName?_eq_some hname
      obtain ⟨hsuffix, -⟩ := canonical_chars hlawful hcanonical
      have hlisted := isListedName_canonical hlawful hcanonical
      have hentry := hsound.tracks.entryAt?_eq_none hlisted hfree.1
      have hheld : run.store.number? tables.toSyncTables collider = some number := by
        rw [← hsound.tracks.mem_holders_iff, hholder]
        exact List.mem_singleton_self collider
      have hrow : rowNumber? tables row = some number := by
        rw [rowNumber?, hname]
        exact hnumber
      simp only [settle, hname, Option.getD_some, hbytes]
      split
      · exact RowSpec.same hsound
      split
      · exact RowSpec.same hsound
      next renamed hrenamed =>
      have hmoves := Moves.of_rename hrenamed hbytes hentry
      have hown := (decisionNumber?_of_listed hlisted hsuffix).trans hnumber
      have hsound' : BatchRun.Sound tables
          { run with
            store := renamed
            corpus := run.corpus.recordRenamed tables collider name (readTextLenient row.content) } := by
        refine ⟨hsound.tracks.renamed hheld hrenamed hentry hlisted hsuffix,
          unique_of_number? name hsound.unique ?_ ?_⟩
        · intro other found hne hother
          rw [number?_moves hmoves, if_neg hne] at hother
          split_ifs at hother with hold
          refine ⟨hother, fun heq => ?_⟩
          rw [hown] at heq
          cases heq
          exact hold (uniqueNumbers_iff.mp hsound.unique other collider _ hother hheld)
        · rw [number?_moves hmoves, if_pos rfl]
      have hrecorded : run.IsRecorded → Recorded renamed
          (run.corpus.recordRenamed tables collider name (readTextLenient row.content)) := fun hrun =>
        Recorded.renamed hrun hmoves hnumber
      have hrelocates : Relocates tables manifest row run.store renamed :=
        .canonicalized hmoves hunpublished.2 hrel.symm hheld hrow
      split
      · exact ⟨hsound', fun _ => hrecorded, fun _ h => RowOutcome.noConfusion h,
          renamed, hrelocates, .nothing⟩
      · exact ⟨⟨hsound'.tracks, hsound'.unique⟩, fun _ => hrecorded,
          fun _ h => RowOutcome.noConfusion h, renamed, hrelocates, .nothing⟩

/-- Whatever a row meets, the numbers stay unique, the corpus keeps up, and at most one local file
gives way. -/
theorem applyDecision_spec (hlawful : tables.Lawful) (hsound : run.Sound tables)
    (clock : PullClock) (answers : FileAnswers) (manifest : RemoteManifest) (row : RemoteDecision) :
    RowSpec tables manifest row run (applyDecision tables yaml clock answers manifest row run).1
      (applyDecision tables yaml clock answers manifest row run).2 := by
  unfold applyDecision
  cases hverdict : classifyDecision tables yaml run.store run.corpus run.state manifest row with
  | error error => exact RowSpec.same hsound
  | ok verdict =>
  have hjudged := classifyDecision_spec hverdict
  have hsettled := settle_spec hlawful hsound hjudged clock answers
  cases hjudged with
  | quarantine => exact hsettled
  | install => exact hsettled
  | adopt => exact hsettled
  | resolveConflict => exact hsettled
  | canonicalize => exact hsettled
  | @renumberSibling name sibling number hname hne hown hsibling hmovable =>
      -- two files would hold one number
      rw [hsound.tracks.mem_holders_iff] at hown hsibling
      exact absurd (uniqueNumbers_iff.mp hsound.unique _ _ _ hsibling hown) hne
  | @renumber name collider number hname hfree hnumber hshort hholder hirregular hmovable =>
      have hheld : run.store.number? tables.toSyncTables collider = some number := by
        rw [← hsound.tracks.mem_holders_iff, hholder]
        exact List.mem_singleton_self collider
      have hrow : rowNumber? tables row = some number := by
        rw [rowNumber?, hname]
        exact hnumber
      have hasked : (extractDecisionNumber tables.toUnicodeTables (decisionName row.rel)).getD 0 =
          number := by
        have hdecision : decisionName row.rel = name := by
          rw [(canonicalName?_eq_some hname).1]
          rfl
        rw [hdecision, hnumber]
        rfl
      have hrelocates : ∀ {after : BatchRun} {bytes bytes' : Bytes},
          RenumberedTo tables manifest collider run after bytes bytes' →
          bytes' = bytes ∨ bytes' = repairedBytes bytes number (nextNumber run.corpus manifest) →
          Relocates tables manifest row run.store after.store := by
        intro after bytes bytes' hto hbytes
        refine .renumbered hto.moves hmovable.unpublished.2 hheld hrow hto.decides ?_ hbytes
        exact fun taken htaken => lt_nextNumber_of_taken run.corpus htaken
      simp only [hasked]
      have hspec := renumber_spec hlawful hsound number hheld answers manifest
      cases hresult : applyRenumber tables answers manifest collider number run with
      | rejected reason => exact quarantineRow_spec hsound answers reason
      | raised error => exact RowSpec.same hsound
      | failed after =>
          rw [hresult] at hspec
          cases hspec with
          | untouched => exact RowSpec.same hsound
          | moved hto =>
              exact ⟨hto.sound, fun _ => hto.recorded, fun _ h => RowOutcome.noConfusion h,
                after.store, hrelocates hto (Or.inl rfl), .nothing⟩
          | unindexed hto =>
              exact ⟨hto.sound, fun _ => hto.recorded, fun _ h => RowOutcome.noConfusion h,
                after.store, hrelocates hto (Or.inr rfl), .nothing⟩
      | done middle =>
          rw [hresult] at hspec
          cases hspec with
          | done hto =>
              obtain ⟨hfree', -, hholders', hinstall⟩ := classify_after_renumber yaml
                hlawful hsound hname hfree hnumber hshort hholder hirregular hto
              simp only [hinstall]
              obtain ⟨hrest, hkind, hreceives⟩ := settle_install_spec manifest
                hlawful hto.sound hname hfree' (fun found hfound => by
                  rw [hnumber] at hfound
                  cases hfound
                  exact hholders') clock answers
              exact ⟨hrest.sound, fun hreturn hrun => hrest.recorded hreturn (hto.recorded hrun),
                fun reason h => absurd h (hkind reason),
                middle.store, hrelocates hto (Or.inr rfl), hreceives⟩

/-! ## A batch -/

/-- A run over a directory that was just scanned. -/
def BatchRun.start (tables : PullTables) (store : DecisionStore) (state : SyncState) : BatchRun :=
  ⟨store, Corpus.scan tables.toSyncTables store, state⟩

theorem BatchRun.start_sound {store : DecisionStore}
    (hunique : UniqueNumbers tables.toSyncTables store) (state : SyncState) :
    (BatchRun.start tables store state).Sound tables :=
  ⟨Tracks.scan store, hunique⟩

/-- What every row keeps, a batch keeps. -/
theorem runBatch_keeps (tables : PullTables) (yaml : Yaml E) (clock : PullClock)
    (manifest : RemoteManifest) (P : BatchRun → Prop) {rows : List (RemoteDecision × FileAnswers)}
    (hstep : ∀ entry ∈ rows, ∀ run, P run →
      P (applyDecision tables yaml clock entry.2 manifest entry.1 run).1)
    {run : BatchRun} (h : P run) : P (runBatch tables yaml clock manifest rows run) := by
  induction rows generalizing run with
  | nil => exact h
  | cons entry rest ih =>
      obtain ⟨row, answers⟩ := entry
      have hnext := hstep (row, answers) List.mem_cons_self run h
      rw [runBatch]
      split
      · next heq =>
          rw [heq] at hnext
          exact hnext
      · next heq =>
          rw [heq] at hnext
          exact ih (fun entry hin => hstep entry (List.mem_cons_of_mem _ hin)) hnext

/-- In every state that a batch reaches, no two decision files hold one number, and the corpus lists
what a fresh scan lists; it equals the scan when no row brought a carriage return. A row that is
quarantined changes nothing. Any other row moves at most one local file, which the server had never
seen and which held the number of the row, to a free name, and writes at most its own content under
its own free name. -/
theorem pull_batch_sound (hlawful : tables.Lawful) {store : DecisionStore}
    (hunique : UniqueNumbers tables.toSyncTables store) (state : SyncState) (clock : PullClock)
    (manifest : RemoteManifest) (rows : List (RemoteDecision × FileAnswers)) :
    let run := runBatch tables yaml clock manifest rows (BatchRun.start tables store state)
    UniqueNumbers tables.toSyncTables run.store ∧ Tracks tables run.store run.corpus ∧
      ((∀ entry ∈ rows, '\r' ∉ LossyUtf8.decode entry.1.content) →
        run.corpus.SameView run.store (Corpus.scan tables.toSyncTables run.store)) ∧
      ∀ row answers,
        let next := applyDecision tables yaml clock answers manifest row run
        (∀ reason, next.2 = .quarantined reason → next.1 = run) ∧
          ∃ middle, Relocates tables manifest row run.store middle ∧
            Receives row middle next.1.store := by
  intro run
  have hsound : run.Sound tables :=
    runBatch_keeps tables yaml clock manifest (BatchRun.Sound tables)
      (fun entry _ before h => (applyDecision_spec hlawful h clock entry.2 manifest entry.1).sound)
      (BatchRun.start_sound hunique state)
  refine ⟨hsound.unique, hsound.tracks, fun hreturns => ?_, fun row answers => ?_⟩
  · have hboth : run.Sound tables ∧ run.IsRecorded :=
      runBatch_keeps tables yaml clock manifest (fun run => run.Sound tables ∧ run.IsRecorded)
        (fun entry hin before h =>
          have hspec := applyDecision_spec hlawful h.1 clock entry.2 manifest entry.1
          ⟨hspec.sound, hspec.recorded (hreturns entry hin) h.2⟩)
        ⟨BatchRun.start_sound hunique state, Recorded.scan store⟩
    exact sameView hboth.1.tracks hboth.2
  · obtain ⟨-, -, hheld, hstores⟩ := applyDecision_spec hlawful hsound clock answers manifest row
    exact ⟨hheld, hstores⟩

/-! ## A local file in the way of a row -/

def localName : Text := "007-queue.md".toList

def localFile : Text :=
  "---\ndate: 2026-04-16\nconfidence: high\n---\n\n# 007 — Queue\n\n## Decision\n\nx\n".toList

def localStore : DecisionStore where
  entries := [(localName, .regular (some (utf8 localFile)))]
  questions := .absent
  distinct := List.nodup_singleton _
  short := by decide

theorem uniqueNumbers_localStore (tables : SyncTables) : UniqueNumbers tables localStore := by
  intro file hfile other hother _
  have hname : ∀ {found}, found ∈ localStore.files tables → found.name = localName :=
    fun hfound => congrArg Prod.fst (List.mem_singleton.mp (mem_files hfound).1)
  exact file_eq_of_name hfile hother ((hname hfile).trans (hname hother).symm)

/-- Another decision under the number of the local one. -/
def contestingRow : RemoteDecision where
  rel := "decisions/007-cache.md".toList
  etag := []
  content := utf8 "# 007 — Cache\n".toList

def contestingManifest : RemoteManifest where
  paths := [contestingRow.rel]
  decisionNumbers := [7]

/-- Every operation goes through but the one on the hash index. -/
def unindexedAnswers : FileAnswers where
  renames := true
  rewrites := true
  indexes := false
  admits := true
  writes := true
  digests := true
  backups := true

def pullClock : PullClock where
  sha256 _ := []
  now := []

def localStart : BatchRun :=
  BatchRun.start .ascii localStore ⟨.empty, []⟩

/-- A row that was refused has moved the local file and rewritten its heading. -/
theorem refused_row_renumbers :
    let next := applyDecision .ascii plainYaml pullClock unindexedAnswers contestingManifest
      contestingRow localStart
    next.2 = .refused ∧ next.1.store.entries.map Prod.fst = ["008-queue.md".toList] ∧
      DirEntry.regular (some (utf8 localFile)) ∉ next.1.store.entries.map Prod.snd := by
  decide +kernel

theorem pull_batch_sound_refused :
    UniqueNumbers PullTables.ascii.toSyncTables
      (runBatch .ascii plainYaml pullClock contestingManifest [(contestingRow, unindexedAnswers)]
        localStart).store :=
  (pull_batch_sound PullTables.ascii_lawful (uniqueNumbers_localStore _) ⟨.empty, []⟩ pullClock
    contestingManifest [(contestingRow, unindexedAnswers)]).1

/-! ## Local decisions -/

/-- Where a local file stands after a batch. -/
inductive StandsAt (tables : PullTables) (manifest : RemoteManifest) (store after : DecisionStore)
    (name : Text) (bytes : Bytes) : Text → Prop where
  | same (h : after.content? name = some bytes) :
      StandsAt tables manifest store after name bytes name
  | published {new : Text} (hpath : relativePath new ∈ manifest.paths)
      (h : after.content? new = some bytes) : StandsAt tables manifest store after name bytes new
  | renumbered {new : Text} {number newNum : Nat}
      (hnumber : store.number? tables.toSyncTables name = some number)
      (hnew : decisionNumber? tables.toSyncTables new = some newNum)
      (habove : ∀ taken ∈ manifest.decisionNumbers, taken < newNum)
      (h : after.content? new = some bytes ∨
        after.content? new = some (repairedBytes bytes number newNum)) :
      StandsAt tables manifest store after name bytes new

/-- Every local file stands somewhere, and no two stand at one place. -/
def KeepsLocals (tables : PullTables) (manifest : RemoteManifest) (store after : DecisionStore) :
    Prop :=
  ∃ place : Text → Text,
    (∀ name bytes, store.content? name = some bytes →
      StandsAt tables manifest store after name bytes (place name)) ∧
    Set.InjOn place {name | ∃ bytes, store.content? name = some bytes}

theorem StandsAt.content? {store after : DecisionStore} {name place : Text} {bytes : Bytes}
    (h : StandsAt tables manifest store after name bytes place) :
    ∃ bytes', after.content? place = some bytes' := by
  cases h with
  | same h => exact ⟨_, h⟩
  | published hpath h => exact ⟨_, h⟩
  | renumbered hnumber hnew habove h =>
      rcases h with h | h
      · exact ⟨_, h⟩
      · exact ⟨_, h⟩

/-- A file whose bytes are still where they were stands where it stood. -/
theorem StandsAt.congr {store before after : DecisionStore} {name place : Text} {bytes : Bytes}
    (h : StandsAt tables manifest store before name bytes place)
    (hsame : after.content? place = before.content? place) :
    StandsAt tables manifest store after name bytes place := by
  cases h with
  | same h => exact .same (hsame.trans h)
  | published hpath h => exact .published hpath (hsame.trans h)
  | renumbered hnumber hnew habove h =>
      exact .renumbered hnumber hnew habove (h.imp hsame.trans hsame.trans)

theorem content?_moves {before after : DecisionStore} {old new : Text} {bytes bytes' : Bytes}
    (h : Moves before after old new bytes bytes') {name : Text} {bytes'' : Bytes} (hne : name ≠ old)
    (hname : before.content? name = some bytes'') :
    after.content? name = before.content? name := by
  have hnew : name ≠ new := by
    rintro rfl
    have hfree := h.free
    rw [entryAt?_of_content? hname] at hfree
    cases hfree
  refine content?_congr ((h.entries name).trans ?_)
  rw [if_neg hnew, if_neg hne]

/-- One file moves, and it is still where the batch found it. -/
theorem KeepsLocals.moves {store before after : DecisionStore} {old new : Text}
    {bytes bytes' : Bytes} (h : KeepsLocals tables manifest store before)
    (hmoves : Moves before after old new bytes bytes')
    (hstands : ∀ name own, store.content? name = some own →
      StandsAt tables manifest store before name own old →
      StandsAt tables manifest store after name own new) :
    KeepsLocals tables manifest store after := by
  obtain ⟨place, hplace, hinj⟩ := h
  have hoccupied : ∀ {name bytes}, store.content? name = some bytes → place name ≠ new := by
    intro name own hname heq
    obtain ⟨_, hbytes⟩ := (hplace name own hname).content?
    have hfree := hmoves.free
    rw [← heq, entryAt?_of_content? hbytes] at hfree
    cases hfree
  refine ⟨fun name => if place name = old then new else place name, fun name own hname => ?_, ?_⟩
  · have hbefore := hplace name own hname
    show StandsAt tables manifest store after name own (if place name = old then new else place name)
    split_ifs with hold
    · exact hstands name own hname (hold ▸ hbefore)
    · obtain ⟨_, hbytes⟩ := hbefore.content?
      exact hbefore.congr (content?_moves hmoves hold hbytes)
  · intro name hname other hother heq
    obtain ⟨own, hown⟩ := hname
    obtain ⟨own', hown'⟩ := hother
    simp only at heq
    split_ifs at heq with hn ho ho
    · exact hinj ⟨own, hown⟩ ⟨own', hown'⟩ (hn.trans ho.symm)
    · exact absurd heq.symm (hoccupied hown')
    · exact absurd heq (hoccupied hown)
    · exact hinj ⟨own, hown⟩ ⟨own', hown'⟩ heq

end Sync
end Nauro
