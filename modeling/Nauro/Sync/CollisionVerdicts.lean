import Nauro.Sync.DecisionListing

/-!
# What stands behind a verdict

* `classifyDecision_spec` — every verdict is given for its own grounds.
-/

namespace Nauro
namespace Sync

open Foundation Core

variable {E : Type} {tables : PullTables} {yaml : Yaml E}

/-! ## Holders -/

theorem mem_holders {corpus : Corpus} {number : Nat} {name : Text} :
    name ∈ corpus.holders number ↔
      ∃ file, corpus.files.get? name = some file ∧ file.number = number := by
  rw [Corpus.holders, List.mem_map]
  constructor
  · rintro ⟨⟨other, file⟩, hin, rfl⟩
    obtain ⟨hentry, hnumber⟩ := List.mem_filter.mp hin
    exact ⟨file, Table.mem_entries_iff.mp hentry, beq_iff_eq.mp hnumber⟩
  · rintro ⟨file, hfile, hnumber⟩
    exact ⟨(name, file), List.mem_filter.mpr ⟨Table.mem_entries_iff.mpr hfile, beq_iff_eq.mpr hnumber⟩, rfl⟩

/-- A name that is listed neither in this spelling nor in another case. -/
def Corpus.IsFree (tables : PullTables) (corpus : Corpus) (name : Text) : Prop :=
  corpus.hasName name = false ∧ corpus.caseVariant tables name = none

/-- A file that the server has never seen: no record of it and no path for it. -/
def IsUnpublished (state : SyncState) (manifest : RemoteManifest) (name : Text) : Prop :=
  state.files.get? (relativePath name) = none ∧ relativePath name ∉ manifest.paths

/-- A collider that may leave its number to another decision. -/
structure Renumberable (tables : PullTables) (yaml : Yaml E) (store : DecisionStore)
    (corpus : Corpus) (state : SyncState) (manifest : RemoteManifest) (name : Text)
    (number : Nat) : Prop where
  unpublished : IsUnpublished state manifest name
  isolated : ∃ file, corpus.files.get? name = some file ∧
    corpus.isolationDefect tables yaml store name file [number] = .ok none ∧
    ∃ text, file.text store name = some text ∧ hasRewritableHeading text number = true
  readable : ∃ bytes, store.content? name = some bytes

/-! ## One collider -/

theorem classifyCollider_spec {store : DecisionStore} {corpus : Corpus} {state : SyncState}
    {manifest : RemoteManifest} {name : Text} {collider : CachedFile} {number : Nat}
    {remote : Bytes} {verdict : Verdict} (hfile : corpus.files.get? name = some collider)
    (h : classifyCollider tables yaml store corpus state manifest name collider number remote =
      .ok verdict) :
    (∃ reason, verdict = .quarantine [name] reason) ∨
      (verdict = .canonicalize name ∧ IsUnpublished state manifest name ∧
        store.content? name = some remote) ∨
      (verdict = .renumberLocal name ∧
        Renumberable tables yaml store corpus state manifest name number) := by
  unfold classifyCollider at h
  split at h
  · cases h
    exact Or.inl ⟨_, rfl⟩
  next htracked =>
  split at h
  · cases h
    exact Or.inl ⟨_, rfl⟩
  next hpublished =>
  have hunpublished : IsUnpublished state manifest name :=
    ⟨Option.not_isSome_iff_eq_none.mp htracked, hpublished⟩
  split at h
  · cases h
    exact Or.inl ⟨_, rfl⟩
  next bytes hbytes =>
  split at h
  · next heq =>
      cases h
      exact Or.inr (Or.inl ⟨rfl, hunpublished, hbytes.trans (congrArg some heq)⟩)
  split at h
  · cases h
  · cases h
    exact Or.inl ⟨_, rfl⟩
  next hisolated =>
  split at h
  · next htext =>
      cases h
      obtain ⟨text, htext, hheading⟩ := (Option.any_eq_true _ _).mp htext
      exact Or.inr (Or.inr ⟨rfl, hunpublished, ⟨collider, hfile, hisolated, text, htext, hheading⟩,
        bytes, hbytes⟩)
  · cases h
    exact Or.inl ⟨_, rfl⟩

/-! ## Verdicts -/

/-- The grounds of a verdict on a remote decision. -/
inductive Judged (tables : PullTables) (yaml : Yaml E) (store : DecisionStore) (corpus : Corpus)
    (state : SyncState) (manifest : RemoteManifest) (row : RemoteDecision) : Verdict → Prop where
  | quarantine (colliders : List Text) (reason : QuarantineReason) :
      Judged tables yaml store corpus state manifest row (.quarantine colliders reason)
  | install {name : Text} (hname : canonicalName? tables row.rel = some name)
      (hfree : corpus.IsFree tables name)
      (hnumber : ∀ number, extractDecisionNumber tables.toUnicodeTables name = some number →
        corpus.irregularHolders number = [] ∧ corpus.holders number = []) :
      Judged tables yaml store corpus state manifest row .install
  | adopt {name : Text} (hname : canonicalName? tables row.rel = some name)
      (hbytes : store.content? name = some row.content) :
      Judged tables yaml store corpus state manifest row (.adopt name)
  | resolveConflict {name : Text} (hname : canonicalName? tables row.rel = some name)
      {bytes : Bytes} (hbytes : store.content? name = some bytes) :
      Judged tables yaml store corpus state manifest row (.resolveConflict name)
  | canonicalize {name collider : Text} {number : Nat}
      (hname : canonicalName? tables row.rel = some name) (hfree : corpus.IsFree tables name)
      (hnumber : extractDecisionNumber tables.toUnicodeTables name = some number)
      (hholder : corpus.holders number = [collider])
      (hirregular : corpus.irregularHolders number = [])
      (hunpublished : IsUnpublished state manifest collider)
      (hbytes : store.content? collider = some row.content) :
      Judged tables yaml store corpus state manifest row (.canonicalize collider)
  | renumber {name collider : Text} {number : Nat}
      (hname : canonicalName? tables row.rel = some name) (hfree : corpus.IsFree tables name)
      (hnumber : extractDecisionNumber tables.toUnicodeTables name = some number)
      (hshort : refusesDigits tables.toUnicodeTables name = false)
      (hholder : corpus.holders number = [collider])
      (hirregular : corpus.irregularHolders number = [])
      (hmovable : Renumberable tables yaml store corpus state manifest collider number) :
      Judged tables yaml store corpus state manifest row (.renumberLocal collider)
  | renumberSibling {name sibling : Text} {number : Nat}
      (hname : canonicalName? tables row.rel = some name) (hne : sibling ≠ name)
      (hown : name ∈ corpus.holders number) (hsibling : sibling ∈ corpus.holders number)
      (hmovable : Renumberable tables yaml store corpus state manifest sibling number) :
      Judged tables yaml store corpus state manifest row (.renumberLocal sibling)

variable {store : DecisionStore} {corpus : Corpus} {state : SyncState} {manifest : RemoteManifest}
  {row : RemoteDecision} {name : Text} {verdict : Verdict}

/-- A sibling is asked to leave, or the row is held back. -/
theorem siblingDefect_spec {entry : CachedFile} (hname : canonicalName? tables row.rel = some name)
    (hentry : corpus.files.get? name = some entry)
    (h : siblingDefect tables yaml store corpus state manifest name entry row.content =
      .ok (some verdict)) :
    Judged tables yaml store corpus state manifest row verdict := by
  unfold siblingDefect at h
  simp only at h
  split at h
  · cases h
    exact .quarantine _ _
  split at h
  · cases h
  · next sibling hsiblings =>
      have hin : sibling ∈ (corpus.holders entry.number).filter (· != name) := by
        rw [hsiblings]
        exact List.mem_singleton_self sibling
      obtain ⟨hholder, hne⟩ := List.mem_filter.mp hin
      split at h
      · cases h
      next collider hcollider =>
      cases hfirst : classifyCollider tables yaml store corpus state manifest sibling collider
          entry.number row.content with
      | error error =>
          rw [hfirst] at h
          cases h
      | ok first =>
      rw [hfirst] at h
      cases h
      rcases classifyCollider_spec hcollider hfirst with ⟨reason, rfl⟩ | ⟨rfl, -, -⟩ | ⟨rfl, hmovable⟩
      · exact .quarantine _ _
      · exact .quarantine _ _
      · exact .renumberSibling hname (bne_iff_ne.mp hne) (mem_holders.mpr ⟨entry, hentry, rfl⟩) hholder hmovable
  · cases h
    exact .quarantine _ _

theorem classifySamePath_spec (hname : canonicalName? tables row.rel = some name)
    (h : classifySamePath tables yaml store corpus state manifest name row.content = .ok verdict) :
    Judged tables yaml store corpus state manifest row verdict := by
  unfold classifySamePath at h
  split at h
  · cases h
    exact .quarantine _ _
  simp only at h
  split at h
  · cases h
  · next found hdefect =>
      cases h
      split at hdefect
      · cases hdefect
      · next entry hentry => exact siblingDefect_spec hname hentry hdefect
  · split at h
    · cases h
      exact .quarantine _ _
    · next bytes hbytes =>
        cases h
        split_ifs with heq
        · exact .adopt hname (hbytes.trans (congrArg some heq))
        · exact .resolveConflict hname hbytes

theorem classifyNumber_spec (hname : canonicalName? tables row.rel = some name)
    (hfree : corpus.IsFree tables name)
    (h : classifyNumber tables yaml store corpus state manifest name row.content = .ok verdict) :
    Judged tables yaml store corpus state manifest row verdict := by
  unfold classifyNumber at h
  split at h
  · cases h
  next hshort =>
  rw [Bool.not_eq_true] at hshort
  split at h
  · next hnumber =>
      cases h
      refine .install hname hfree fun number hsome => ?_
      rw [hnumber] at hsome
      cases hsome
  next number hnumber =>
  split at h
  · cases h
    exact .quarantine _ _
  · next hirregular hholders =>
      cases h
      refine .install hname hfree fun other hsome => ?_
      rw [hnumber] at hsome
      cases hsome
      exact ⟨hirregular, hholders⟩
  · next holder hirregular hholder =>
      have hin : holder ∈ corpus.holders number := by
        rw [hholder]
        exact List.mem_singleton_self holder
      obtain ⟨collider, hcollider, -⟩ := mem_holders.mp hin
      rw [hcollider] at h
      simp only at h
      rcases classifyCollider_spec hcollider h with ⟨reason, rfl⟩ | ⟨rfl, hunpublished, hbytes⟩ | ⟨rfl, hmovable⟩
      · exact .quarantine _ _
      · exact .canonicalize hname hfree hnumber hholder hirregular hunpublished hbytes
      · exact .renumber hname hfree hnumber hshort hholder hirregular hmovable
  · cases h
    exact .quarantine _ _

/-- Every verdict is given for its own grounds. -/
theorem classifyDecision_spec
    (h : classifyDecision tables yaml store corpus state manifest row = .ok verdict) :
    Judged tables yaml store corpus state manifest row verdict := by
  unfold classifyDecision at h
  split at h
  · cases h
    exact .quarantine _ _
  next name hname =>
  split at h
  · exact classifySamePath_spec hname h
  next hlisted =>
  split at h
  · cases h
    exact .quarantine _ _
  next hvariant =>
  exact classifyNumber_spec hname ⟨Bool.eq_false_iff.mpr hlisted, hvariant⟩ h

/-- A free name whose number nobody holds is installed. -/
theorem classifyDecision_install (hname : canonicalName? tables row.rel = some name)
    (hfree : corpus.IsFree tables name) {number : Nat}
    (hnumber : extractDecisionNumber tables.toUnicodeTables name = some number)
    (hshort : refusesDigits tables.toUnicodeTables name = false)
    (hirregular : corpus.irregularHolders number = []) (hholders : corpus.holders number = []) :
    classifyDecision tables yaml store corpus state manifest row = .ok .install := by
  unfold classifyDecision
  rw [hname]
  simp only [hfree.1, hfree.2, Bool.false_eq_true, if_false]
  unfold classifyNumber
  rw [hnumber, hshort]
  simp only [hirregular, hholders, Bool.false_eq_true, if_false]

end Sync
end Nauro
