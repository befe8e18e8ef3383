import Nauro.Core.JudgmentCommit

/-!
# The claim contract of a judgment commit

A prepared commit asks the store about its titles and its content: one probe for each claim. The
store answers with observations, which come as models or as mappings that are still to be read.
-/

namespace Nauro
namespace Core

open Foundation

variable {E : Type}

/-! ## Claims -/

/-- `_validate_normalized_title`. -/
abbrev NormalizedTitle (tables : UnicodeTables) :=
  { title : Text // title ≠ [] ∧ normalizeTitle tables title = title }

/-- `validate_sha256`. -/
def isSha256 (value : Text) : Bool :=
  value.length == 64 && value.all fun c => "0123456789abcdef".toList.contains c

abbrev Sha256 := { digest : Text // isSha256 digest = true }

/-- `Field(gt=0)`. -/
abbrev DecisionNumber := { number : Nat // 0 < number }

inductive ClaimProbe (tables : UnicodeTables) where
  | absentTitle (title : NormalizedTitle tables)
  | ownedTitle (title : NormalizedTitle tables) (expectedOwner : DecisionNumber)
  | absentContent (contentHash : Sha256)
deriving DecidableEq

inductive UnavailableReason where
  | reserved
  | recoveryRequired
deriving DecidableEq

def UnavailableReason.value : UnavailableReason → Text
  | .reserved => "reserved".toList
  | .recoveryRequired => "recovery_required".toList

inductive ClaimObservation (tables : UnicodeTables) where
  | absentTitle (title : NormalizedTitle tables)
  | committedTitle (title : NormalizedTitle tables) (owner : DecisionNumber)
  | unavailableTitle (title : NormalizedTitle tables) (reason : UnavailableReason)
  | absentContent (contentHash : Sha256)
  | committedContent (contentHash : Sha256)
  | unavailableContent (contentHash : Sha256) (reason : UnavailableReason)
deriving DecidableEq

/-- The pair that a claim is found by. -/
inductive ClaimKey where
  | content (contentHash : Text)
  | title (normalizedTitle : Text)
deriving DecidableEq

/-- Pairs compare by their kind first; `"content"` comes before `"title"`. -/
def ClaimKey.rank : ClaimKey → List Nat
  | .content contentHash => 0 :: contentHash.map Char.toNat
  | .title normalizedTitle => 1 :: normalizedTitle.map Char.toNat

/-- `probe_key`. -/
def probeKey {tables : UnicodeTables} : ClaimProbe tables → ClaimKey
  | .absentContent contentHash => .content contentHash
  | .absentTitle title => .title title
  | .ownedTitle title _ => .title title

/-- `observation_key`. -/
def observationKey {tables : UnicodeTables} : ClaimObservation tables → ClaimKey
  | .absentContent contentHash => .content contentHash
  | .committedContent contentHash => .content contentHash
  | .unavailableContent contentHash _ => .content contentHash
  | .absentTitle title => .title title
  | .committedTitle title _ => .title title
  | .unavailableTitle title _ => .title title

/-! ## The contract -/

inductive ClaimIntentKind where
  | acquireNewTitle
  | holdOwnedTitle
  | acquireTitleTransfer
  | acquireNewContentHash
  | commitTitleOwner
  | retainTitleOwner
  | releaseTitleOwner
  | transferTitleOwner
  | commitContentHash
deriving DecidableEq

def ClaimIntentKind.value : ClaimIntentKind → Text
  | .acquireNewTitle => "acquire_new_title".toList
  | .holdOwnedTitle => "hold_owned_title".toList
  | .acquireTitleTransfer => "acquire_title_transfer".toList
  | .acquireNewContentHash => "acquire_new_content_hash".toList
  | .commitTitleOwner => "commit_title_owner".toList
  | .retainTitleOwner => "retain_title_owner".toList
  | .releaseTitleOwner => "release_title_owner".toList
  | .transferTitleOwner => "transfer_title_owner".toList
  | .commitContentHash => "commit_content_hash".toList

structure ClaimIntent where
  kind : ClaimIntentKind
  normalizedTitle : Option Text
  contentHash : Option Text
  ownerDecisionNumber : Option DecisionNumber
  fromOwnerDecisionNumber : Option DecisionNumber
  toOwnerDecisionNumber : Option DecisionNumber
deriving DecidableEq

structure ClaimIntents where
  entry : List ClaimIntent
  publication : List ClaimIntent
deriving DecidableEq

def normalizedTitle? (tables : UnicodeTables) (title : Text) : Option (NormalizedTitle tables) :=
  if h : title ≠ [] ∧ normalizeTitle tables title = title then some ⟨title, h⟩ else none

def sha256? (digest : Text) : Option Sha256 :=
  if h : isSha256 digest = true then some ⟨digest, h⟩ else none

def decisionNumber? (number : Nat) : Option DecisionNumber :=
  if h : 0 < number then some ⟨number, h⟩ else none

/-- An intent about the owner of a title. -/
def ownerIntent (kind : ClaimIntentKind) (title : Text) (owner : DecisionNumber) : ClaimIntent :=
  ⟨kind, some title, none, some owner, none, none⟩

/-- An intent about a title that changes its owner. -/
def transferIntent (kind : ClaimIntentKind) (title : Text) (old new : DecisionNumber) :
    ClaimIntent :=
  ⟨kind, some title, none, none, some old, some new⟩

def contentIntent (kind : ClaimIntentKind) (contentHash : Text) : ClaimIntent :=
  ⟨kind, none, some contentHash, none, none, none⟩

/-- `build_claim_contract`; `none` when a value is refused or a target is missing. -/
def buildClaimContract (rt : Runtime E) (operation : Operation) (target : Option (Decision E))
    (primary : Decision E) : Option (List (ClaimProbe rt.tables) × ClaimIntents) := do
  let newTitle := normalizeTitle rt.tables primary.title
  let contentHash := computeHash rt primary.title primary.rationale
  let contentProbe ← (sha256? contentHash).map ClaimProbe.absentContent
  let acquireContent := contentIntent .acquireNewContentHash contentHash
  let commitContent := contentIntent .commitContentHash contentHash
  match operation, target with
  | .add, _ =>
      let title ← normalizedTitle? rt.tables newTitle
      let newNumber ← decisionNumber? primary.num
      return ([.absentTitle title, contentProbe],
        { entry := [ownerIntent .acquireNewTitle newTitle newNumber, acquireContent]
          publication := [ownerIntent .commitTitleOwner newTitle newNumber, commitContent] })
  | .update, some old =>
      let oldTitle := normalizeTitle rt.tables old.title
      let title ← normalizedTitle? rt.tables oldTitle
      let oldNumber ← decisionNumber? old.num
      return ([.ownedTitle title oldNumber, contentProbe],
        { entry := [ownerIntent .holdOwnedTitle oldTitle oldNumber, acquireContent]
          publication := [ownerIntent .retainTitleOwner oldTitle oldNumber, commitContent] })
  | .supersede, some old =>
      let oldTitle := normalizeTitle rt.tables old.title
      let title ← normalizedTitle? rt.tables oldTitle
      let oldNumber ← decisionNumber? old.num
      let newNumber ← decisionNumber? primary.num
      if newTitle = oldTitle then
        return ([.ownedTitle title oldNumber, contentProbe],
          { entry := [transferIntent .acquireTitleTransfer oldTitle oldNumber newNumber,
              acquireContent]
            publication := [transferIntent .transferTitleOwner oldTitle oldNumber newNumber,
              commitContent] })
      else
        let created ← normalizedTitle? rt.tables newTitle
        return ([.ownedTitle title oldNumber, .absentTitle created, contentProbe],
          { entry := [ownerIntent .holdOwnedTitle oldTitle oldNumber,
              ownerIntent .acquireNewTitle newTitle newNumber, acquireContent]
            publication := [ownerIntent .releaseTitleOwner oldTitle oldNumber,
              ownerIntent .commitTitleOwner newTitle newNumber, commitContent] })
  | _, none => none

/-! ## Reading an observation -/

/-- A value of a mapping that an observation is read from. -/
inductive RawField where
  | str (text : Text)
  | int (n : Int)
  /-- Anything else, a `bool` among them. -/
  | other
deriving DecidableEq

inductive RawObservation (tables : UnicodeTables) where
  | model (observation : ClaimObservation tables)
  | mapping (fields : Table Text RawField)

def titleField (tables : UnicodeTables) (fields : Table Text RawField) :
    Option (NormalizedTitle tables) :=
  match fields.get? "normalized_title".toList with
  | some (.str title) => normalizedTitle? tables title
  | _ => none

def hashField (fields : Table Text RawField) : Option Sha256 :=
  match fields.get? "content_hash".toList with
  | some (.str digest) => sha256? digest
  | _ => none

def ownerField (fields : Table Text RawField) : Option DecisionNumber :=
  match fields.get? "owner_decision_number".toList with
  | some (.int n) => decisionNumber? n.toNat
  | _ => none

def reasonField (fields : Table Text RawField) : Option UnavailableReason :=
  match fields.get? "reason".toList with
  | some (.str reason) =>
      if reason = UnavailableReason.reserved.value then some .reserved
      else if reason = UnavailableReason.recoveryRequired.value then some .recoveryRequired
      else none
  | _ => none

/-- `extra="forbid"`. -/
def onlyFields (fields : Table Text RawField) (names : List String) : Bool :=
  fields.keys.all fun name => ("kind" :: names).any fun known => name == known.toList

/-- The model of one kind, from its fields. -/
def observationOfKind? (tables : UnicodeTables) (fields : Table Text RawField) (kind : Text) :
    Option (ClaimObservation tables) :=
  if kind = "absent_title".toList ∧ onlyFields fields ["normalized_title"] = true then
    (titleField tables fields).map .absentTitle
  else if kind = "committed_title".toList ∧
      onlyFields fields ["normalized_title", "owner_decision_number"] = true then do
    return .committedTitle (← titleField tables fields) (← ownerField fields)
  else if kind = "unavailable_title".toList ∧
      onlyFields fields ["normalized_title", "reason"] = true then do
    return .unavailableTitle (← titleField tables fields) (← reasonField fields)
  else if kind = "absent_content".toList ∧ onlyFields fields ["content_hash"] = true then
    (hashField fields).map .absentContent
  else if kind = "committed_content".toList ∧ onlyFields fields ["content_hash"] = true then
    (hashField fields).map .committedContent
  else if kind = "unavailable_content".toList ∧
      onlyFields fields ["content_hash", "reason"] = true then do
    return .unavailableContent (← hashField fields) (← reasonField fields)
  else none

/-- `OBSERVATION_ADAPTER.validate_python`; `none` when the observation is malformed. -/
def RawObservation.parse {tables : UnicodeTables} :
    RawObservation tables → Option (ClaimObservation tables)
  | .model observation => some observation
  | .mapping fields =>
      match fields.get? "kind".toList with
      | some (.str kind) => observationOfKind? tables fields kind
      | _ => none

/-! ## Checking an observation -/

/-- How a finalization is refused. -/
inductive FinalizeError where
  | malformed
  | duplicate (key : ClaimKey)
  | unexpected (keys : List ClaimKey)
  | missing (keys : List ClaimKey)
  | unavailable (key : ClaimKey) (reason : UnavailableReason)
  | titleConflict (owner : Nat)
  | contentConflict
  /-- The owned title has another owner, or none. -/
  | mismatchedOwner
  /-- The observation is of another kind than its probe. -/
  | mismatched
  /-- The plan does not verify, or its record cannot be encoded. -/
  | raised
deriving DecidableEq

/-- `validate_observation`. -/
def validateObservation {tables : UnicodeTables} (probe : ClaimProbe tables)
    (observation : ClaimObservation tables) : Except FinalizeError Unit :=
  match observation with
  | .unavailableTitle _ reason => .error (.unavailable (observationKey observation) reason)
  | .unavailableContent _ reason => .error (.unavailable (observationKey observation) reason)
  | observation =>
      match probe, observation with
      | .absentTitle _, .absentTitle _ => .ok ()
      | .absentTitle _, .committedTitle _ owner => .error (.titleConflict owner)
      | .ownedTitle _ expected, .committedTitle _ owner =>
          if owner = expected then .ok () else .error .mismatchedOwner
      | .ownedTitle _ _, _ => .error .mismatchedOwner
      | .absentContent _, .absentContent _ => .ok ()
      | .absentContent _, .committedContent _ => .error .contentConflict
      | _, _ => .error .mismatched

/-- An observation answers a probe: the title is free, or owned as expected, or the content new. -/
inductive Compatible {tables : UnicodeTables} :
    ClaimProbe tables → ClaimObservation tables → Prop where
  | absentTitle (title : NormalizedTitle tables) :
      Compatible (.absentTitle title) (.absentTitle title)
  | ownedTitle (title : NormalizedTitle tables) (owner : DecisionNumber) :
      Compatible (.ownedTitle title owner) (.committedTitle title owner)
  | absentContent (contentHash : Sha256) :
      Compatible (.absentContent contentHash) (.absentContent contentHash)

section

variable {tables : UnicodeTables} {probe : ClaimProbe tables}
  {observation : ClaimObservation tables}

/-- What answers a probe has its key and passes the check, and nothing else does. -/
theorem compatible_iff : Compatible probe observation ↔
    observationKey observation = probeKey probe ∧ validateObservation probe observation = .ok () := by
  constructor
  · intro h
    cases h with
    | absentTitle title => exact ⟨rfl, rfl⟩
    | ownedTitle title owner => exact ⟨rfl, if_pos rfl⟩
    | absentContent contentHash => exact ⟨rfl, rfl⟩
  · rintro ⟨hkey, hvalid⟩
    cases probe with
    | absentTitle title =>
        cases observation with
        | absentTitle other =>
            obtain rfl : other = title := Subtype.ext (ClaimKey.title.inj hkey)
            exact .absentTitle other
        | _ => cases hvalid
    | ownedTitle title expected =>
        cases observation with
        | committedTitle other owner =>
            obtain rfl : other = title := Subtype.ext (ClaimKey.title.inj hkey)
            have hcases : (if owner = expected then Except.ok () else .error .mismatchedOwner) =
                (.ok () : Except FinalizeError Unit) := hvalid
            split_ifs at hcases with howner
            exact howner ▸ .ownedTitle other owner
        | _ => cases hvalid
    | absentContent contentHash =>
        cases observation with
        | absentContent other =>
            obtain rfl : other = contentHash := Subtype.ext (ClaimKey.content.inj hkey)
            exact .absentContent other
        | _ => cases hvalid

end

/-! ## The keys of a contract -/

theorem normalizedTitle?_val {tables : UnicodeTables} {text : Text} {title : NormalizedTitle tables}
    (h : normalizedTitle? tables text = some title) : title.1 = text := by
  unfold normalizedTitle? at h
  split_ifs at h
  cases h
  rfl

/-- No two probes of a contract share a key. -/
theorem buildClaimContract_keys {rt : Runtime E} {operation : Operation}
    {target : Option (Decision E)} {primary : Decision E} {probes : List (ClaimProbe rt.tables)}
    {intents : ClaimIntents}
    (h : buildClaimContract rt operation target primary = some (probes, intents)) :
    (probes.map probeKey).Nodup := by
  -- a title and a content never share a key
  have htwo : ∀ {probe : ClaimProbe rt.tables} {title : NormalizedTitle rt.tables} {digest : Sha256},
      probeKey probe = .title title →
        ([probe, .absentContent digest].map probeKey).Nodup := by
    intro probe title digest hkey
    have hdigest : probeKey (.absentContent digest : ClaimProbe rt.tables) = .content digest := rfl
    simp [hkey, hdigest]
  unfold buildClaimContract at h
  simp only [Option.bind_eq_bind, Option.bind_eq_some_iff, Option.map_eq_some_iff] at h
  obtain ⟨_, ⟨digest, -, rfl⟩, h⟩ := h
  match operation, target with
  | .add, _ =>
      obtain ⟨title, -, h⟩ := Option.bind_eq_some_iff.mp h
      obtain ⟨newNumber, -, hreturn⟩ := Option.bind_eq_some_iff.mp h
      cases hreturn
      exact htwo rfl
  | .update, some old =>
      obtain ⟨title, -, h⟩ := Option.bind_eq_some_iff.mp h
      obtain ⟨oldNumber, -, hreturn⟩ := Option.bind_eq_some_iff.mp h
      cases hreturn
      exact htwo rfl
  | .supersede, some old =>
      obtain ⟨title, htitle, h⟩ := Option.bind_eq_some_iff.mp h
      obtain ⟨oldNumber, -, h⟩ := Option.bind_eq_some_iff.mp h
      obtain ⟨newNumber, -, h⟩ := Option.bind_eq_some_iff.mp h
      split_ifs at h with hsame
      · cases h
        exact htwo rfl
      · obtain ⟨created, hcreated, hreturn⟩ := Option.bind_eq_some_iff.mp h
        cases hreturn
        have hne : title.1 ≠ created.1 := by
          rw [normalizedTitle?_val htitle, normalizedTitle?_val hcreated]
          exact fun heq => hsame heq.symm
        simp [probeKey, hne]
  | .update, none => cases h
  | .supersede, none => cases h

/-! ## The contract by cases -/

/-- What each operation asks and publishes, of the decisions it is built from. -/
inductive Contract (rt : Runtime E) (primary : Decision E) :
    Operation → Option (Decision E) → List (ClaimProbe rt.tables) → List ClaimIntent → Prop where
  | add {target : Option (Decision E)} {title : NormalizedTitle rt.tables} {number : DecisionNumber}
      {hash : Sha256} (htitle : title.1 = normalizeTitle rt.tables primary.title)
      (hnumber : number.1 = primary.num)
      (hhash : hash.1 = computeHash rt primary.title primary.rationale) :
      Contract rt primary .add target [.absentTitle title, .absentContent hash]
        [ownerIntent .commitTitleOwner title number, contentIntent .commitContentHash hash]
  | update {old : Decision E} {title : NormalizedTitle rt.tables} {number : DecisionNumber}
      {hash : Sha256} (htitle : title.1 = normalizeTitle rt.tables old.title)
      (hnumber : number.1 = old.num)
      (hhash : hash.1 = computeHash rt primary.title primary.rationale) :
      Contract rt primary .update (some old) [.ownedTitle title number, .absentContent hash]
        [ownerIntent .retainTitleOwner title number, contentIntent .commitContentHash hash]
  | transfer {old : Decision E} {title : NormalizedTitle rt.tables}
      {oldNumber number : DecisionNumber} {hash : Sha256}
      (hold : title.1 = normalizeTitle rt.tables old.title) (holdNumber : oldNumber.1 = old.num)
      (htitle : title.1 = normalizeTitle rt.tables primary.title) (hnumber : number.1 = primary.num)
      (hhash : hash.1 = computeHash rt primary.title primary.rationale) :
      Contract rt primary .supersede (some old) [.ownedTitle title oldNumber, .absentContent hash]
        [transferIntent .transferTitleOwner title oldNumber number,
          contentIntent .commitContentHash hash]
  | release {old : Decision E} {oldTitle title : NormalizedTitle rt.tables}
      {oldNumber number : DecisionNumber} {hash : Sha256}
      (hold : oldTitle.1 = normalizeTitle rt.tables old.title) (holdNumber : oldNumber.1 = old.num)
      (htitle : title.1 = normalizeTitle rt.tables primary.title) (hnumber : number.1 = primary.num)
      (hhash : hash.1 = computeHash rt primary.title primary.rationale) (hne : title ≠ oldTitle) :
      Contract rt primary .supersede (some old)
        [.ownedTitle oldTitle oldNumber, .absentTitle title, .absentContent hash]
        [ownerIntent .releaseTitleOwner oldTitle oldNumber, ownerIntent .commitTitleOwner title number,
          contentIntent .commitContentHash hash]

theorem decisionNumber?_val {number : Nat} {found : DecisionNumber}
    (h : decisionNumber? number = some found) : found.1 = number := by
  unfold decisionNumber? at h
  split_ifs at h
  cases h
  rfl

theorem sha256?_val {digest : Text} {hash : Sha256} (h : sha256? digest = some hash) :
    hash.1 = digest := by
  unfold sha256? at h
  split_ifs at h
  cases h
  rfl

/-- A contract that is built is the one of its operation. -/
theorem buildClaimContract_contract {rt : Runtime E} {operation : Operation}
    {target : Option (Decision E)} {primary : Decision E} {probes : List (ClaimProbe rt.tables)}
    {intents : ClaimIntents}
    (h : buildClaimContract rt operation target primary = some (probes, intents)) :
    Contract rt primary operation target probes intents.publication := by
  unfold buildClaimContract at h
  simp only [Option.bind_eq_bind, Option.bind_eq_some_iff, Option.map_eq_some_iff] at h
  obtain ⟨_, ⟨hash, hhash, rfl⟩, h⟩ := h
  have hhash := sha256?_val hhash
  rw [← hhash] at h
  match operation, target with
  | .add, target =>
      obtain ⟨title, htitle, h⟩ := Option.bind_eq_some_iff.mp h
      obtain ⟨number, hnumber, hreturn⟩ := Option.bind_eq_some_iff.mp h
      have htitle := normalizedTitle?_val htitle
      rw [← htitle] at hreturn
      cases hreturn
      exact .add htitle (decisionNumber?_val hnumber) hhash
  | .update, some old =>
      obtain ⟨title, htitle, h⟩ := Option.bind_eq_some_iff.mp h
      obtain ⟨number, hnumber, hreturn⟩ := Option.bind_eq_some_iff.mp h
      have htitle := normalizedTitle?_val htitle
      rw [← htitle] at hreturn
      cases hreturn
      exact .update htitle (decisionNumber?_val hnumber) hhash
  | .supersede, some old =>
      obtain ⟨oldTitle, hold, h⟩ := Option.bind_eq_some_iff.mp h
      obtain ⟨oldNumber, holdNumber, h⟩ := Option.bind_eq_some_iff.mp h
      obtain ⟨number, hnumber, h⟩ := Option.bind_eq_some_iff.mp h
      have hold := normalizedTitle?_val hold
      split_ifs at h with hsame
      · rw [← hold] at h
        cases h
        exact .transfer hold (decisionNumber?_val holdNumber) (hold.trans hsame.symm)
          (decisionNumber?_val hnumber) hhash
      · obtain ⟨title, htitle, hreturn⟩ := Option.bind_eq_some_iff.mp h
        have htitle := normalizedTitle?_val htitle
        have hne : title ≠ oldTitle := by
          rintro rfl
          exact hsame (htitle.symm.trans hold)
        rw [← hold, ← htitle] at hreturn
        cases hreturn
        exact .release hold (decisionNumber?_val holdNumber) htitle (decisionNumber?_val hnumber)
          hhash hne
  | .update, none => cases h
  | .supersede, none => cases h

end Core
end Nauro
