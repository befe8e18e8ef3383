import Nauro.Client.GenerationRefresh
import Nauro.Client.Projection

/-!
# Acquiring a projection

A client fetches the manifest of the committed generation, reuses the artifacts of a projection
it has verified before where their digests are those of the manifest, and downloads the rest.

* `delta_equals_full` — the projection that is reused makes no difference.
-/

namespace Nauro
namespace Client

open Foundation Nauro.Core Nauro.Sync

/-! ## The acquisition -/

def presignBatchLimit : Nat := 200
def maxArtifactBytes : Nat := 4 * 1024 * 1024
def maxProjectionBytes : Nat := 64 * 1024 * 1024

inductive AcquisitionError where
  | generation (error : GenerationError)
  | otherAccount
  | superseded
  | viewChanged
  | presignMismatch
  | insecureUrl
  | reusableTooLarge
  | artifactTooLarge (path : Text)
  | projectionTooLarge
  /-- A fault of the transfer, retries included. -/
  | boundary
deriving DecidableEq

/-- A refusal of one of the size caps. -/
def AcquisitionError.isSizeCap : AcquisitionError → Bool
  | .reusableTooLarge | .artifactTooLarge _ | .projectionTooLarge => true
  | _ => false

structure DownloadResponse where
  contentLength : Option Nat
  body : Bytes

/-- The hosted project as a client sees it: the projection it is issued with its manifest, the
signed URLs of a page of paths, and the answers to downloads. -/
structure ProjectionServer where
  projection : Except AcquisitionError (ProjectionIdentity × Bytes)
  presign : List Text → Except AcquisitionError (ProjectionIdentity × List (Text × Text))
  get : Text → Except AcquisitionError DownloadResponse

variable (rules : ProjectionRules) (server : ProjectionServer)

/-- `GenerationProjectionTarget(binding, identity)`. -/
def projectionTarget (binding : ResolvedProjectBinding) (identity : ProjectionIdentity) :
    Except AcquisitionError GenerationProjectionTarget :=
  if h : binding.mode = .cloudMode ∧ identity.projectId = binding.projectId ∧
      identity.storeFormatVersion = hostedStoreFormatVersion then
    .ok ⟨binding, identity, h.1, h.2.1, h.2.2⟩
  else if identity.projectId = binding.projectId then .error (.generation .clientUpgradeRequired)
  else .error (.generation .generationVerificationFailed)

/-- `_compare_identity`. -/
def compareIdentity (first page : ProjectionIdentity) : Except AcquisitionError Unit :=
  if page.generationId ≠ first.generationId then .error .superseded
  else if page.installedForUserId ≠ first.installedForUserId then .error .otherAccount
  else if page ≠ first then .error .viewChanged
  else .ok ()

/-- `_presign`: the URLs of a page. -/
def presignPage (identity : ProjectionIdentity) (paths : List Text) :
    Except AcquisitionError (List (Text × Text)) := do
  let (page, urls) ← server.presign paths
  compareIdentity identity page
  if ¬ (urls.map Prod.fst).Nodup ∨ !(urls.all fun entry => paths.contains entry.1) ∨
      !(paths.all fun path => (urls.map Prod.fst).contains path) then
    .error .presignMismatch
  else if !urls.all fun entry => "https://".toList.isPrefixOf entry.2 then .error .insecureUrl
  else .ok urls

/-- `_fetch_artifact`. -/
def fetchArtifact (path url : Text) : Except AcquisitionError Bytes := do
  let response ← server.get url
  if response.contentLength.any (maxArtifactBytes < ·) then .error (.artifactTooLarge path)
  else if maxArtifactBytes < response.body.length then .error (.artifactTooLarge path)
  else .ok response.body

/-- The fetches of one page in the order in which they complete; `total` counts the bytes kept. -/
def fetchBodies (urls : List (Text × Text)) :
    List Text → Nat → Except AcquisitionError (Nat × List (Text × Bytes))
  | [], total => .ok (total, [])
  | path :: rest, total =>
      match urls.lookup path with
      | none => .error .presignMismatch
      | some url => do
          let body ← fetchArtifact server path url
          if maxProjectionBytes < total + body.length then .error .projectionTooLarge
          else
            let (total, bodies) ← fetchBodies urls rest (total + body.length)
            .ok (total, (path, body) :: bodies)

/-- The pages of at most `presignBatchLimit` paths. -/
def pages : Nat → List Text → List (List Text)
  | 0, _ => []
  | _ + 1, [] => []
  | fuel + 1, paths => paths.take presignBatchLimit :: pages fuel (paths.drop presignBatchLimit)

/-- The loop over the pages. -/
def fetchPages (completion : List Text → List Text) (identity : ProjectionIdentity) :
    List (List Text) → Nat → Except AcquisitionError (List (Text × Bytes))
  | [], _ => .ok []
  | page :: rest, total => do
      let urls ← presignPage server identity page
      let (total, bodies) ← fetchBodies server urls (completion page) total
      let later ← fetchPages completion identity rest total
      .ok (bodies ++ later)

/-- `_reusable_bytes`. -/
def reusableBytes (prior : Option (VerifiedProjection rules)) (target : GenerationProjectionTarget) :
    Except AcquisitionError (List (Text × Bytes)) :=
  match prior with
  | none => .ok []
  | some prior =>
      if !Refresh.sameReplicaScope prior.target target then .ok []
      else
        match verifyProjection rules prior.target prior.manifestJson prior.artifacts with
        | .error error => .error (.generation error)
        | .ok verified => .ok verified.artifacts

/-- The reusable artifacts whose digests are those of the manifest. -/
def reusedBodies (manifest : ProjectionManifest) (reusable : List (Text × Bytes)) :
    List (Text × Bytes) :=
  reusable.filter fun artifact => manifest.digest? artifact.1 = some (rules.sha256 artifact.2)

def totalBytes (bodies : List (Text × Bytes)) : Nat :=
  (bodies.map fun artifact => artifact.2.length).sum

/-- `_acquire_once` from the manifest on. -/
def acquireTarget (completion : List Text → List Text) (target : GenerationProjectionTarget)
    (envelope : Bytes) (prior : Option (VerifiedProjection rules)) :
    Except AcquisitionError (VerifiedProjection rules) := do
  let manifest ← (parseManifest rules target envelope).mapError .generation
  let reusable ← reusableBytes rules prior target
  let bodies := reusedBodies rules manifest reusable
  let paths := manifest.paths.filter fun path => !(bodies.map Prod.fst).contains path
  if maxProjectionBytes < totalBytes bodies ∨
      bodies.any fun artifact => maxArtifactBytes < artifact.2.length then
    .error .reusableTooLarge
  else
    let fetched ← fetchPages server completion target.identity (pages paths.length paths)
      (totalBytes bodies)
    (verifyProjection rules target envelope (bodies ++ fetched)).mapError .generation

/-- `_acquire_once`; a projection that was observed before stands in for the first request. -/
def acquireOnce (completion : List Text → List Text) (binding : ResolvedProjectBinding)
    (user : Ulid) (prior : Option (VerifiedProjection rules))
    (observed : Option (GenerationProjectionTarget × Bytes)) :
    Except AcquisitionError (VerifiedProjection rules) := do
  let (target, envelope) ←
    match observed with
    | some observed => .ok observed
    | none => do
        let (identity, envelope) ← server.projection
        let target ← projectionTarget binding identity
        .ok (target, envelope)
  if target.binding ≠ binding then .error (.generation .generationVerificationFailed)
  else if target.user ≠ user then .error .otherAccount
  else acquireTarget rules server completion target envelope prior

/-! ## A server without faults -/

/-- A server that issues a verified projection, signs a URL for each path it is asked for, and
serves each artifact under its URL. -/
structure FaultFree {rules : ProjectionRules} (server : ProjectionServer)
    (held : VerifiedProjection rules) : Prop where
  projection : server.projection = .ok (held.target.identity, held.manifestJson)
  pages : ∀ paths : List Text, paths ≠ [] → paths.length ≤ presignBatchLimit → paths.Nodup →
    paths ⊆ held.manifest.paths →
    ∃ urls, server.presign paths = .ok (held.target.identity, urls) ∧
      (urls.map Prod.fst).Perm paths ∧ ∀ entry ∈ urls, "https://".toList <+: entry.2 ∧
        ∀ body, (entry.1, body) ∈ held.artifacts → ∃ response, server.get entry.2 = .ok response ∧
          response.body = body ∧ ∀ n, response.contentLength = some n → n = body.length

/-- The bodies are below the caps, with `total` bytes kept before. -/
def Fits (total : Nat) (bodies : List (Text × Bytes)) : Prop :=
  (∀ artifact ∈ bodies, artifact.2.length ≤ maxArtifactBytes) ∧
    total + totalBytes bodies ≤ maxProjectionBytes

/-- A call gives its value when a condition holds, and is refused by a size cap otherwise. -/
def CappedBy {α : Type} (fits : Prop) (result : Except AcquisitionError α) (value : α) : Prop :=
  (fits → result = .ok value) ∧
    (¬ fits → ∃ error : AcquisitionError, error.isSizeCap = true ∧ result = .error error)

variable {rules server} {held : VerifiedProjection rules}

/-- The artifact of a path. -/
def bodyOf (held : VerifiedProjection rules) (path : Text) : Bytes :=
  (held.artifacts.lookup path).getD []

def bodiesOf (held : VerifiedProjection rules) (paths : List Text) : List (Text × Bytes) :=
  paths.map fun path => (path, bodyOf held path)

theorem artifacts_paths (held : VerifiedProjection rules) :
    held.artifacts.map Prod.fst = held.manifest.paths := by
  rw [ProjectionManifest.paths, ← held.listed, List.map_map]
  rfl

theorem artifacts_distinct (held : VerifiedProjection rules) :
    (held.artifacts.map Prod.fst).Nodup := by
  rw [artifacts_paths]
  exact held.manifest.paths_nodup

theorem bodyOf_of_mem {artifact : Text × Bytes} (h : artifact ∈ held.artifacts) :
    bodyOf held artifact.1 = artifact.2 := by
  rw [bodyOf, lookup_of_mem (artifacts_distinct held) h, Option.getD_some]

theorem bodyOf_mem {path : Text} (h : path ∈ held.manifest.paths) :
    (path, bodyOf held path) ∈ held.artifacts := by
  rw [← artifacts_paths] at h
  obtain ⟨artifact, hin, rfl⟩ := List.mem_map.mp h
  rwa [bodyOf_of_mem hin]

theorem bodiesOf_cons (path : Text) (paths : List Text) :
    bodiesOf held (path :: paths) = (path, bodyOf held path) :: bodiesOf held paths := rfl

theorem bodiesOf_append (paths more : List Text) :
    bodiesOf held (paths ++ more) = bodiesOf held paths ++ bodiesOf held more :=
  List.map_append

theorem totalBytes_cons (artifact : Text × Bytes) (bodies : List (Text × Bytes)) :
    totalBytes (artifact :: bodies) = artifact.2.length + totalBytes bodies :=
  List.sum_cons

theorem totalBytes_append (bodies more : List (Text × Bytes)) :
    totalBytes (bodies ++ more) = totalBytes bodies + totalBytes more := by
  rw [totalBytes, List.map_append, List.sum_append]
  rfl

theorem totalBytes_perm {bodies more : List (Text × Bytes)} (h : bodies.Perm more) :
    totalBytes bodies = totalBytes more :=
  (h.map _).sum_nat

theorem fits_perm {total : Nat} {bodies more : List (Text × Bytes)} (h : bodies.Perm more) :
    Fits total bodies ↔ Fits total more := by
  rw [Fits, Fits, totalBytes_perm h]
  refine and_congr_left fun _ => forall_congr' fun artifact => ?_
  rw [h.mem_iff]

/-- Bodies fit in two parts exactly when the first part fits, and the second one behind it. -/
theorem fits_append {total : Nat} {bodies more : List (Text × Bytes)} :
    Fits total (bodies ++ more) ↔ Fits total bodies ∧ Fits (total + totalBytes bodies) more := by
  rw [Fits, Fits, Fits, totalBytes_append, List.forall_mem_append]
  constructor
  · rintro ⟨⟨hfirst, hsecond⟩, htotal⟩
    exact ⟨⟨hfirst, by omega⟩, hsecond, by omega⟩
  · rintro ⟨⟨hfirst, -⟩, hsecond, htotal⟩
    exact ⟨⟨hfirst, hsecond⟩, by omega⟩

/-- The page's URLs lead to the artifacts of the paths. -/
def ServesPaths (server : ProjectionServer) (held : VerifiedProjection rules)
    (urls : List (Text × Text)) (paths : List Text) : Prop :=
  ∀ path ∈ paths, ∃ url response, urls.lookup path = some url ∧ server.get url = .ok response ∧
    response.body = bodyOf held path ∧
    ∀ n, response.contentLength = some n → n = (bodyOf held path).length

/-- One fetch is refused for its size alone. -/
theorem fetchArtifact_spec {path url : Text} {response : DownloadResponse} {body : Bytes}
    (hget : server.get url = .ok response) (hbody : response.body = body)
    (hlength : ∀ n, response.contentLength = some n → n = body.length) :
    CappedBy (body.length ≤ maxArtifactBytes) (fetchArtifact server path url) body := by
  have hdeclared : response.contentLength.any (maxArtifactBytes < ·) = true →
      maxArtifactBytes < body.length := by
    intro h
    obtain ⟨n, hn, hlarge⟩ := (Option.any_eq_true ..).mp h
    rw [hlength n hn] at hlarge
    exact of_decide_eq_true hlarge
  rw [fetchArtifact, hget]
  simp only [bind, Except.bind, hbody]
  constructor
  · intro hfits
    rw [if_neg (fun h => absurd (hdeclared h) (Nat.not_lt.mpr hfits)),
      if_neg (Nat.not_lt.mpr hfits)]
  · intro hlarge
    refine ⟨.artifactTooLarge path, rfl, ?_⟩
    rw [if_pos (Nat.lt_of_not_le hlarge)]
    exact ite_self _

theorem fetchBodies_spec {urls : List (Text × Text)} {paths : List Text} {total : Nat}
    (hserves : ServesPaths server held urls paths) (hroom : total ≤ maxProjectionBytes) :
    CappedBy (Fits total (bodiesOf held paths)) (fetchBodies server urls paths total)
      (total + totalBytes (bodiesOf held paths), bodiesOf held paths) := by
  induction paths generalizing total with
  | nil =>
      refine ⟨fun _ => rfl, fun hnot => absurd ?_ hnot⟩
      exact ⟨fun artifact hin => absurd hin List.not_mem_nil, hroom⟩
  | cons path paths ih =>
      obtain ⟨url, response, hurl, hget, hbody, hlength⟩ := hserves path List.mem_cons_self
      obtain ⟨hfetched, hoversize⟩ : CappedBy _ (fetchArtifact server path url) _ :=
        fetchArtifact_spec hget hbody hlength
      have hrest : ServesPaths server held urls paths := fun p hp =>
        hserves p (List.mem_cons_of_mem _ hp)
      have hsplit : Fits total (bodiesOf held (path :: paths)) ↔
          ((bodyOf held path).length ≤ maxArtifactBytes ∧
            total + (bodyOf held path).length ≤ maxProjectionBytes) ∧
          Fits (total + (bodyOf held path).length) (bodiesOf held paths) := by
        have hone : Fits total [(path, bodyOf held path)] ↔
            (bodyOf held path).length ≤ maxArtifactBytes ∧
              total + (bodyOf held path).length ≤ maxProjectionBytes := by
          rw [Fits, List.forall_mem_singleton]
          rfl
        have hlength : totalBytes [(path, bodyOf held path)] = (bodyOf held path).length := rfl
        rw [← hone, bodiesOf_cons, ← List.singleton_append, fits_append, hlength]
      rw [fetchBodies, hurl]
      simp only [bind, Except.bind]
      rw [CappedBy, hsplit]
      constructor
      · rintro ⟨⟨hsmall, hnext⟩, hlater⟩
        rw [hfetched hsmall]
        simp only [if_neg (Nat.not_lt.mpr hnext), (ih hrest hnext).1 hlater]
        rw [bodiesOf_cons, totalBytes_cons, Nat.add_assoc]
      · intro hnot
        by_cases hsmall : (bodyOf held path).length ≤ maxArtifactBytes
        · rw [hfetched hsmall]
          by_cases hnext : total + (bodyOf held path).length ≤ maxProjectionBytes
          · obtain ⟨error, hcap, herror⟩ := (ih hrest hnext).2 fun hlater =>
              hnot ⟨⟨hsmall, hnext⟩, hlater⟩
            refine ⟨error, hcap, ?_⟩
            simp only [if_neg (Nat.not_lt.mpr hnext), herror]
          · refine ⟨.projectionTooLarge, rfl, ?_⟩
            simp only [if_pos (Nat.lt_of_not_le hnext)]
        · obtain ⟨error, hcap, herror⟩ := hoversize hsmall
          refine ⟨error, hcap, ?_⟩
          rw [herror]

/-! ## Pages -/

theorem flatten_pages {fuel : Nat} {paths : List Text} (h : paths.length ≤ fuel) :
    (pages fuel paths).flatten = paths := by
  induction fuel generalizing paths with
  | zero =>
      rw [List.eq_nil_of_length_eq_zero (Nat.le_zero.mp h)]
      rfl
  | succ fuel ih =>
      cases paths with
      | nil => rfl
      | cons path paths =>
          have hshort : ((path :: paths).drop presignBatchLimit).length ≤ fuel := by
            have hlimit : 0 < presignBatchLimit := by decide
            rw [List.length_drop]
            omega
          rw [pages, List.flatten_cons, ih hshort, List.take_append_drop]
          exact fun hnil => by cases hnil

theorem mem_pages {fuel : Nat} {paths page : List Text} (h : page ∈ pages fuel paths) :
    page ≠ [] ∧ page.length ≤ presignBatchLimit ∧ page.Sublist paths := by
  induction fuel generalizing paths with
  | zero => exact absurd h List.not_mem_nil
  | succ fuel ih =>
      cases paths with
      | nil => exact absurd h List.not_mem_nil
      | cons path paths =>
          rcases List.mem_cons.mp h with rfl | h
          · refine ⟨fun hnil => ?_, ?_, List.take_sublist _ _⟩
            · cases hnil
            · rw [List.length_take]
              exact Nat.min_le_left _ _
          · obtain ⟨hne, hshort, hsublist⟩ := ih h
            exact ⟨hne, hshort, hsublist.trans (List.drop_sublist _ _)⟩

/-- A page of the manifest's paths is signed as it is asked for. -/
theorem presignPage_of_faultFree (h : FaultFree server held) {paths : List Text}
    (hne : paths ≠ []) (hshort : paths.length ≤ presignBatchLimit) (hdistinct : paths.Nodup)
    (hsub : paths ⊆ held.manifest.paths) :
    ∃ urls, presignPage server held.target.identity paths = .ok urls ∧
      ServesPaths server held urls paths := by
  obtain ⟨urls, hpresign, hperm, hserves⟩ := h.pages paths hne hshort hdistinct hsub
  have hurlsDistinct : (urls.map Prod.fst).Nodup := hperm.nodup_iff.mpr hdistinct
  have hknown : (urls.all fun entry => paths.contains entry.1) = true :=
    List.all_eq_true.mpr fun entry hin => List.contains_iff_mem.mpr
      (hperm.mem_iff.mp (List.mem_map_of_mem hin))
  have hcovered : (paths.all fun path => (urls.map Prod.fst).contains path) = true :=
    List.all_eq_true.mpr fun path hin => List.contains_iff_mem.mpr (hperm.mem_iff.mpr hin)
  have hsecure : (urls.all fun entry => "https://".toList.isPrefixOf entry.2) = true :=
    List.all_eq_true.mpr fun entry hin => List.isPrefixOf_iff_prefix.mpr (hserves entry hin).1
  refine ⟨urls, ?_, fun path hin => ?_⟩
  · rw [presignPage, hpresign]
    simp only [bind, Except.bind, compareIdentity, hurlsDistinct, hknown, hcovered, hsecure,
      ne_eq, not_true_eq_false, if_false, Bool.not_true, Bool.false_eq_true, or_self]
  · obtain ⟨entry, hentry, rfl⟩ := List.mem_map.mp (hperm.mem_iff.mpr hin)
    obtain ⟨response, hget, hbody, hlength⟩ :=
      (hserves entry hentry).2 _ (bodyOf_mem (hsub hin))
    exact ⟨entry.2, response, lookup_of_mem hurlsDistinct hentry, hget, hbody, hbody ▸ hlength⟩

/-- The pages are fetched, in whatever order each page's fetches complete. -/
theorem fetchPages_spec (h : FaultFree server held) {completion : List Text → List Text}
    (hcompletion : ∀ page, (completion page).Perm page) {paged : List (List Text)} {total : Nat}
    (hpages : ∀ page ∈ paged, page ≠ [] ∧ page.length ≤ presignBatchLimit ∧ page.Nodup ∧
      page ⊆ held.manifest.paths) (hroom : total ≤ maxProjectionBytes) :
    CappedBy (Fits total (bodiesOf held paged.flatten))
      (fetchPages server completion held.target.identity paged total)
      (bodiesOf held (paged.map completion).flatten) := by
  induction paged generalizing total with
  | nil =>
      refine ⟨fun _ => rfl, fun hnot => absurd ?_ hnot⟩
      exact ⟨fun artifact hin => absurd hin List.not_mem_nil, hroom⟩
  | cons page paged ih =>
      obtain ⟨hne, hshort, hdistinct, hsub⟩ := hpages page List.mem_cons_self
      obtain ⟨urls, hpresign, hserves⟩ := presignPage_of_faultFree h hne hshort hdistinct hsub
      have hserves' : ServesPaths server held urls (completion page) := fun path hin =>
        hserves path ((hcompletion page).mem_iff.mp hin)
      have hperm : (bodiesOf held (completion page)).Perm (bodiesOf held page) :=
        (hcompletion page).map _
      obtain ⟨hfetched, hcapped⟩ := fetchBodies_spec hserves' hroom
      have hsplit : Fits total (bodiesOf held (page :: paged).flatten) ↔
          Fits total (bodiesOf held (completion page)) ∧
            Fits (total + totalBytes (bodiesOf held (completion page)))
              (bodiesOf held paged.flatten) := by
        rw [fits_perm hperm, totalBytes_perm hperm, ← fits_append, List.flatten_cons,
          bodiesOf_append]
      rw [fetchPages, hpresign, CappedBy, hsplit]
      simp only [bind, Except.bind]
      constructor
      · rintro ⟨hfits, hlater⟩
        rw [hfetched hfits]
        simp only
        rw [(ih (fun p hp => hpages p (List.mem_cons_of_mem _ hp)) hfits.2).1 hlater]
        rw [List.map_cons, List.flatten_cons, bodiesOf_append]
      · intro hnot
        by_cases hfits : Fits total (bodiesOf held (completion page))
        · rw [hfetched hfits]
          simp only
          obtain ⟨error, hcap, herror⟩ :=
            (ih (fun p hp => hpages p (List.mem_cons_of_mem _ hp)) hfits.2).2 fun hlater =>
              hnot ⟨hfits, hlater⟩
          exact ⟨error, hcap, by rw [herror]⟩
        · obtain ⟨error, hcap, herror⟩ := hcapped hfits
          exact ⟨error, hcap, by rw [herror]⟩

/-! ## Reuse -/

/-- What may be reused comes from the prior projection, one body a path. -/
theorem reusableBytes_ok (prior : Option (VerifiedProjection rules))
    (target : GenerationProjectionTarget) :
    ∃ reusable, reusableBytes rules prior target = .ok reusable ∧
      (∀ artifact ∈ reusable, ∃ p, prior = some p ∧ artifact ∈ p.artifacts) ∧
      (reusable.map Prod.fst).Nodup := by
  have hnothing : ([] : List (Text × Bytes)).map Prod.fst = [] := rfl
  cases prior with
  | none => exact ⟨[], rfl, fun _ hin => absurd hin List.not_mem_nil, List.nodup_nil⟩
  | some prior =>
      rw [reusableBytes]
      by_cases hscope : Refresh.sameReplicaScope prior.target target = true
      · refine ⟨prior.artifacts, ?_, fun artifact hin => ⟨prior, rfl, hin⟩, artifacts_distinct prior⟩
        simp only [hscope, Bool.not_true, Bool.false_eq_true, if_false,
          verifyProjection_self prior (List.Perm.refl _)]
      · refine ⟨[], ?_, fun _ hin => absurd hin List.not_mem_nil, List.nodup_nil⟩
        simp only [hscope, Bool.not_false, if_true]

theorem mem_of_lookup {K V : Type} [BEq K] [LawfulBEq K] {xs : List (K × V)} {key : K} {v : V}
    (h : xs.lookup key = some v) : (key, v) ∈ xs := by
  induction xs with
  | nil => cases h
  | cons x xs ih =>
      rw [List.lookup_cons] at h
      split at h
      · next heq =>
          rw [eq_of_beq heq, ← Option.some.inj h]
          exact List.mem_cons_self
      · exact List.mem_cons_of_mem x (ih h)

/-- A body with the digest of the manifest is the artifact of the projection. -/
theorem mem_of_reused {materials : Set Bytes} (hdistinct : Set.InjOn rules.sha256 materials)
    (hheld : held.materials ⊆ materials) {reusable : List (Text × Bytes)}
    (hreusable : ∀ artifact ∈ reusable, artifact.2 ∈ materials) {artifact : Text × Bytes}
    (h : artifact ∈ reusedBodies rules held.manifest reusable) : artifact ∈ held.artifacts := by
  rw [reusedBodies, List.mem_filter, decide_eq_true_iff] at h
  obtain ⟨hin, hdigest⟩ := h
  have hentry := mem_of_lookup hdigest
  rw [← held.listed] at hentry
  obtain ⟨artifact', hin', heq⟩ := List.mem_map.mp hentry
  obtain ⟨hpath, hsame⟩ := Prod.mk.inj heq
  have hbytes : artifact'.2 = artifact.2 :=
    hdistinct (hheld (Or.inr ⟨artifact'.1, hin'⟩)) (hreusable artifact hin) hsame
  rwa [← Prod.ext hpath hbytes]

/-- The reused bodies and the bodies of the other paths are the artifacts of the projection. -/
theorem reused_append_perm {bodies : List (Text × Bytes)}
    (hbodies : ∀ artifact ∈ bodies, artifact ∈ held.artifacts)
    (hdistinct : (bodies.map Prod.fst).Nodup) :
    (bodies ++ bodiesOf held (held.manifest.paths.filter fun path =>
      !(bodies.map Prod.fst).contains path)).Perm held.artifacts := by
  have hmissing {path : Text} : path ∈ (held.manifest.paths.filter fun path =>
      !(bodies.map Prod.fst).contains path) ↔
        path ∈ held.manifest.paths ∧ path ∉ bodies.map Prod.fst := by
    rw [List.mem_filter, Bool.not_eq_true', ← Bool.not_eq_true, List.contains_iff_mem]
  refine (List.perm_ext_iff_of_nodup (List.Nodup.of_map Prod.fst ?_)
    ((artifacts_distinct held).of_map _)).mpr fun artifact => ?_
  · rw [List.map_append, bodiesOf, List.map_map, List.nodup_append']
    have hid : Prod.fst ∘ (fun path => (path, bodyOf held path)) = id := rfl
    rw [hid, List.map_id]
    exact ⟨hdistinct, held.manifest.paths_nodup.filter _, fun path hold hin =>
      (hmissing.mp hin).2 hold⟩
  · rw [List.mem_append]
    constructor
    · rintro (hin | hin)
      · exact hbodies artifact hin
      · obtain ⟨path, hpath, rfl⟩ := List.mem_map.mp hin
        exact bodyOf_mem (hmissing.mp hpath).1
    · intro hin
      by_cases hreused : artifact.1 ∈ bodies.map Prod.fst
      · obtain ⟨body, hbody, hpath⟩ := List.mem_map.mp hreused
        refine Or.inl ?_
        rwa [← List.inj_on_of_nodup_map (artifacts_distinct held) (hbodies body hbody) hin hpath]
      · refine Or.inr (List.mem_map.mpr ⟨artifact.1, hmissing.mpr ⟨?_, hreused⟩, ?_⟩)
        · rw [← artifacts_paths]
          exact List.mem_map_of_mem hin
        · rw [bodyOf_of_mem hin]

/-! ## What comes of an acquisition -/

/-- The byte strings of a projection to reuse that are digested. -/
def priorMaterials (prior : Option (VerifiedProjection rules)) : Set Bytes :=
  {material | ∃ p, prior = some p ∧ material ∈ p.materials}

theorem flatten_map_perm {α : Type} {f : List α → List α} (h : ∀ xs, (f xs).Perm xs)
    (xss : List (List α)) : (xss.map f).flatten.Perm xss.flatten := by
  induction xss with
  | nil => exact List.Perm.refl _
  | cons xs xss ih =>
      rw [List.map_cons, List.flatten_cons, List.flatten_cons]
      exact (h xs).append ih

/-- From the manifest on, an acquisition gives the projection the server holds, or is refused by
a size cap, whichever projection is reused. -/
theorem acquireTarget_spec (h : FaultFree server held) {completion : List Text → List Text}
    (hcompletion : ∀ page, (completion page).Perm page) (prior : Option (VerifiedProjection rules))
    (hdistinct : Set.InjOn rules.sha256 (held.materials ∪ priorMaterials prior)) :
    CappedBy (Fits 0 held.artifacts)
      (acquireTarget rules server completion held.target held.manifestJson prior) held := by
  obtain ⟨reusable, hreusable, hfrom, hpaths⟩ := reusableBytes_ok prior held.target
  set bodies := reusedBodies rules held.manifest reusable with hbodiesDef
  have hbodies : ∀ artifact ∈ bodies, artifact ∈ held.artifacts := fun artifact hin =>
    mem_of_reused hdistinct Set.subset_union_left (fun artifact hin => by
      obtain ⟨p, hp, hartifact⟩ := hfrom artifact hin
      exact Or.inr ⟨p, hp, Or.inr ⟨artifact.1, hartifact⟩⟩) hin
  have hbodiesPaths : (bodies.map Prod.fst).Nodup :=
    (List.filter_sublist.map Prod.fst).nodup hpaths
  set paths := held.manifest.paths.filter fun path => !(bodies.map Prod.fst).contains path
    with hpathsDef
  have hperm : (bodies ++ bodiesOf held paths).Perm held.artifacts :=
    reused_append_perm hbodies hbodiesPaths
  have hsplit : Fits 0 held.artifacts ↔
      Fits 0 bodies ∧ Fits (totalBytes bodies) (bodiesOf held paths) := by
    rw [← fits_perm hperm, fits_append, Nat.zero_add]
  have hreuse : (maxProjectionBytes < totalBytes bodies ∨
      bodies.any (fun artifact => maxArtifactBytes < artifact.2.length) = true) ↔
        ¬ Fits 0 bodies := by
    rw [Fits, Nat.zero_add, not_and_or, Nat.not_le, List.any_eq_true]
    constructor
    · rintro (hlarge | ⟨artifact, hin, hlarge⟩)
      · exact Or.inr hlarge
      · exact Or.inl fun hall => absurd (hall artifact hin) (Nat.not_le.mpr (of_decide_eq_true hlarge))
    · rintro (hnot | hlarge)
      · push Not at hnot
        obtain ⟨artifact, hin, hlarge⟩ := hnot
        exact Or.inr ⟨artifact, hin, decide_eq_true hlarge⟩
      · exact Or.inl hlarge
  have hflat : (pages paths.length paths).flatten = paths := flatten_pages (Nat.le_refl _)
  have hpages : ∀ page ∈ pages paths.length paths, page ≠ [] ∧ page.length ≤ presignBatchLimit ∧
      page.Nodup ∧ page ⊆ held.manifest.paths := fun page hin => by
    obtain ⟨hne, hshort, hsublist⟩ := mem_pages hin
    have hsub := hsublist.trans List.filter_sublist
    exact ⟨hne, hshort, hsub.nodup held.manifest.paths_nodup, hsub.subset⟩
  have hfetched {total : Nat} (hroom : total ≤ maxProjectionBytes) :=
    fetchPages_spec h hcompletion hpages hroom
  rw [hflat] at hfetched
  rw [acquireTarget, held.parsed, CappedBy, hsplit]
  simp only [Except.mapError, bind, Except.bind, hreusable, ← hbodiesDef, ← hpathsDef]
  constructor
  · rintro ⟨hfits, hrest⟩
    have hroom : totalBytes bodies ≤ maxProjectionBytes := (Nat.le_add_right _ _).trans hrest.2
    have hverified : (bodies ++ bodiesOf held ((pages paths.length paths).map completion).flatten).Perm
        held.artifacts := by
      refine List.Perm.trans (List.Perm.append_left bodies (List.Perm.map _ ?_)) hperm
      have hpaged : ((pages paths.length paths).map completion).flatten.Perm
          (pages paths.length paths).flatten := flatten_map_perm hcompletion _
      rwa [hflat] at hpaged
    rw [if_neg (mt hreuse.mp (not_not.mpr hfits)), (hfetched hroom).1 hrest]
    simp only [verifyProjection_self held hverified.symm]
  · intro hnot
    by_cases hfits : Fits 0 bodies
    · have hroom : totalBytes bodies ≤ maxProjectionBytes := by
        have hsum := hfits.2
        rwa [Nat.zero_add] at hsum
      obtain ⟨error, hcap, herror⟩ := (hfetched hroom).2 fun hrest => hnot ⟨hfits, hrest⟩
      refine ⟨error, hcap, ?_⟩
      rw [if_neg (mt hreuse.mp (not_not.mpr hfits)), herror]
    · exact ⟨.reusableTooLarge, rfl, if_pos (hreuse.mpr hfits)⟩

/-- An acquisition of the held target by its user. -/
theorem acquireOnce_spec (h : FaultFree server held) {completion : List Text → List Text}
    (hcompletion : ∀ page, (completion page).Perm page) (prior : Option (VerifiedProjection rules))
    (hdistinct : Set.InjOn rules.sha256 (held.materials ∪ priorMaterials prior))
    {observed : Option (GenerationProjectionTarget × Bytes)}
    (hobserved : observed = none ∨ observed = some (held.target, held.manifestJson)) :
    CappedBy (Fits 0 held.artifacts)
      (acquireOnce rules server completion held.target.binding held.target.user prior observed)
      held := by
  have htarget : projectionTarget held.target.binding held.target.identity = .ok held.target := by
    rw [projectionTarget, dif_pos ⟨held.target.hosted, held.target.sameProject,
      held.target.supported⟩]
  have hspec := acquireTarget_spec h hcompletion prior hdistinct
  have hrun : acquireOnce rules server completion held.target.binding held.target.user prior
      observed = acquireTarget rules server completion held.target held.manifestJson prior := by
    rcases hobserved with rfl | rfl
    · rw [acquireOnce, h.projection]
      simp only [bind, Except.bind, htarget, ne_eq, not_true_eq_false, if_false]
    · rw [acquireOnce]
      simp only [bind, Except.bind, ne_eq, not_true_eq_false, if_false]
  rw [hrun]
  exact hspec

/-- Two projections that are accepted for a target have one manifest and the same artifacts; and
against a server without faults an acquisition that reuses a verified projection gives what one
without gives, or both are refused by a size cap, however the fetches of a page complete. -/
theorem delta_equals_full (rules : ProjectionRules) :
    (∀ (target : GenerationProjectionTarget) (manifestJson manifestJson' : Bytes)
        (raw raw' : List (Text × Bytes)) (projection other : VerifiedProjection rules),
      Set.InjOn rules.sha256 (projection.materials ∪ other.materials) →
      verifyProjection rules target manifestJson raw = .ok projection →
      verifyProjection rules target manifestJson' raw' = .ok other →
      projection.manifest = other.manifest ∧ projection.artifacts = other.artifacts) ∧
    (∀ (server : ProjectionServer) (held prior : VerifiedProjection rules)
        (completion completion' : List Text → List Text)
        (observed observed' : Option (GenerationProjectionTarget × Bytes)),
      FaultFree server held → Set.InjOn rules.sha256 (held.materials ∪ prior.materials) →
      (∀ page, (completion page).Perm page) → (∀ page, (completion' page).Perm page) →
      (observed = none ∨ observed = some (held.target, held.manifestJson)) →
      (observed' = none ∨ observed' = some (held.target, held.manifestJson)) →
      let binding := held.target.binding
      let user := held.target.user
      let delta := acquireOnce rules server completion binding user (some prior) observed
      let full := acquireOnce rules server completion' binding user none observed'
      (Fits 0 held.artifacts → delta = .ok held ∧ full = .ok held) ∧
      (¬ Fits 0 held.artifacts → ∃ error error' : AcquisitionError, error.isSizeCap = true ∧
        error'.isSizeCap = true ∧ delta = .error error ∧ full = .error error')) := by
  constructor
  · intro target manifestJson manifestJson' raw raw' projection other hdistinct hprojection hother
    obtain ⟨htarget, -⟩ := verifyProjection_ok hprojection
    obtain ⟨htarget', -⟩ := verifyProjection_ok hother
    have hsame := VerifiedProjection.unique hdistinct (htarget.trans htarget'.symm)
    rw [hsame]
    exact ⟨rfl, rfl⟩
  · intro server held prior completion completion' observed observed' hserver hdistinct
      hcompletion hcompletion' hobserved hobserved'
    have hprior : held.materials ∪ priorMaterials (some prior) =
        held.materials ∪ prior.materials := by
      congr 1
      ext material
      exact ⟨fun ⟨p, hp, hin⟩ => (Option.some.inj hp) ▸ hin, fun hin => ⟨prior, rfl, hin⟩⟩
    have hnone : Set.InjOn rules.sha256
        (held.materials ∪ priorMaterials (none : Option (VerifiedProjection rules))) :=
      hdistinct.mono (Set.union_subset Set.subset_union_left fun _ hin => by
        obtain ⟨p, hp, -⟩ := hin
        cases hp)
    have hdelta := acquireOnce_spec hserver hcompletion (some prior) (hprior ▸ hdistinct) hobserved
    have hfull := acquireOnce_spec hserver hcompletion' none hnone hobserved'
    refine ⟨fun hfits => ⟨hdelta.1 hfits, hfull.1 hfits⟩, fun hnot => ?_⟩
    obtain ⟨error, hcap, herror⟩ := hdelta.2 hnot
    obtain ⟨error', hcap', herror'⟩ := hfull.2 hnot
    exact ⟨error, error', hcap, hcap', herror, herror'⟩

/-! ## A project of two generations -/

theorem sampleProjectId_valid : isUlid "01K00000000000000000000000".toList = true := by
  decide

theorem sampleCommittedAt_valid : isUtcTimestamp "2026-07-12T10:00:00.000000Z".toList = true := by
  decide

def sampleProjectId : Ulid := ⟨"01K00000000000000000000000".toList, sampleProjectId_valid⟩

def sampleGenerationId : Ulid := ⟨"01K00000000000000000000001".toList, by decide⟩

def sampleCommittedAt : Timestamp := ⟨"2026-07-12T10:00:00.000000Z".toList, sampleCommittedAt_valid⟩

def sampleScope : Digest :=
  ⟨"5f161c9149882e0e10124bc5dd5c11f0fbe8ec452edd52bcec76b01e9252cb33".toList, by decide⟩

@[irreducible] def stackBytes : Bytes := EscapedUtf8.utf8 "# Stack\n".toList

def stackDigest : Digest :=
  ⟨"fa399823e8c777e2b0a50f162dffe0a520fdff9b7837cc1b577586e3d6274a5f".toList, by decide⟩

@[irreducible] def stateBytes : Bytes := EscapedUtf8.utf8 "# State\n".toList

def stateDigest : Digest :=
  ⟨"fd7857a92e47cc4600220c9a1b4acb5a9dd6001985dc0baa6b2f35e684543584".toList, by decide⟩

/-- The manifest of the generation that is reused. -/
def priorManifest : ProjectionManifest where
  projectId := sampleProjectId
  storeFormatVersion := hostedStoreFormatVersion
  generationId := sampleProjectId
  committedAt := sampleCommittedAt
  projectionClass := .viewer
  projectionScopeId := sampleScope
  artifacts := [("stack.md".toList, stackDigest)]
  members := by decide
  ordered := by decide

/-- The manifest of the generation that is served. -/
def heldManifest : ProjectionManifest where
  projectId := sampleProjectId
  storeFormatVersion := hostedStoreFormatVersion
  generationId := sampleGenerationId
  committedAt := sampleCommittedAt
  projectionClass := .viewer
  projectionScopeId := sampleScope
  artifacts := [("stack.md".toList, stackDigest), ("state.md".toList, stateDigest)]
  members := by decide
  ordered := by decide

@[irreducible] def priorJson : Bytes :=
  EscapedUtf8.utf8 (["\x7b\"artifacts\":\x7b\"stack.md\":\"fa399823e8c777e2b0a50f162dffe0a52",
    "0fdff9b7837cc1b577586e3d6274a5f\"\x7d,\"committed_at\":\"2026-07-12T10",
    ":00:00.000000Z\",\"generation_id\":\"01K00000000000000000000000",
    "\",\"project_id\":\"01K00000000000000000000000\",\"projection_class",
    "\":\"viewer\",\"projection_scope_id\":\"5f161c9149882e0e10124bc5dd5c11",
    "f0fbe8ec452edd52bcec76b01e9252cb33\",\"store_format_version\":1\x7d"].flatMap String.toList)

def priorDigest : Digest :=
  ⟨"056d142fb76193d3360404dde522454909a8fac3cbd6e70f43125ad03cf4636c".toList, by decide⟩

@[irreducible] def heldJson : Bytes :=
  EscapedUtf8.utf8 (["\x7b\"artifacts\":\x7b\"stack.md\":\"fa399823e8c777e2b0a50f162dffe0a52",
    "0fdff9b7837cc1b577586e3d6274a5f\",\"state.md\":\"fd7857a92e47cc4600220",
    "c9a1b4acb5a9dd6001985dc0baa6b2f35e684543584\"\x7d,\"committed_at",
    "\":\"2026-07-12T10:00:00.000000Z\",\"generation_id\":\"01K000000000000",
    "00000000001\",\"project_id\":\"01K00000000000000000000000\",\"projecti",
    "on_class\":\"viewer\",\"projection_scope_id\":\"5f161c9149882e0e10124b",
    "c5dd5c11f0fbe8ec452edd52bcec76b01e9252cb33\",\"store_format_version",
    "\":1\x7d"].flatMap String.toList)

def heldDigest : Digest :=
  ⟨"b97ac5c40bcfdf82161be275a34ff3ab1308a80c25c27a9c65b849432d65ca2f".toList, by decide⟩

/-- SHA-256 and the canonical bytes of the two generations. -/
def sampleProjectionRules : ProjectionRules where
  sha256 material :=
    if material = heldJson then heldDigest
    else if material = priorJson then priorDigest
    else if material = stackBytes then stackDigest
    else stateDigest
  manifest :=
    { dump := fun manifest => if manifest.artifacts.length = 2 then heldJson else priorJson
      load? := fun raw =>
        if raw = heldJson then some heldManifest
        else if raw = priorJson then some priorManifest
        else none }

theorem sample_materials_distinct :
    [stateBytes, stackBytes, priorJson, heldJson].Nodup ∧
      [heldDigest, priorDigest, stackDigest, stateDigest].Nodup := by
  decide +kernel

theorem sample_digests :
    sampleProjectionRules.sha256 heldJson = heldDigest ∧
      sampleProjectionRules.sha256 priorJson = priorDigest ∧
      sampleProjectionRules.sha256 stackBytes = stackDigest ∧
      sampleProjectionRules.sha256 stateBytes = stateDigest ∧ priorJson ≠ heldJson ∧
      [heldDigest, priorDigest, stackDigest, stateDigest].Nodup := by
  obtain ⟨hmaterials, hdigests⟩ := sample_materials_distinct
  simp only [List.nodup_cons, List.mem_cons, List.not_mem_nil, or_false, not_or] at hmaterials
  obtain ⟨⟨hstate, hstate', hstate''⟩, ⟨hstack, hstack'⟩, hprior, -⟩ := hmaterials
  refine ⟨if_pos rfl, ?_, ?_, ?_, hprior, hdigests⟩
  · exact (if_neg hprior).trans (if_pos rfl)
  · exact (if_neg hstack').trans ((if_neg hstack).trans (if_pos rfl))
  · exact (if_neg hstate'').trans ((if_neg hstate').trans (if_neg hstate))

def sampleAcquisitionTarget (generation : Ulid) (manifestDigest : Digest) :
    GenerationProjectionTarget where
  binding :=
    { storePath := "/home/a/.nauro/projects/p".toList
      projectId := sampleProjectId
      displayName := "p".toList
      mode := .cloudMode
      serverUrl := some "https://mcp.nauro.ai".toList }
  identity :=
    { projectId := sampleProjectId
      storeFormatVersion := hostedStoreFormatVersion
      generationId := generation
      manifestDigest := manifestDigest
      committedAt := sampleCommittedAt
      installedForUserId := sampleProjectId
      projectionClass := .viewer
      projectionScopeId := sampleScope }
  hosted := rfl
  sameProject := rfl
  supported := rfl

def priorProjection : VerifiedProjection sampleProjectionRules where
  target := sampleAcquisitionTarget sampleProjectId priorDigest
  manifestJson := priorJson
  manifest := priorManifest
  artifacts := [("stack.md".toList, stackBytes)]
  parsed := by
    obtain ⟨-, hprior, -, -, hne, -⟩ := sample_digests
    have hload : sampleProjectionRules.manifest.load? priorJson = some priorManifest := by
      show (if priorJson = heldJson then some heldManifest else
        if priorJson = priorJson then some priorManifest else none) = _
      rw [if_neg hne, if_pos rfl]
    have hdump : sampleProjectionRules.manifest.dump priorManifest = priorJson := by
      show (if priorManifest.artifacts.length = 2 then heldJson else priorJson) = _
      exact if_neg (by decide)
    exact parseManifest_of_canonical hprior hload hdump rfl (by decide)
  listed := by
    rw [List.map_singleton, sample_digests.2.2.1]
    rfl

def heldProjection : VerifiedProjection sampleProjectionRules where
  target := sampleAcquisitionTarget sampleGenerationId heldDigest
  manifestJson := heldJson
  manifest := heldManifest
  artifacts := [("stack.md".toList, stackBytes), ("state.md".toList, stateBytes)]
  parsed := by
    obtain ⟨hheld, -⟩ := sample_digests
    have hload : sampleProjectionRules.manifest.load? heldJson = some heldManifest := by
      show (if heldJson = heldJson then some heldManifest else _) = _
      exact if_pos rfl
    have hdump : sampleProjectionRules.manifest.dump heldManifest = heldJson := by
      show (if heldManifest.artifacts.length = 2 then heldJson else priorJson) = _
      exact if_pos rfl
    exact parseManifest_of_canonical hheld hload hdump rfl (by decide)
  listed := by
    obtain ⟨-, -, hstack, hstate, -⟩ := sample_digests
    rw [List.map_cons, List.map_singleton, hstack, hstate]
    rfl

/-- The generation at rest on a server. -/
def sampleServer : ProjectionServer where
  projection := .ok (heldProjection.target.identity, heldJson)
  presign paths := .ok (heldProjection.target.identity,
    paths.map fun path => (path, "https://s3/".toList ++ path))
  get url := .ok ⟨none, if url = "https://s3/stack.md".toList then stackBytes else stateBytes⟩

theorem sampleServer_faultFree : FaultFree sampleServer heldProjection where
  projection := rfl
  pages paths _ _ _ _ := by
    refine ⟨_, rfl, ?_, fun entry hin => ?_⟩
    · rw [List.map_map]
      exact (List.map_id paths).symm ▸ List.Perm.refl _
    · obtain ⟨path, -, rfl⟩ := List.mem_map.mp hin
      refine ⟨⟨"s3/".toList ++ path, rfl⟩, fun body hbody => ⟨_, rfl, ?_, fun n hn => by cases hn⟩⟩
      rcases List.mem_cons.mp hbody with heq | hbody
      · obtain ⟨rfl, rfl⟩ := Prod.mk.inj heq
        rfl
      · obtain ⟨rfl, rfl⟩ := Prod.mk.inj (List.mem_singleton.mp hbody)
        rfl

/-- The bytes of a digest. -/
def sampleMaterial (digest : Digest) : Bytes :=
  if digest = heldDigest then heldJson
  else if digest = priorDigest then priorJson
  else if digest = stackDigest then stackBytes
  else stateBytes

theorem sample_injOn :
    Set.InjOn sampleProjectionRules.sha256
      (heldProjection.materials ∪ priorProjection.materials) := by
  obtain ⟨hheld, hprior, hstack, hstate, -, hdistinct⟩ := sample_digests
  have hinverse : Set.LeftInvOn sampleMaterial sampleProjectionRules.sha256
      {m | m = heldJson ∨ m = priorJson ∨ m = stackBytes ∨ m = stateBytes} := by
    rintro m (rfl | rfl | rfl | rfl)
    · rw [hheld, sampleMaterial, if_pos rfl]
    · rw [hprior, sampleMaterial, if_neg (by decide), if_pos rfl]
    · rw [hstack, sampleMaterial, if_neg (by decide), if_neg (by decide), if_pos rfl]
    · rw [hstate, sampleMaterial, if_neg (by decide), if_neg (by decide), if_neg (by decide)]
  refine hinverse.injOn.mono ?_
  rintro m ((rfl | ⟨path, hin⟩) | (rfl | ⟨path, hin⟩))
  · exact Or.inl rfl
  · rcases List.mem_cons.mp hin with heq | hin
    · exact Or.inr (Or.inr (Or.inl (Prod.mk.inj heq).2))
    · exact Or.inr (Or.inr (Or.inr (Prod.mk.inj (List.mem_singleton.mp hin)).2))
  · exact Or.inr (Or.inl rfl)
  · exact Or.inr (Or.inr (Or.inl (Prod.mk.inj (List.mem_singleton.mp hin)).2))

/-- The second generation, with and without the stack of the first one. -/
theorem delta_equals_full_sample :
    let binding := heldProjection.target.binding
    let user := heldProjection.target.user
    acquireOnce sampleProjectionRules sampleServer id binding user (some priorProjection) none =
        .ok heldProjection ∧
      acquireOnce sampleProjectionRules sampleServer id binding user none none =
        .ok heldProjection := by
  have hfits : Fits 0 heldProjection.artifacts := by
    refine ⟨?_, ?_⟩
    · decide +kernel
    · decide +kernel
  exact ((delta_equals_full sampleProjectionRules).2 sampleServer heldProjection priorProjection id id
    none none sampleServer_faultFree sample_injOn (fun page => List.Perm.refl page)
    (fun page => List.Perm.refl page) (Or.inl rfl) (Or.inl rfl)).1 hfits

end Client
end Nauro
