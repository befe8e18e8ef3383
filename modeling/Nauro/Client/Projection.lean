import Nauro.Client.Generation
import Nauro.Core.ProtectedMembership
import Mathlib.Data.Set.Function

/-!
# Verified projections of a generation

A projection is what an account is shown of a generation: a manifest, whose digest the target
names, and the artifacts whose digests the manifest lists.

* `VerifiedProjection.unique` — a target has one verified projection.
-/

namespace Nauro
namespace Client

open Nauro.Core Nauro.Sync

/-! ## Manifests -/

/-- `GenerationProjectionManifest`: protected paths in order, each with the digest of its
artifact. -/
structure ProjectionManifest extends GenerationManifest where
  artifacts : List (Text × Digest)
  members : ∀ artifact ∈ artifacts, isProtectedMember artifact.1 = true
  ordered : (artifacts.map Prod.fst).Pairwise (· < ·)

/-- `manifest.artifacts.get(path)`. -/
def ProjectionManifest.digest? (manifest : ProjectionManifest) (path : Text) : Option Digest :=
  manifest.artifacts.lookup path

def ProjectionManifest.paths (manifest : ProjectionManifest) : List Text :=
  manifest.artifacts.map Prod.fst

/-- The digest function, and the canonical bytes of manifests with the strict reader. -/
structure ProjectionRules where
  sha256 : Bytes → Digest
  manifest : Codec ProjectionManifest Bytes

variable (rules : ProjectionRules)

/-- `_parse_manifest`. -/
def parseManifest (target : GenerationProjectionTarget) (raw : Bytes) :
    Except GenerationError ProjectionManifest :=
  if rules.sha256 raw ≠ target.identity.manifestDigest then .error .generationVerificationFailed
  else
    match rules.manifest.load? raw with
    | none => .error .generationVerificationFailed
    | some manifest =>
        if rules.manifest.dump manifest ≠ raw then .error .generationVerificationFailed
        else if manifest.toGenerationManifest ≠ target.identity.bound then
          .error .generationVerificationFailed
        else if manifest.projectionClass = .viewer ∧ questionsProvenanceJson ∈ manifest.paths then
          .error .generationVerificationFailed
        else .ok manifest

/-! ## Projections -/

/-- `sorted` by path. -/
def sortByPath (artifacts : List (Text × Bytes)) : List (Text × Bytes) :=
  artifacts.insertionSort fun a b => a.1 ≤ b.1

/-- `_rebuild_artifacts`. -/
def rebuildArtifacts (manifest : ProjectionManifest) (raw : List (Text × Bytes)) :
    Except GenerationError (List (Text × Bytes)) :=
  if !raw.all fun artifact => isProtectedMember artifact.1 then
    .error .generationVerificationFailed
  else if ¬ (raw.map Prod.fst).Nodup then .error .generationVerificationFailed
  else if !(raw.all fun artifact => manifest.paths.contains artifact.1) ||
      !(manifest.paths.all fun path => (raw.map Prod.fst).contains path) then
    .error .generationVerificationFailed
  else
    let artifacts := sortByPath raw
    if !artifacts.all fun artifact =>
        manifest.digest? artifact.1 = some (rules.sha256 artifact.2) then
      .error .generationVerificationFailed
    else .ok artifacts

/-- `VerifiedGenerationProjection`. -/
structure VerifiedProjection where
  target : GenerationProjectionTarget
  manifestJson : Bytes
  manifest : ProjectionManifest
  artifacts : List (Text × Bytes)
  parsed : parseManifest rules target manifestJson = .ok manifest
  listed : artifacts.map (fun artifact => (artifact.1, rules.sha256 artifact.2)) =
    manifest.artifacts

variable {rules}

theorem ProjectionManifest.paths_nodup (manifest : ProjectionManifest) : manifest.paths.Nodup :=
  manifest.ordered.imp fun h => ne_of_lt h

/-- Two tables with the same keys are one when the first holds what the second says. -/
theorem eq_of_lookup {K V : Type} [BEq K] [LawfulBEq K] {xs ys : List (K × V)}
    (hkeys : xs.map Prod.fst = ys.map Prod.fst) (hdistinct : (ys.map Prod.fst).Nodup)
    (h : ∀ x ∈ xs, ys.lookup x.1 = some x.2) : xs = ys := by
  induction xs generalizing ys with
  | nil => exact (List.map_eq_nil_iff.mp hkeys.symm).symm
  | cons x xs ih =>
      cases ys with
      | nil => cases hkeys
      | cons y ys =>
          obtain ⟨hkey, hrest⟩ := List.cons.inj hkeys
          obtain ⟨hfresh, hdistinct⟩ := List.nodup_cons.mp hdistinct
          have hhead := h x List.mem_cons_self
          rw [hkey, List.lookup_cons_self] at hhead
          have hx : x = y := Prod.ext hkey (Option.some.inj hhead).symm
          refine congrArg₂ List.cons hx (ih hrest hdistinct fun z hz => ?_)
          have hz' := h z (List.mem_cons_of_mem x hz)
          have hne : z.1 ≠ y.1 := by
            intro heq
            refine hfresh (hrest ▸ ?_)
            rw [← heq]
            exact List.mem_map_of_mem hz
          rwa [List.lookup_cons, beq_false_of_ne hne] at hz'

theorem lookup_of_mem {K V : Type} [BEq K] [LawfulBEq K] {xs : List (K × V)}
    (hdistinct : (xs.map Prod.fst).Nodup) {x : K × V} (hx : x ∈ xs) :
    xs.lookup x.1 = some x.2 := by
  induction xs with
  | nil => exact absurd hx List.not_mem_nil
  | cons y xs ih =>
      obtain ⟨hfresh, hdistinct⟩ := List.nodup_cons.mp hdistinct
      rcases List.mem_cons.mp hx with rfl | hx
      · exact List.lookup_cons_self
      · have hne : x.1 ≠ y.1 := by
          intro heq
          refine hfresh ?_
          rw [← heq]
          exact List.mem_map_of_mem hx
        rw [List.lookup_cons, beq_false_of_ne hne]
        exact ih hdistinct hx

theorem sortByPath_perm (artifacts : List (Text × Bytes)) :
    (sortByPath artifacts).Perm artifacts :=
  List.perm_insertionSort _ artifacts

theorem sortByPath_pairwise (artifacts : List (Text × Bytes)) :
    ((sortByPath artifacts).map Prod.fst).Pairwise (· ≤ ·) := by
  have htotal : Std.Total fun a b : Text × Bytes => a.1 ≤ b.1 := ⟨fun a b => le_total a.1 b.1⟩
  have htrans : IsTrans (Text × Bytes) fun a b => a.1 ≤ b.1 := ⟨fun _ _ _ => le_trans⟩
  rw [List.pairwise_map]
  exact List.pairwise_insertionSort _ artifacts

/-- The artifacts that are accepted are the manifest's, in its order. -/
theorem rebuildArtifacts_ok {manifest : ProjectionManifest} {raw artifacts : List (Text × Bytes)}
    (h : rebuildArtifacts rules manifest raw = .ok artifacts) :
    artifacts.Perm raw ∧
      artifacts.map (fun artifact => (artifact.1, rules.sha256 artifact.2)) =
        manifest.artifacts := by
  unfold rebuildArtifacts at h
  split_ifs at h with hmembers hdistinct hsets
  simp only at h
  split_ifs at h with hdigests
  cases h
  have hperm := sortByPath_perm raw
  refine ⟨hperm, eq_of_lookup ?_ manifest.paths_nodup fun x hx => ?_⟩
  · -- two sorted lists of the same paths
    have hsame : ((sortByPath raw).map Prod.fst).Perm manifest.paths := by
      refine (hperm.map Prod.fst).trans ?_
      refine (List.perm_ext_iff_of_nodup hdistinct manifest.paths_nodup).mpr fun path => ?_
      simp only [Bool.or_eq_true, Bool.not_eq_true', not_or, Bool.not_eq_false, List.all_eq_true,
        List.contains_eq_mem, decide_eq_true_eq] at hsets
      constructor
      · intro hin
        obtain ⟨artifact, hartifact, rfl⟩ := List.mem_map.mp hin
        exact hsets.1 artifact hartifact
      · exact hsets.2 path
    have hpaths := hsame.eq_of_pairwise (fun _ _ _ _ => le_antisymm) (sortByPath_pairwise raw)
      (manifest.ordered.imp le_of_lt)
    rw [List.map_map]
    exact hpaths
  · obtain ⟨artifact, hartifact, rfl⟩ := List.mem_map.mp hx
    simp only [Bool.not_eq_true, Bool.not_eq_false', List.all_eq_true, decide_eq_true_eq]
      at hdigests
    exact hdigests artifact hartifact

/-- The artifacts of a manifest are accepted in any order. -/
theorem rebuildArtifacts_of_perm {manifest : ProjectionManifest}
    {raw artifacts : List (Text × Bytes)} (hperm : artifacts.Perm raw)
    (hlisted : artifacts.map (fun artifact => (artifact.1, rules.sha256 artifact.2)) =
      manifest.artifacts) :
    rebuildArtifacts rules manifest raw = .ok artifacts := by
  have hpaths : artifacts.map Prod.fst = manifest.paths := by
    rw [ProjectionManifest.paths, ← hlisted, List.map_map]
    rfl
  have hrawPaths : (raw.map Prod.fst).Perm manifest.paths :=
    hpaths ▸ (hperm.map Prod.fst).symm
  have hentry : ∀ artifact ∈ raw,
      (artifact.1, rules.sha256 artifact.2) ∈ manifest.artifacts := fun artifact hin => by
    rw [← hlisted]
    exact List.mem_map.mpr ⟨artifact, hperm.mem_iff.mpr hin, rfl⟩
  have hordered : (artifacts.map Prod.fst).Pairwise (· ≤ ·) :=
    hpaths ▸ manifest.ordered.imp le_of_lt
  have hsorted : sortByPath raw = artifacts := by
    have hsame := (sortByPath_perm raw).trans hperm.symm
    refine hsame.eq_of_pairwise (fun a b ha hb hab hba => ?_)
      (List.pairwise_map.mp (sortByPath_pairwise raw)) (List.pairwise_map.mp hordered)
    exact List.inj_on_of_nodup_map (hpaths ▸ manifest.paths_nodup) (hsame.mem_iff.mp ha) hb
      (le_antisymm hab hba)
  have hmembers : (raw.all fun artifact => isProtectedMember artifact.1) = true :=
    List.all_eq_true.mpr fun artifact hin => manifest.members _ (hentry artifact hin)
  have hdistinct : (raw.map Prod.fst).Nodup := hrawPaths.nodup_iff.mpr manifest.paths_nodup
  have hdigests : (artifacts.all fun artifact =>
      decide (manifest.digest? artifact.1 = some (rules.sha256 artifact.2))) = true :=
    List.all_eq_true.mpr fun artifact hin => decide_eq_true
      (lookup_of_mem manifest.paths_nodup (hentry artifact (hperm.mem_iff.mp hin)))
  have hknown : (raw.all fun artifact => manifest.paths.contains artifact.1) = true :=
    List.all_eq_true.mpr fun artifact hin => List.contains_iff_mem.mpr
      (hrawPaths.mem_iff.mp (List.mem_map_of_mem hin))
  have hcovered : (manifest.paths.all fun path => (raw.map Prod.fst).contains path) = true :=
    List.all_eq_true.mpr fun path hin => List.contains_iff_mem.mpr (hrawPaths.mem_iff.mpr hin)
  rw [rebuildArtifacts, hmembers, hknown, hcovered, hsorted]
  simp only [Bool.not_true, Bool.false_eq_true, if_false, hdistinct, not_true_eq_false,
    Bool.or_self, hdigests]

/-! ## Verification -/

/-- `verify_generation_projection`. -/
def verifyProjection (rules : ProjectionRules) (target : GenerationProjectionTarget)
    (manifestJson : Bytes) (raw : List (Text × Bytes)) :
    Except GenerationError (VerifiedProjection rules) :=
  match hparsed : parseManifest rules target manifestJson with
  | .error error => .error error
  | .ok manifest =>
      match hartifacts : rebuildArtifacts rules manifest raw with
      | .error error => .error error
      | .ok artifacts =>
          .ok ⟨target, manifestJson, manifest, artifacts, hparsed, (rebuildArtifacts_ok hartifacts).2⟩

theorem verifyProjection_ok {target : GenerationProjectionTarget} {manifestJson : Bytes}
    {raw : List (Text × Bytes)} {projection : VerifiedProjection rules}
    (h : verifyProjection rules target manifestJson raw = .ok projection) :
    projection.target = target ∧ projection.manifestJson = manifestJson ∧
      projection.artifacts.Perm raw := by
  unfold verifyProjection at h
  split at h
  · cases h
  · next manifest hparsed =>
      split at h
      · cases h
      · next artifacts hartifacts =>
          cases h
          exact ⟨rfl, rfl, (rebuildArtifacts_ok hartifacts).1⟩

/-- A projection verifies from its own parts, its artifacts in any order. -/
theorem verifyProjection_self (projection : VerifiedProjection rules) {raw : List (Text × Bytes)}
    (hperm : projection.artifacts.Perm raw) :
    verifyProjection rules projection.target projection.manifestJson raw = .ok projection := by
  have hartifacts := rebuildArtifacts_of_perm hperm projection.listed
  unfold verifyProjection
  split
  · next error hparsed =>
      rw [projection.parsed] at hparsed
      cases hparsed
  · next manifest hparsed =>
      have hmanifest : manifest = projection.manifest := by
        rw [projection.parsed] at hparsed
        exact (Except.ok.inj hparsed).symm
      subst hmanifest
      split
      · next error hrebuilt =>
          rw [hartifacts] at hrebuilt
          cases hrebuilt
      · next artifacts hrebuilt =>
          rw [hartifacts] at hrebuilt
          cases hrebuilt
          rfl

theorem parseManifest_ok {target : GenerationProjectionTarget} {raw : Bytes}
    {manifest : ProjectionManifest} (h : parseManifest rules target raw = .ok manifest) :
    rules.sha256 raw = target.identity.manifestDigest ∧ rules.manifest.dump manifest = raw ∧
      manifest.toGenerationManifest = target.identity.bound := by
  unfold parseManifest at h
  split at h
  · cases h
  · next hdigest =>
      split at h
      · cases h
      · next found hfound =>
          split_ifs at h with hcanonical hbound hviewer
          cases h
          exact ⟨not_not.mp hdigest, not_not.mp hcanonical, not_not.mp hbound⟩

/-- A canonical manifest of the target is accepted. -/
theorem parseManifest_of_canonical {target : GenerationProjectionTarget} {raw : Bytes}
    {manifest : ProjectionManifest} (hdigest : rules.sha256 raw = target.identity.manifestDigest)
    (hload : rules.manifest.load? raw = some manifest) (hdump : rules.manifest.dump manifest = raw)
    (hbound : manifest.toGenerationManifest = target.identity.bound)
    (hviewer : ¬ (manifest.projectionClass = .viewer ∧
      questionsProvenanceJson ∈ manifest.paths)) :
    parseManifest rules target raw = .ok manifest := by
  rw [parseManifest, if_neg (not_not.mpr hdigest), hload]
  simp only
  rw [if_neg (not_not.mpr hdump), if_neg (not_not.mpr hbound), if_neg hviewer]

/-- The byte strings of a projection that are digested. -/
def VerifiedProjection.materials (projection : VerifiedProjection rules) : Set Bytes :=
  {material | material = projection.manifestJson ∨
    ∃ path, (path, material) ∈ projection.artifacts}

/-- Projections of one manifest have the artifacts of their digests. -/
theorem eq_of_listed {artifacts artifacts' : List (Text × Bytes)} {materials : Set Bytes}
    (hdistinct : Set.InjOn rules.sha256 materials)
    (hin : ∀ artifact ∈ artifacts, artifact.2 ∈ materials)
    (hin' : ∀ artifact ∈ artifacts', artifact.2 ∈ materials)
    (h : artifacts.map (fun artifact => (artifact.1, rules.sha256 artifact.2)) =
      artifacts'.map fun artifact => (artifact.1, rules.sha256 artifact.2)) :
    artifacts = artifacts' := by
  induction artifacts generalizing artifacts' with
  | nil => exact (List.map_eq_nil_iff.mp h.symm).symm
  | cons artifact artifacts ih =>
      cases artifacts' with
      | nil => cases h
      | cons artifact' artifacts' =>
          obtain ⟨hhead, hrest⟩ := List.cons.inj h
          obtain ⟨hpath, hdigest⟩ := Prod.mk.inj hhead
          have hbytes : artifact.2 = artifact'.2 :=
            hdistinct (hin _ List.mem_cons_self) (hin' _ List.mem_cons_self) hdigest
          refine congrArg₂ List.cons (Prod.ext hpath hbytes) (ih (fun a ha => ?_) (fun a ha => ?_)
            hrest)
          · exact hin a (List.mem_cons_of_mem _ ha)
          · exact hin' a (List.mem_cons_of_mem _ ha)

/-- A target has one verified projection. -/
theorem VerifiedProjection.unique {projection other : VerifiedProjection rules}
    (hdistinct : Set.InjOn rules.sha256 (projection.materials ∪ other.materials))
    (htarget : projection.target = other.target) : projection = other := by
  have hmanifestJson : projection.manifestJson = other.manifestJson := by
    refine hdistinct (Or.inl (Or.inl rfl)) (Or.inr (Or.inl rfl)) ?_
    rw [(parseManifest_ok projection.parsed).1, (parseManifest_ok other.parsed).1, htarget]
  have hmanifest : projection.manifest = other.manifest := by
    have hparsed := projection.parsed
    rw [htarget, hmanifestJson, other.parsed] at hparsed
    exact (Except.ok.inj hparsed).symm
  have hartifacts : projection.artifacts = other.artifacts := by
    refine eq_of_listed hdistinct (fun a ha => Or.inl (Or.inr ⟨a.1, ha⟩))
      (fun a ha => Or.inr (Or.inr ⟨a.1, ha⟩)) ?_
    rw [projection.listed, other.listed, hmanifest]
  obtain ⟨target, manifestJson, manifest, artifacts, parsed, listed⟩ := projection
  obtain ⟨target', manifestJson', manifest', artifacts', parsed', listed'⟩ := other
  cases htarget
  cases hmanifestJson
  cases hmanifest
  cases hartifacts
  rfl

end Client
end Nauro
