import Mathlib.Data.List.Pairwise
import Nauro.Core.JudgmentCommit

/-!
# Which committed generations are accepted

A committed generation is read as the texts of its paths.

* `mem_decisions_iff` — what an accepted generation holds.
-/

namespace Nauro
namespace Core

open Foundation

variable {E : Type}

/-! ## Decisions at paths -/

/-- The decision that a text holds at a path of `decisions/`. -/
def readDecision? (rt : Runtime E) (path text : Text) : Option (Decision E) :=
  if decisionsPrefix.isPrefixOf path then
    (parseDecision rt.tables rt.yaml text (path.drop decisionsPrefix.length)).toOption
  else none

/-- The decision that stands at a path, among the texts of the paths. -/
def HoldsDecision (rt : Runtime E) (texts : Text → Option Text) (path : Text) (d : Decision E) :
    Prop :=
  ∃ text, texts path = some text ∧ readDecision? rt path text = some d

/-- What a generation promises: decisions parse, under numbers that are positive, distinct and within
the counter. -/
structure WellFormed (rt : Runtime E) (counter : Nat) (texts : Text → Option Text) : Prop where
  parses : ∀ path text, texts path = some text → decisionsPrefix.isPrefixOf path = true →
    ∃ d, readDecision? rt path text = some d
  numbered : ∀ path d, HoldsDecision rt texts path d → 0 < d.num ∧ d.num ≤ counter
  distinct : ∀ path path' d d', HoldsDecision rt texts path d → HoldsDecision rt texts path' d' →
    d.num = d'.num → path = path'

theorem HoldsDecision.unique {rt : Runtime E} {texts : Text → Option Text} {path : Text}
    {d d' : Decision E} (h : HoldsDecision rt texts path d) (h' : HoldsDecision rt texts path d') :
    d = d' := by
  obtain ⟨text, htext, hread⟩ := h
  obtain ⟨text', htext', hread'⟩ := h'
  rw [htext] at htext'
  cases htext'
  exact Option.some.inj (hread.symm.trans hread')

/-- The decision of an artifact, with its stem. -/
def artifactDecision? (rt : Runtime E) (artifact : CommittedArtifact) : Option (ScannedDecision E) :=
  artifact.text.bind fun text => (readDecision? rt artifact.path text).map fun d =>
    ⟨removeMdSuffix (artifact.path.drop decisionsPrefix.length), d⟩

/-- An artifact that the loop passes. -/
structure ArtifactOk (rt : Runtime E) (artifact : CommittedArtifact) : Prop where
  utf8 : ∃ text, artifact.text = some text
  reads : decisionsPrefix.isPrefixOf artifact.path = true →
    ∃ scanned, artifactDecision? rt artifact = some scanned ∧ scanned.decision.num ≠ 0

theorem artifactDecision?_outside (rt : Runtime E) {artifact : CommittedArtifact}
    (h : decisionsPrefix.isPrefixOf artifact.path = false) : artifactDecision? rt artifact = none := by
  rw [artifactDecision?]
  cases artifact.text with
  | none => rfl
  | some text =>
      rw [Option.bind_some, readDecision?, h]
      rfl

/-- The numbers of the decisions so far. -/
def ParsedGeneration.numbers (parsed : ParsedGeneration E) : List Nat :=
  parsed.decisions.map fun scanned => scanned.decision.num

/-- One turn of the loop. -/
theorem parseArtifacts_cons_iff {rt : Runtime E} {artifact : CommittedArtifact}
    {rest : List CommittedArtifact} {parsed parsed' : ParsedGeneration E} :
    parseArtifacts rt parsed (artifact :: rest) = .ok parsed' ↔
      ArtifactOk rt artifact ∧
        (∀ scanned ∈ artifactDecision? rt artifact, scanned.decision.num ∉ parsed.numbers) ∧
        ∃ text, artifact.text = some text ∧ parseArtifacts rt
          ⟨parsed.current.put artifact.path text,
            parsed.decisions ++ (artifactDecision? rt artifact).toList⟩ rest = .ok parsed' := by
  rw [parseArtifacts]
  cases htext : artifact.text with
  | none => simp
  | some text =>
      simp only [Option.some.injEq, exists_eq_left']
      have hutf8 : ∃ text, artifact.text = some text := ⟨text, htext⟩
      cases hdecisions : decisionsPrefix.isPrefixOf artifact.path with
      | false =>
          have hnone := artifactDecision?_outside rt hdecisions
          have hok : ArtifactOk rt artifact := ⟨hutf8, fun h => (by rw [hdecisions] at h; cases h)⟩
          simp [hnone, hok]
      | true =>
          rw [Bool.not_true, if_neg Bool.false_ne_true]
          cases hread : parseDecision rt.tables rt.yaml text
              (artifact.path.drop decisionsPrefix.length) with
          | error error =>
              have hnone : artifactDecision? rt artifact = none := by
                rw [artifactDecision?, htext, Option.bind_some, readDecision?, hdecisions, if_pos rfl, hread]
                rfl
              have hnot : ¬ ArtifactOk rt artifact := by
                rintro ⟨-, h⟩
                obtain ⟨scanned, hscanned, -⟩ := h hdecisions
                rw [hnone] at hscanned
                cases hscanned
              simp [hnot]
          | ok d =>
              have hscanned : artifactDecision? rt artifact =
                  some ⟨removeMdSuffix (artifact.path.drop decisionsPrefix.length), d⟩ := by
                rw [artifactDecision?, htext, Option.bind_some, readDecision?, hdecisions, if_pos rfl, hread]
                rfl
              have hok : ArtifactOk rt artifact ↔ d.num ≠ 0 := by
                constructor
                · rintro ⟨-, h⟩
                  obtain ⟨scanned, hfound, hne⟩ := h hdecisions
                  rw [hscanned] at hfound
                  cases hfound
                  exact hne
                · exact fun hne => ⟨hutf8, fun _ => ⟨_, hscanned, hne⟩⟩
              have hany : (parsed.decisions.any fun other => other.decision.num == d.num) = true ↔
                  d.num ∈ parsed.numbers := by
                simp [ParsedGeneration.numbers]
              simp only [hok, hscanned, Option.mem_def, Option.some.injEq, forall_eq',
                Option.toList_some]
              split_ifs with hzero hdup
              · simp [hzero]
              · simp [hany.mp hdup]
              · simp [hzero, mt hany.mpr hdup]

theorem numbers_append (parsed : ParsedGeneration E) (current : Table Text Text)
    (more : List (ScannedDecision E)) :
    ParsedGeneration.numbers ⟨current, parsed.decisions ++ more⟩ =
      parsed.numbers ++ more.map fun scanned => scanned.decision.num :=
  List.map_append

theorem filterMap_cons_toList {α β : Type} (f : α → Option β) (a : α) (rest : List α) :
    (a :: rest).filterMap f = (f a).toList ++ rest.filterMap f := by
  rw [List.filterMap_cons]
  cases f a <;> rfl

/-- The loop over the artifacts succeeds exactly when each is passed and no number comes twice. -/
theorem parseArtifacts_ok_iff {rt : Runtime E} {artifacts : List CommittedArtifact}
    {parsed : ParsedGeneration E} (hparsed : parsed.numbers.Nodup) :
    (∃ parsed', parseArtifacts rt parsed artifacts = .ok parsed') ↔
      (∀ artifact ∈ artifacts, ArtifactOk rt artifact) ∧
        (parsed.numbers ++ (artifacts.filterMap (artifactDecision? rt)).map
          fun scanned => scanned.decision.num).Nodup := by
  induction artifacts generalizing parsed with
  | nil => simp [parseArtifacts, hparsed]
  | cons artifact rest ih =>
      simp only [parseArtifacts_cons_iff, List.forall_mem_cons, filterMap_cons_toList, List.map_append]
      have hone : ((artifactDecision? rt artifact).toList.map fun scanned =>
          scanned.decision.num).Nodup := by
        cases artifactDecision? rt artifact with
        | none => exact List.nodup_nil
        | some scanned => exact List.nodup_singleton _
      have hnext : (parsed.numbers ++ (artifactDecision? rt artifact).toList.map
          fun scanned => scanned.decision.num).Nodup ↔
          ∀ scanned ∈ artifactDecision? rt artifact, scanned.decision.num ∉ parsed.numbers := by
        rw [List.nodup_append]
        constructor
        · rintro ⟨-, -, h⟩ scanned hscanned hin
          refine h _ hin _ (List.mem_map.mpr ⟨scanned, ?_, rfl⟩) rfl
          exact Option.mem_toList.mpr hscanned
        · intro h
          refine ⟨hparsed, hone, fun a ha b hb => ?_⟩
          obtain ⟨scanned, hscanned, rfl⟩ := List.mem_map.mp hb
          rintro rfl
          exact h scanned (Option.mem_toList.mp hscanned) ha
      constructor
      · rintro ⟨parsed', hok, hfresh, text, -, hrest⟩
        have hnodup := hnext.mpr hfresh
        rw [← numbers_append parsed (parsed.current.put artifact.path text)] at hnodup
        obtain ⟨hall, hwhole⟩ := (ih hnodup).mp ⟨parsed', hrest⟩
        rw [numbers_append, List.append_assoc] at hwhole
        exact ⟨⟨hok, hall⟩, hwhole⟩
      · rintro ⟨⟨hok, hall⟩, hwhole⟩
        obtain ⟨text, htext⟩ := hok.utf8
        rw [← List.append_assoc] at hwhole
        have hnodup := (List.nodup_append.mp hwhole).1
        have hfresh := hnext.mp hnodup
        rw [← numbers_append parsed (parsed.current.put artifact.path text)] at hnodup hwhole
        obtain ⟨parsed', hrest⟩ := (ih hnodup).mpr ⟨hall, hwhole⟩
        exact ⟨parsed', hok, hfresh, text, htext, hrest⟩

/-- What the loop collects. -/
theorem parseArtifacts_decisions {rt : Runtime E} {artifacts : List CommittedArtifact}
    {parsed parsed' : ParsedGeneration E} (h : parseArtifacts rt parsed artifacts = .ok parsed') :
    parsed'.decisions = parsed.decisions ++ artifacts.filterMap (artifactDecision? rt) := by
  induction artifacts generalizing parsed with
  | nil =>
      cases h
      exact (List.append_nil _).symm
  | cons artifact rest ih =>
      obtain ⟨-, -, text, -, hrest⟩ := parseArtifacts_cons_iff.mp h
      rw [ih hrest, filterMap_cons_toList, List.append_assoc]

/-! ## Accepted generations -/

/-- The text at each path, of artifacts that are all UTF-8. -/
def CommittedGeneration.texts (generation : CommittedGeneration) : Text → Option Text :=
  generation.text?

def CommittedGeneration.IsUtf8 (generation : CommittedGeneration) : Prop :=
  ∀ artifact ∈ generation.artifacts, ∃ text, artifact.text = some text

/-- The decision of an artifact is the one that stands at its path. -/
theorem artifactDecision?_eq_some {rt : Runtime E} {generation : CommittedGeneration}
    {artifact : CommittedArtifact} (hin : artifact ∈ generation.artifacts)
    {scanned : ScannedDecision E} :
    artifactDecision? rt artifact = some scanned ↔
      HoldsDecision rt generation.texts artifact.path scanned.decision ∧
        scanned.stem = removeMdSuffix (artifact.path.drop decisionsPrefix.length) := by
  have htexts : ∀ text, artifact.text = some text ↔ generation.texts artifact.path = some text := by
    intro text
    rw [CommittedGeneration.texts, generation.text?_eq_some_iff]
    constructor
    · intro h
      obtain ⟨path, content⟩ := artifact
      cases h
      exact hin
    · intro h
      exact congrArg CommittedArtifact.text
        (List.inj_on_of_nodup_map generation.uniquePaths hin h rfl)
  rw [artifactDecision?, Option.bind_eq_some_iff]
  constructor
  · rintro ⟨text, htext, hread⟩
    obtain ⟨d, hd, rfl⟩ := Option.map_eq_some_iff.mp hread
    exact ⟨⟨text, (htexts text).mp htext, hd⟩, rfl⟩
  · rintro ⟨⟨text, htext, hread⟩, hstem⟩
    refine ⟨text, (htexts text).mpr htext, ?_⟩
    rw [hread, Option.map_some, ← hstem]

/-- What an accepted generation holds. -/
theorem mem_decisions_iff {rt : Runtime E} {generation : CommittedGeneration}
    {parsed : ParsedGeneration E} (h : parseCommittedGeneration rt generation = .ok parsed)
    {scanned : ScannedDecision E} :
    scanned ∈ parsed.decisions ↔ ∃ path, HoldsDecision rt generation.texts path scanned.decision ∧
      scanned.stem = removeMdSuffix (path.drop decisionsPrefix.length) := by
  unfold parseCommittedGeneration at h
  simp only at h
  split at h
  · cases h
  · next walked hwalk =>
      split_ifs at h
      cases h
      have hperm := List.perm_insertionSort (fun a b : CommittedArtifact =>
        textLe a.path b.path = true) generation.artifacts
      rw [parseArtifacts_decisions hwalk, List.nil_append, List.mem_filterMap]
      constructor
      · rintro ⟨artifact, hin, hscanned⟩
        exact ⟨artifact.path, (artifactDecision?_eq_some (hperm.mem_iff.mp hin)).mp hscanned⟩
      · rintro ⟨path, hholds, hstem⟩
        obtain ⟨text, htext, -⟩ := id hholds
        have hin := generation.text?_eq_some_iff.mp htext
        exact ⟨_, hperm.mem_iff.mpr hin, (artifactDecision?_eq_some hin).mpr ⟨hholds, hstem⟩⟩

/-- The numbers of distinct artifacts are distinct. -/
theorem nodup_numbers_iff {rt : Runtime E} {artifacts : List CommittedArtifact}
    (hunique : artifacts.Nodup) :
    ((artifacts.filterMap (artifactDecision? rt)).map fun scanned => scanned.decision.num).Nodup ↔
      ∀ a ∈ artifacts, ∀ b ∈ artifacts, ∀ scanned ∈ artifactDecision? rt a,
        ∀ scanned' ∈ artifactDecision? rt b, scanned.decision.num = scanned'.decision.num → a = b := by
  rw [List.Nodup, List.pairwise_map, List.pairwise_filterMap]
  constructor
  · intro h a ha b hb scanned hscanned scanned' hscanned' hnum
    by_contra hne
    have hsymm : Std.Symm fun a b : CommittedArtifact => ∀ scanned,
        artifactDecision? rt a = some scanned → ∀ scanned', artifactDecision? rt b = some scanned' →
          scanned.decision.num ≠ scanned'.decision.num :=
      ⟨fun _ _ hab _ hy _ hx heq => hab _ hx _ hy heq.symm⟩
    exact h.forall ha hb hne _ hscanned _ hscanned' hnum
  · intro h
    refine hunique.pairwise_of_forall_ne fun a ha b hb hne scanned hscanned scanned' hscanned' hnum => ?_
    exact hne (h a ha b hb scanned hscanned scanned' hscanned' hnum)

theorem le_foldr_max {numbers : List Nat} {counter : Nat} :
    numbers.foldr max 0 ≤ counter ↔ ∀ number ∈ numbers, number ≤ counter := by
  induction numbers with
  | nil => simp
  | cons first rest ih => rw [List.foldr_cons, max_le_iff, ih, List.forall_mem_cons]

/-- The loop passes exactly the well-formed artifacts, the counter aside. -/
theorem artifacts_ok_iff {rt : Runtime E} {generation : CommittedGeneration} :
    ((∀ artifact ∈ generation.artifacts, ArtifactOk rt artifact) ∧
        ((generation.artifacts.filterMap (artifactDecision? rt)).map
          fun scanned => scanned.decision.num).Nodup ∧
        ∀ scanned ∈ generation.artifacts.filterMap (artifactDecision? rt),
          scanned.decision.num ≤ generation.decisionCounter) ↔
      generation.IsUtf8 ∧ WellFormed rt generation.decisionCounter generation.texts := by
  have hheld : ∀ {path : Text} {d : Decision E}, HoldsDecision rt generation.texts path d →
      ∃ artifact ∈ generation.artifacts, artifact.path = path ∧ artifactDecision? rt artifact =
        some ⟨removeMdSuffix (path.drop decisionsPrefix.length), d⟩ := by
    intro path d hholds
    obtain ⟨text, htext, -⟩ := id hholds
    have hin := generation.text?_eq_some_iff.mp htext
    exact ⟨_, hin, rfl, (artifactDecision?_eq_some hin).mpr ⟨hholds, rfl⟩⟩
  rw [nodup_numbers_iff (List.Nodup.of_map _ generation.uniquePaths)]
  constructor
  · rintro ⟨hok, hdistinct, hcounter⟩
    refine ⟨fun artifact hin => (hok artifact hin).utf8, fun path text htext hdecisions => ?_,
      fun path d hholds => ?_, fun path path' d d' hholds hholds' hnum => ?_⟩
    · have hin := generation.text?_eq_some_iff.mp htext
      obtain ⟨scanned, hscanned, -⟩ := (hok _ hin).reads hdecisions
      obtain ⟨⟨text', htext', hread⟩, -⟩ := (artifactDecision?_eq_some hin).mp hscanned
      have hsame : text' = text := Option.some.inj (htext'.symm.trans htext)
      exact ⟨scanned.decision, hsame ▸ hread⟩
    · obtain ⟨artifact, hin, hpath, hscanned⟩ := hheld hholds
      refine ⟨Nat.pos_of_ne_zero ?_, hcounter _ (List.mem_filterMap.mpr ⟨artifact, hin, hscanned⟩)⟩
      have hdecisions : decisionsPrefix.isPrefixOf artifact.path = true := by
        rw [← Bool.not_eq_false]
        intro hnot
        rw [artifactDecision?_outside rt hnot] at hscanned
        cases hscanned
      obtain ⟨found, hfound, hne⟩ := (hok artifact hin).reads hdecisions
      rw [hscanned] at hfound
      cases hfound
      exact hne
    · obtain ⟨artifact, hin, rfl, hscanned⟩ := hheld hholds
      obtain ⟨artifact', hin', rfl, hscanned'⟩ := hheld hholds'
      rw [hdistinct artifact hin artifact' hin' _ hscanned _ hscanned' hnum]
  · rintro ⟨hutf8, hwell⟩
    have hholds : ∀ {artifact scanned}, artifact ∈ generation.artifacts →
        artifactDecision? rt artifact = some scanned →
        HoldsDecision rt generation.texts artifact.path scanned.decision :=
      fun hin hscanned => ((artifactDecision?_eq_some hin).mp hscanned).1
    refine ⟨fun artifact hin => ⟨hutf8 artifact hin, fun hdecisions => ?_⟩,
      fun a ha b hb scanned hscanned scanned' hscanned' hnum => ?_, fun scanned hin => ?_⟩
    · obtain ⟨text, htext⟩ := hutf8 artifact hin
      have htexts : generation.texts artifact.path = some text := by
        refine generation.text?_eq_some_iff.mpr ?_
        obtain ⟨path, content⟩ := artifact
        cases htext
        exact hin
      obtain ⟨d, hread⟩ := hwell.parses _ _ htexts hdecisions
      have hholds : HoldsDecision rt generation.texts artifact.path d := ⟨text, htexts, hread⟩
      exact ⟨⟨_, d⟩, (artifactDecision?_eq_some hin).mpr ⟨hholds, rfl⟩,
        (hwell.numbered _ _ hholds).1.ne'⟩
    · exact List.inj_on_of_nodup_map generation.uniquePaths ha hb
        (hwell.distinct _ _ _ _ (hholds ha hscanned) (hholds hb hscanned') hnum)
    · obtain ⟨artifact, hin, hscanned⟩ := List.mem_filterMap.mp hin
      exact (hwell.numbered _ _ (hholds hin hscanned)).2

/-- Exactly the well-formed generations of UTF-8 texts are accepted. -/
theorem parse_ok_iff {rt : Runtime E} {generation : CommittedGeneration} :
    (∃ parsed, parseCommittedGeneration rt generation = .ok parsed) ↔
      generation.IsUtf8 ∧ WellFormed rt generation.decisionCounter generation.texts := by
  have hperm := List.perm_insertionSort (fun a b : CommittedArtifact =>
    textLe a.path b.path = true) generation.artifacts
  have hstart : (ParsedGeneration.numbers (⟨Table.empty, []⟩ : ParsedGeneration E)).Nodup :=
    List.nodup_nil
  have hloop : (∃ walked, parseArtifacts rt ⟨Table.empty, []⟩ (generation.artifacts.insertionSort
      fun a b => textLe a.path b.path = true) = .ok walked) ↔ _ := parseArtifacts_ok_iff hstart
  have hnumbers := (hperm.filterMap (artifactDecision? rt)).map fun scanned => scanned.decision.num
  rw [← artifacts_ok_iff, ← hnumbers.nodup_iff]
  simp only [← hperm.mem_iff, ← (hperm.filterMap (artifactDecision? rt)).mem_iff]
  unfold parseCommittedGeneration
  simp only
  constructor
  · rintro ⟨parsed, h⟩
    split at h
    · cases h
    · next walked hwalk =>
        split_ifs at h with hcounter
        obtain ⟨hok, hnodup⟩ := hloop.mp ⟨walked, hwalk⟩
        rw [parseArtifacts_decisions hwalk, not_lt, List.nil_append, le_foldr_max,
          List.forall_mem_map] at hcounter
        exact ⟨hok, hnodup, hcounter⟩
  · rintro ⟨hok, hnodup, hcounter⟩
    obtain ⟨walked, hwalk⟩ := hloop.mpr ⟨hok, hnodup⟩
    rw [hwalk]
    simp only
    rw [if_neg]
    · exact ⟨walked, rfl⟩
    · rw [parseArtifacts_decisions hwalk, not_lt, List.nil_append, le_foldr_max, List.forall_mem_map]
      exact hcounter

end Core
end Nauro
