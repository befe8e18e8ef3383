import Nauro.Core.State
import Nauro.Sync.MergeLaws

/-!
# Merging two state histories

Two replicas archive their states independently and a pull merges the two history files.
The union works on lines, and every archived snapshot ends with the same separator line, so
two different snapshots never both survive.

* `history_merge_keeps_snapshots` — the exact condition.
-/

namespace Nauro
namespace Sync
namespace HistoryMerge

open Foundation
open Foundation.EscapedUtf8
open Foundation.KeepFirst
open Foundation.SectionedDocument
open Nauro.Core
open Nauro.Core.State
open Nauro.Sync.Merge

/-- The bytes of the history file. -/
def historyBytes (files : StateFiles) : List UInt8 :=
  utf8 files.historyText

/-- The section a snapshot is archived as. -/
def snapshotSection (s : Snapshot) : Text × List Text :=
  (s.header, s.bodyLines)

/-- The snapshot stands in the file as a section: its heading, then its body line for line,
then at most blank lines. -/
def IntactIn (bytes : List UInt8) (s : Snapshot) : Prop :=
  ∃ blanks : List (List UInt8), (∀ line ∈ blanks, line = []) ∧
    (utf8 s.header, s.bodyLines.map utf8 ++ blanks) ∈ (byteDocument bytes).sections

/-- Whether a line of text begins with `"## "`. -/
def startsTextSection (line : Text) : Bool :=
  "## ".toList.isPrefixOf line

/-- What a section must satisfy for a merge to leave it whole: its lines do not repeat, none
reads as a heading, and none stands in the common ancestor already. -/
structure Survives (ancestor : Text) (archived : Text × List Text) : Prop where
  distinct : (archived.2.filter fun line => !line.isEmpty).Nodup
  plain : ∀ line ∈ archived.2, startsTextSection line = false
  fresh : ∀ line ∈ archived.2, line ≠ [] → line ∉ splitLines ancestor
  fresh_header : archived.1 ∉ splitLines ancestor

/-- Nothing was archived, or one surviving section was, however often. -/
def OneSnapshot (ancestor : Text) (archived : List Snapshot) : Prop :=
  archived = [] ∨ ∃ only, Survives ancestor only ∧ ∀ s ∈ archived, snapshotSection s = only

/-! ## The merge on text lines -/

theorem startsByteSection_utf8 (line : Text) :
    startsByteSection (utf8 line) = startsTextSection line := by
  rw [← startsSection_decode, decode_utf8, Bool.eq_iff_iff]
  unfold startsSection startsTextSection sectionPrefix
  rw [List.isPrefixOf_iff_prefix, List.isPrefixOf_iff_prefix]
  constructor
  · rintro ⟨rest, hrest⟩
    obtain ⟨front, back, rfl, hfront, -⟩ := List.map_eq_append_iff.mp hrest.symm
    have hinj : Function.Injective (List.map Point.scalar) :=
      List.map_injective_iff.mpr fun _ _ heq => Point.scalar.inj heq
    exact ⟨back, by rw [hinj hfront]⟩
  · rintro ⟨rest, rfl⟩
    exact ⟨rest.map .scalar, by rw [List.map_append]⟩

/-- A text cut at its section headers. -/
def textDocument (text : Text) : Document Text :=
  cut startsTextSection (LineText.documentLines '\n' text)

/-- The union of two texts. -/
def textUnion (localText remoteText : Text) : Document Text :=
  unite List.isEmpty (textDocument localText) (textDocument remoteText)

theorem byteDocument_utf8 (text : Text) :
    byteDocument (utf8 text) = (textDocument text).map utf8 := by
  unfold byteDocument textDocument
  rw [documentLines_utf8]
  exact cut_map startsByteSection_utf8 _

theorem isEmpty_utf8 (line : Text) : (utf8 line).isEmpty = line.isEmpty := by
  rw [← isEmpty_decode, decode_utf8, List.isEmpty_map]

theorem byteUnion_utf8 (localText remoteText : Text) :
    byteUnion (utf8 localText) (utf8 remoteText) = (textUnion localText remoteText).map utf8 := by
  unfold byteUnion textUnion
  rw [byteDocument_utf8, byteDocument_utf8, unite_map utf8_injective isEmpty_utf8]

theorem textUnion_wellFormed (localText remoteText : Text) :
    (textUnion localText remoteText).WellFormed startsTextSection :=
  unite_wellFormed (cut_wellFormed _ _) (cut_wellFormed _ _)

/-- A section of the union that starts as the snapshot does. -/
def IntactInUnion (localText remoteText : Text) (s : Snapshot) : Prop :=
  ∃ blanks : List Text, (∀ line ∈ blanks, line = []) ∧
    (s.header, s.bodyLines ++ blanks) ∈ (textUnion localText remoteText).sections

theorem mem_sections_map_utf8 {header : Text} {body : List (List UInt8)} {d : Document Text} :
    (utf8 header, body) ∈ (d.map utf8).sections ↔
      ∃ lines, body = lines.map utf8 ∧ (header, lines) ∈ d.sections := by
  constructor
  · intro hmem
    obtain ⟨⟨h, lines⟩, ht, heq⟩ := List.mem_map.mp hmem
    obtain ⟨hheader, hbody⟩ := Prod.mk.inj heq
    have hsame : h = header := utf8_injective hheader
    subst hsame
    exact ⟨lines, hbody.symm, ht⟩
  · rintro ⟨lines, rfl, hmem⟩
    exact List.mem_map.mpr ⟨(header, lines), hmem, rfl⟩

theorem utf8_eq_nil {line : Text} (h : utf8 line = []) : line = [] :=
  utf8_injective (h.trans rfl)

theorem separator_mem_bodyLines (s : Snapshot) : "---".toList ∈ s.bodyLines := by
  simp [Snapshot.bodyLines]

theorem bodyLines_append_inj {s t : Snapshot} {xs ys : List Text}
    (hxs : ∀ line ∈ xs, line = []) (hys : ∀ line ∈ ys, line = [])
    (h : s.bodyLines ++ xs = t.bodyLines ++ ys) : s.bodyLines = t.bodyLines := by
  have hpad : ∀ (u : Snapshot) (zs : List Text), (∀ line ∈ zs, line = []) →
      (u.bodyLines ++ zs).rdropWhile List.isEmpty = u.bodyLines := by
    intro u zs hzs
    rw [Trim.rdropWhile_append_of_all (fun line hline => by simp [hzs line hline])]
    apply Trim.rdropWhile_eq_self
    intro line hline
    have hlast : u.bodyLines.getLast? = some "---".toList := by
      rw [Snapshot.bodyLines, ← List.cons_append, List.getLast?_append_of_ne_nil _ (by simp)]
      rfl
    rw [hlast] at hline
    rw [← Option.some.inj hline]
    rfl
  rw [← hpad s xs hxs, h, hpad t ys hys]

theorem intactIn_iff (localText remoteText : Text) (s : Snapshot) :
    IntactIn (setUnionMarkdown (utf8 localText) (utf8 remoteText)) s ↔
      IntactInUnion localText remoteText s := by
  have hcut : cut startsByteSection
        (byteUnion (utf8 localText) (utf8 remoteText)).flatten =
      byteUnion (utf8 localText) (utf8 remoteText) :=
    cut_flatten (byteUnion_wellFormed _ _)
  constructor
  · rintro ⟨blanks, hblanks, hmem⟩
    have hunion : ∃ more : List (List UInt8), (∀ line ∈ more, line = []) ∧
        (utf8 s.header, s.bodyLines.map utf8 ++ more) ∈
          (byteUnion (utf8 localText) (utf8 remoteText)).sections := by
      rcases exists_section_byteUnion hmem with h | h
      · exact ⟨blanks, hblanks, h⟩
      · refine ⟨blanks ++ [[]], ?_, by rwa [← List.append_assoc]⟩
        intro line hline
        rcases List.mem_append.mp hline with hin | hin
        · exact hblanks line hin
        · exact List.mem_singleton.mp hin
    obtain ⟨more, hmore, hsection⟩ := hunion
    rw [byteUnion_utf8, mem_sections_map_utf8] at hsection
    obtain ⟨lines, hlines, hin⟩ := hsection
    obtain ⟨front, back, rfl, hfront, hback⟩ := List.map_eq_append_iff.mp hlines.symm
    have hinj : Function.Injective (List.map utf8) := List.map_injective_iff.mpr utf8_injective
    rw [hinj hfront] at hin
    refine ⟨back, ?_, hin⟩
    intro line hline
    apply utf8_eq_nil
    apply hmore
    rw [← hback]
    exact List.mem_map_of_mem hline
  · rintro ⟨blanks, hblanks, hmem⟩
    have hbytes : (utf8 s.header, s.bodyLines.map utf8 ++ blanks.map utf8) ∈
        (byteUnion (utf8 localText) (utf8 remoteText)).sections := by
      rw [byteUnion_utf8, mem_sections_map_utf8]
      exact ⟨s.bodyLines ++ blanks, by rw [List.map_append], hmem⟩
    have hblankBytes : ∀ line ∈ blanks.map utf8, line = [] := by
      intro line hline
      obtain ⟨text, htext, rfl⟩ := List.mem_map.mp hline
      rw [hblanks text htext]
      rfl
    rw [← hcut] at hbytes
    rcases documentLines_setUnionMarkdown (utf8 localText) (utf8 remoteText) with h | h
    · rw [h] at hbytes
      exact ⟨blanks.map utf8, hblankBytes, hbytes⟩
    · rw [h] at hbytes
      rcases exists_of_mem_sections_cut_append_plain rfl hbytes with hsame | ⟨front, heq, hin⟩
      · exact ⟨blanks.map utf8, hblankBytes, hsame⟩
      · rcases List.eq_nil_or_concat (blanks.map utf8) with hnil | ⟨init, last, hconcat⟩
        · exfalso
          rw [hnil, List.append_nil] at heq
          have hlast : (s.bodyLines.map utf8).getLast? = some (utf8 "---".toList) := by
            rw [List.getLast?_map, Snapshot.bodyLines, ← List.cons_append,
              List.getLast?_append_of_ne_nil _ (by simp)]
            rfl
          rw [heq, List.getLast?_concat] at hlast
          exact absurd (utf8_eq_nil (Option.some.inj hlast).symm) (by decide)
        · rw [hconcat, List.concat_eq_append] at heq hblankBytes
          rw [← List.append_assoc] at heq
          have hfront := List.append_inj_left' heq rfl
          refine ⟨init, fun line hline => hblankBytes line (List.mem_append_left _ hline), ?_⟩
          rw [hfront]
          exact hin

/-! ## What the history files hold -/

theorem startsTextSection_header (s : Snapshot) : startsTextSection s.header = true := by
  rw [startsTextSection, List.isPrefixOf_iff_prefix]
  exact List.prefix_append _ _

/-- A history is the ancestor's lines followed by the archived sections. -/
theorem documentLines_history {ancestor : Text} (hended : LineText.Terminated '\n' ancestor)
    (archived : List Snapshot) :
    ∃ old : List Text, (∀ line, line ≠ [] → (line ∈ old ↔ line ∈ splitLines ancestor)) ∧
      LineText.documentLines '\n' (ancestor ++ archived.flatMap Snapshot.entry) =
        old ++ flattenSections (archived.map snapshotSection) := by
  have hentries : LineText.Terminated '\n' (archived.flatMap Snapshot.entry) ∧
      LineText.terminatedLines '\n' (archived.flatMap Snapshot.entry) =
        flattenSections (archived.map snapshotSection) := by
    induction archived with
    | nil => exact ⟨Or.inl rfl, rfl⟩
    | cons s rest ih =>
        obtain ⟨hrest, hlines⟩ := ih
        refine ⟨?_, ?_⟩
        · rw [List.flatMap_cons]
          exact LineText.terminated_append (terminated_entry s) hrest
        · rw [List.flatMap_cons, LineText.terminatedLines_append (terminated_entry s), hlines,
            LineText.terminatedLines_of_ne_nil (entry_ne_nil s), documentLines_entry]
          simp [snapshotSection]
  by_cases hempty : ancestor ++ archived.flatMap Snapshot.entry = []
  · obtain ⟨rfl, harchived⟩ := List.append_eq_nil_iff.mp hempty
    have hnil : archived = [] := by
      cases archived with
      | nil => rfl
      | cons s rest =>
          rw [List.flatMap_cons, List.append_eq_nil_iff] at harchived
          exact absurd harchived.1 (entry_ne_nil s)
    subst hnil
    refine ⟨[[]], ?_, rfl⟩
    intro line hline
    simp [splitLines, hline]
  · refine ⟨LineText.terminatedLines '\n' ancestor, ?_, ?_⟩
    · intro line hline
      by_cases hancestor : ancestor = []
      · subst hancestor
        simp [LineText.terminatedLines, splitLines, hline]
      · rw [LineText.terminatedLines_of_ne_nil hancestor, LineText.mem_documentLines hline]
        rfl
    · rw [← LineText.terminatedLines_of_ne_nil hempty, LineText.terminatedLines_append hended,
        hentries.2]

/-- The document of a history whose archived bodies hold no heading. -/
theorem textDocument_history {ancestor : Text} (hended : LineText.Terminated '\n' ancestor)
    (archived : List Snapshot)
    (hplain : ∀ s ∈ archived, ∀ line ∈ s.bodyLines, startsTextSection line = false) :
    ∃ old : Document Text, old.WellFormed startsTextSection ∧
      (∀ line, line ≠ [] → (line ∈ old.flatten ↔ line ∈ splitLines ancestor)) ∧
      textDocument (ancestor ++ archived.flatMap Snapshot.entry) =
        { preamble := old.preamble
          sections := old.sections ++ archived.map snapshotSection } := by
  obtain ⟨lines, hlines, hdocument⟩ := documentLines_history hended archived
  refine ⟨cut startsTextSection lines, cut_wellFormed _ lines, ?_, ?_⟩
  · intro line hline
    rw [flatten_cut]
    exact hlines line hline
  · unfold textDocument
    rw [hdocument]
    apply cut_append_flattenSections
    · intro section_ hsection
      obtain ⟨s, -, rfl⟩ := List.mem_map.mp hsection
      exact startsTextSection_header s
    · intro section_ hsection
      obtain ⟨s, hs, rfl⟩ := List.mem_map.mp hsection
      exact hplain s hs

/-! ## Snapshots that survive -/

theorem bodyUnder_copies {header : Text} {lines : List Text} {archived : List Snapshot}
    (hsame : ∀ s ∈ archived, snapshotSection s = (header, lines)) :
    bodyUnder header (archived.map snapshotSection) = archived.flatMap fun _ => lines := by
  induction archived with
  | nil => rfl
  | cons s rest ih =>
      obtain ⟨hs, hrest⟩ := List.forall_mem_cons.mp hsame
      rw [List.map_cons, hs, bodyUnder_cons_self, ih hrest, List.flatMap_cons]

/-- A body of distinct new lines is kept; copies of it leave blank lines only. -/
theorem keepFrom_copies {seen lines : List Text} {copies : List Snapshot}
    (hdistinct : (lines.filter fun line => !line.isEmpty).Nodup)
    (hfresh : ∀ line ∈ lines, line ≠ [] → line ∉ seen) (hcopies : copies ≠ []) :
    ∃ blanks : List Text, (∀ line ∈ blanks, line = []) ∧
      keepFrom List.isEmpty seen (copies.flatMap fun _ => lines) = lines ++ blanks := by
  cases copies with
  | nil => exact absurd rfl hcopies
  | cons first rest =>
      have hkept : keepFrom List.isEmpty seen lines = lines := by
        refine keepFrom_eq_self_iff.mpr ⟨hdistinct, ?_⟩
        intro line hline hblank
        refine hfresh line hline ?_
        rintro rfl
        cases hblank
      refine ⟨keepFrom List.isEmpty (seen ++ lines) (rest.flatMap fun _ => lines), ?_, ?_⟩
      · intro line hline
        obtain ⟨hmem, hkeep⟩ := mem_keepFrom.mp hline
        obtain ⟨-, -, hin⟩ := List.mem_flatMap.mp hmem
        rcases hkeep with hblank | hnew
        · exact List.isEmpty_iff.mp hblank
        · exact absurd (List.mem_append_right _ hin) hnew
      · rw [List.flatMap_cons, keepFrom_append, hkept]

theorem intactInUnion_of_survives {ancestor : Text} {only : Text × List Text}
    {localArchived remoteArchived : List Snapshot}
    (hended : LineText.Terminated '\n' ancestor) (honly : Survives ancestor only)
    (hsame : ∀ s ∈ localArchived ++ remoteArchived, snapshotSection s = only)
    {s : Snapshot} (hs : s ∈ localArchived ++ remoteArchived) :
    IntactInUnion (ancestor ++ localArchived.flatMap Snapshot.entry)
      (ancestor ++ remoteArchived.flatMap Snapshot.entry) s := by
  obtain ⟨header, lines⟩ := only
  have hsection : (s.header, s.bodyLines) = (header, lines) := hsame s hs
  obtain ⟨hheader, hlines⟩ := Prod.mk.inj hsection
  have hplain : ∀ t ∈ localArchived ++ remoteArchived, ∀ line ∈ t.bodyLines,
      startsTextSection line = false := by
    intro t ht line hline
    have htlines : t.bodyLines = lines := congrArg Prod.snd (hsame t ht)
    exact honly.plain line (htlines ▸ hline)
  obtain ⟨oldL, hwellL, hmemL, hdocL⟩ := textDocument_history hended
    localArchived fun t ht => hplain t (List.mem_append_left _ ht)
  obtain ⟨oldR, hwellR, hmemR, hdocR⟩ := textDocument_history hended
    remoteArchived fun t ht => hplain t (List.mem_append_right _ ht)
  have hstart : startsTextSection header = true := hheader ▸ startsTextSection_header s
  have hne : header ≠ [] := by
    rintro rfl
    cases hstart
  have hnotL : header ∉ headers oldL.sections := fun hmem =>
    honly.fresh_header ((hmemL header hne).mp
      (List.mem_append_right _ (mem_flattenSections.mpr (Or.inl hmem))))
  have hnotR : header ∉ headers oldR.sections := fun hmem =>
    honly.fresh_header ((hmemR header hne).mp
      (List.mem_append_right _ (mem_flattenSections.mpr (Or.inl hmem))))
  have hbody : bodyUnder header (oldL.sections ++ localArchived.map snapshotSection ++
      (oldR.sections ++ remoteArchived.map snapshotSection)) =
        (localArchived ++ remoteArchived).flatMap fun _ => lines := by
    rw [bodyUnder_append, bodyUnder_append, bodyUnder_append, bodyUnder_eq_nil hnotL,
      bodyUnder_eq_nil hnotR, List.flatMap_append,
      bodyUnder_copies fun t ht => hsame t (List.mem_append_left _ ht),
      bodyUnder_copies fun t ht => hsame t (List.mem_append_right _ ht)]
    rfl
  have hgroup : (header, (localArchived ++ remoteArchived).flatMap fun _ => lines) ∈
      group (oldL.sections ++ localArchived.map snapshotSection ++
        (oldR.sections ++ remoteArchived.map snapshotSection)) := by
    rw [← hbody]
    refine List.mem_map.mpr ⟨header, ?_, rfl⟩
    rw [mem_keepFirst]
    have hin : (header, lines) ∈ (localArchived ++ remoteArchived).map snapshotSection :=
      List.mem_map.mpr ⟨s, hs, hsection⟩
    rw [List.map_append] at hin
    apply List.mem_map_of_mem (f := Prod.fst) (a := (header, lines))
    simp only [List.mem_append] at hin ⊢
    tauto
  obtain ⟨before, after, hsplit⟩ := List.append_of_mem hgroup
  have hnodup := nodup_headers_group (oldL.sections ++ localArchived.map snapshotSection ++
    (oldR.sections ++ remoteArchived.map snapshotSection))
  rw [hsplit] at hnodup
  have hbefore : header ∉ headers before := by
    simp only [headers, List.map_append, List.map_cons] at hnodup
    intro hmem
    exact (List.nodup_append.mp hnodup).2.2 header hmem header (List.mem_cons_self ..) rfl
  have hfresh : ∀ line ∈ lines, line ≠ [] →
      line ∉ oldL.preamble ++ oldR.preamble ++ flattenSections before := by
    intro line hline hlineNe hmem
    have hancestor := honly.fresh line hline hlineNe
    rcases List.mem_append.mp hmem with hpre | hsec
    · rcases List.mem_append.mp hpre with h | h
      · exact hancestor ((hmemL line hlineNe).mp (List.mem_append_left _ h))
      · exact hancestor ((hmemR line hlineNe).mp (List.mem_append_left _ h))
    · rcases mem_flattenSections.mp hsec with hhead | ⟨t, ht, hin⟩
      · have hmarked : line ∈ headers (group (oldL.sections ++
            localArchived.map snapshotSection ++
              (oldR.sections ++ remoteArchived.map snapshotSection))) := by
          rw [hsplit, headers, List.map_append]
          exact List.mem_append_left _ hhead
        rw [mem_headers_group] at hmarked
        have hnotplain := honly.plain line hline
        obtain ⟨u, hu, rfl⟩ := List.mem_map.mp hmarked
        simp only [List.mem_append, List.mem_map] at hu
        rcases hu with (hu | ⟨v, -, rfl⟩) | (hu | ⟨v, -, rfl⟩)
        · rw [hwellL.header_marked u hu] at hnotplain
          cases hnotplain
        · rw [snapshotSection, startsTextSection_header] at hnotplain
          cases hnotplain
        · rw [hwellR.header_marked u hu] at hnotplain
          cases hnotplain
        · rw [snapshotSection, startsTextSection_header] at hnotplain
          cases hnotplain
      · have htgroup : t ∈ group (oldL.sections ++ localArchived.map snapshotSection ++
            (oldR.sections ++ remoteArchived.map snapshotSection)) := by
          rw [hsplit]
          exact List.mem_append_left _ ht
        have htbody : t.2 = bodyUnder t.1 _ := body_eq_of_mem_group htgroup
        rw [htbody] at hin
        obtain ⟨found, hfound, hinFound⟩ := mem_bodyUnder.mp hin
        have hcopy : ∀ v ∈ localArchived ++ remoteArchived,
            snapshotSection v ≠ (t.1, found) := by
          intro v hv heq
          rw [hsame v hv] at heq
          exact hbefore ((Prod.mk.inj heq).1 ▸ List.mem_map_of_mem (f := Prod.fst) ht)
        simp only [List.mem_append, List.mem_map] at hfound
        rcases hfound with (h | ⟨v, hv, heq⟩) | (h | ⟨v, hv, heq⟩)
        · exact hancestor ((hmemL line hlineNe).mp (List.mem_append_right _
            (mem_flattenSections.mpr (Or.inr ⟨_, h, hinFound⟩))))
        · exact hcopy v (List.mem_append_left _ hv) heq
        · exact hancestor ((hmemR line hlineNe).mp (List.mem_append_right _
            (mem_flattenSections.mpr (Or.inr ⟨_, h, hinFound⟩))))
        · exact hcopy v (List.mem_append_right _ hv) heq
  obtain ⟨blanks, hblanks, hkept⟩ := keepFrom_copies honly.distinct hfresh
    (List.ne_nil_of_mem hs)
  refine ⟨blanks, hblanks, ?_⟩
  rw [hheader, hlines, ← hkept, textUnion, hdocL, hdocR]
  simp only [unite, keepDocument, overlay, hsplit]
  exact mem_keepSections_append

/-! ## Snapshots that are lost -/

/-- Both snapshots would need the separator line, and the merge keeps it once. -/
theorem section_eq_of_intactInUnion {localText remoteText : Text} {s t : Snapshot}
    (hs : IntactInUnion localText remoteText s) (ht : IntactInUnion localText remoteText t) :
    snapshotSection s = snapshotSection t := by
  obtain ⟨xs, hxs, hs⟩ := hs
  obtain ⟨ys, hys, ht⟩ := ht
  have hseparator : "---".toList.isEmpty = false := rfl
  have heq := eq_of_mem_keepSections hseparator hs
    (List.mem_append_left _ (separator_mem_bodyLines s)) ht
    (List.mem_append_left _ (separator_mem_bodyLines t))
  obtain ⟨hheader, hbody⟩ := Prod.mk.inj heq
  exact Prod.ext hheader (bodyLines_append_inj hxs hys hbody)

theorem section_eq_of_intactIn {localText remoteText : Text} {s t : Snapshot}
    (hs : IntactIn (setUnionMarkdown (utf8 localText) (utf8 remoteText)) s)
    (ht : IntactIn (setUnionMarkdown (utf8 localText) (utf8 remoteText)) t) :
    snapshotSection s = snapshotSection t :=
  section_eq_of_intactInUnion ((intactIn_iff localText remoteText s).mp hs)
    ((intactIn_iff localText remoteText t).mp ht)

theorem plain_of_intactInUnion {localText remoteText : Text} {s : Snapshot}
    (hs : IntactInUnion localText remoteText s) :
    ∀ line ∈ s.bodyLines, startsTextSection line = false := by
  obtain ⟨blanks, -, hmem⟩ := hs
  intro line hline
  exact (textUnion_wellFormed localText remoteText).body_plain _ hmem line
    (List.mem_append_left _ hline)

/-- Over an ancestor without sections, an intact snapshot meets the survival condition. -/
theorem survives_of_intactInUnion {ancestor : Text}
    {localArchived remoteArchived : List Snapshot} {s : Snapshot}
    (hended : LineText.Terminated '\n' ancestor)
    (hflat : ∀ line ∈ splitLines ancestor, startsTextSection line = false)
    (hplain : ∀ t ∈ localArchived ++ remoteArchived, ∀ line ∈ t.bodyLines,
      startsTextSection line = false)
    (hs : IntactInUnion (ancestor ++ localArchived.flatMap Snapshot.entry)
      (ancestor ++ remoteArchived.flatMap Snapshot.entry) s) :
    Survives ancestor (snapshotSection s) := by
  obtain ⟨old, hwell, hmem, hdoc⟩ := textDocument_history hended
    localArchived fun t ht => hplain t (List.mem_append_left _ ht)
  have hpreamble : ∀ line, line ≠ [] → line ∈ splitLines ancestor → line ∈ old.preamble := by
    intro line hline hin
    rcases List.mem_append.mp ((hmem line hline).mpr hin) with hpre | hsec
    · exact hpre
    · rcases mem_flattenSections.mp hsec with hhead | ⟨t, ht, -⟩
      · obtain ⟨t, ht, rfl⟩ := List.mem_map.mp hhead
        have hmarked := hwell.header_marked t ht
        rw [hflat _ hin] at hmarked
        cases hmarked
      · have hmarked := hwell.header_marked t ht
        have hne : t.1 ≠ [] := by
          intro hnil
          rw [hnil] at hmarked
          cases hmarked
        have hancestor := (hmem t.1 hne).mp (List.mem_append_right _
          (mem_flattenSections.mpr (Or.inl (List.mem_map_of_mem ht))))
        rw [hflat _ hancestor] at hmarked
        cases hmarked
  have hbody := plain_of_intactInUnion hs
  obtain ⟨blanks, -, hsection⟩ := hs
  refine ⟨?_, hbody, ?_, ?_⟩
  · have hnodup := nodup_of_mem_keepSections hsection
    rw [List.filter_append] at hnodup
    exact (List.nodup_append.mp hnodup).1
  · intro line hline hne hin
    have hblank : line.isEmpty = false := by
      simpa using hne
    refine notMem_seen_of_mem_keepSections hsection (List.mem_append_left _ hline) hblank ?_
    rw [hdoc]
    exact List.mem_append_left _ (hpreamble line hne hin)
  · intro hin
    have hmarked : startsTextSection (snapshotSection s).1 = true := startsTextSection_header s
    rw [hflat _ hin] at hmarked
    cases hmarked

/-! ## The exact condition -/

/-- A history file as the program leaves one: whole lines, no carriage return. -/
structure CleanHistory (text : Text) : Prop where
  no_cr : '\r' ∉ text
  ended : LineText.Terminated '\n' text

/-- The snapshots two runs archive from one store. -/
def archivedSnapshots (tables : UnicodeTables) (ancestor : StateFiles)
    (localUpdates remoteUpdates : List Update) : List Snapshot :=
  snapshots tables ancestor localUpdates ++ snapshots tables ancestor remoteUpdates

/-- The history a pull installs over the two runs. -/
def mergedHistory (tables : UnicodeTables) (ancestor : StateFiles)
    (localUpdates remoteUpdates : List Update) (keeps : Side) : List UInt8 :=
  (resolveConflict (historyBytes (runUpdates tables ancestor localUpdates))
    (historyBytes (runUpdates tables ancestor remoteUpdates)) "state_history.md" keeps).content

theorem mergedHistory_eq (tables : UnicodeTables) (ancestor : StateFiles)
    (localUpdates remoteUpdates : List Update) (keeps : Side)
    (hclean : CleanHistory ancestor.historyText) :
    mergedHistory tables ancestor localUpdates remoteUpdates keeps =
      setUnionMarkdown
        (utf8 (ancestor.historyText ++
          (snapshots tables ancestor localUpdates).flatMap Snapshot.entry))
        (utf8 (ancestor.historyText ++
          (snapshots tables ancestor remoteUpdates).flatMap Snapshot.entry)) := by
  unfold mergedHistory historyBytes
  rw [historyText_runUpdates tables ancestor localUpdates hclean.no_cr,
    historyText_runUpdates tables ancestor remoteUpdates hclean.no_cr]
  rfl

/-- Every snapshot the two runs archive is intact in the merged history. -/
def MergeKeepsSnapshots (tables : UnicodeTables) (ancestor : StateFiles)
    (localUpdates remoteUpdates : List Update) (keeps : Side) : Prop :=
  ∀ s ∈ archivedSnapshots tables ancestor localUpdates remoteUpdates,
    IntactIn (mergedHistory tables ancestor localUpdates remoteUpdates keeps) s

theorem mergeKeepsSnapshots_of_oneSnapshot {tables : UnicodeTables} {ancestor : StateFiles}
    {localUpdates remoteUpdates : List Update} {keeps : Side}
    (hclean : CleanHistory ancestor.historyText)
    (hone : OneSnapshot ancestor.historyText
      (archivedSnapshots tables ancestor localUpdates remoteUpdates)) :
    MergeKeepsSnapshots tables ancestor localUpdates remoteUpdates keeps := by
  intro s hs
  rcases hone with hnone | ⟨only, honly, hsame⟩
  · rw [hnone] at hs
    cases hs
  · rw [mergedHistory_eq _ _ _ _ _ hclean, intactIn_iff]
    exact intactInUnion_of_survives hclean.ended honly hsame hs

theorem oneSnapshot_of_mergeKeepsSnapshots {tables : UnicodeTables} {ancestor : StateFiles}
    {localUpdates remoteUpdates : List Update} {keeps : Side}
    (hclean : CleanHistory ancestor.historyText)
    (hflat : ∀ line ∈ splitLines ancestor.historyText, startsTextSection line = false)
    (hkeeps : MergeKeepsSnapshots tables ancestor localUpdates remoteUpdates keeps) :
    OneSnapshot ancestor.historyText
      (archivedSnapshots tables ancestor localUpdates remoteUpdates) := by
  unfold MergeKeepsSnapshots at hkeeps
  rw [mergedHistory_eq _ _ _ _ _ hclean] at hkeeps
  have hunion : ∀ s ∈ archivedSnapshots tables ancestor localUpdates remoteUpdates,
      IntactInUnion _ _ s := fun s hs => (intactIn_iff _ _ s).mp (hkeeps s hs)
  have hplain : ∀ s ∈ archivedSnapshots tables ancestor localUpdates remoteUpdates,
      ∀ line ∈ s.bodyLines, startsTextSection line = false :=
    fun s hs => plain_of_intactInUnion (hunion s hs)
  cases hlist : archivedSnapshots tables ancestor localUpdates remoteUpdates with
  | nil => exact Or.inl rfl
  | cons first rest =>
      have hfirst : first ∈ archivedSnapshots tables ancestor localUpdates remoteUpdates := by
        simp [hlist]
      refine Or.inr ⟨snapshotSection first, ?_, ?_⟩
      · exact survives_of_intactInUnion hclean.ended hflat hplain (hunion first hfirst)
      · intro s hs
        rw [← hlist] at hs
        exact section_eq_of_intactInUnion (hunion s hs) (hunion first hfirst)

/-- The merge keeps every archived snapshot when the two runs archived nothing, or one and
the same section throughout whose lines are new and distinct; over an ancestor that has no
section yet it keeps them in no other case. -/
theorem history_merge_keeps_snapshots (tables : UnicodeTables) (ancestor : StateFiles)
    (localUpdates remoteUpdates : List Update) (keeps : Side)
    (hclean : CleanHistory ancestor.historyText) :
    (OneSnapshot ancestor.historyText
        (archivedSnapshots tables ancestor localUpdates remoteUpdates) →
      MergeKeepsSnapshots tables ancestor localUpdates remoteUpdates keeps) ∧
    ((∀ line ∈ splitLines ancestor.historyText, startsTextSection line = false) →
      (MergeKeepsSnapshots tables ancestor localUpdates remoteUpdates keeps ↔
        OneSnapshot ancestor.historyText
          (archivedSnapshots tables ancestor localUpdates remoteUpdates))) := by
  refine ⟨mergeKeepsSnapshots_of_oneSnapshot hclean, fun hflat => ?_⟩
  exact ⟨oneSnapshot_of_mergeKeepsSnapshots hclean hflat,
    mergeKeepsSnapshots_of_oneSnapshot hclean⟩

/-- A store whose current state is `a` and that has archived nothing. -/
def freshStore : StateFiles :=
  { current := some ['a'], legacy := none, history := none }

theorem updateAt_year : 1000 ≤ 2026 ∧ 2026 ≤ 9999 := by
  decide

theorem updateAt_month : 1 ≤ 5 ∧ 5 ≤ 12 := by
  decide

theorem updateAt_day : 1 ≤ 14 ∧ 14 ≤ 31 := by
  decide

theorem updateAt_minute : 0 < 60 := by
  decide

/-- An update at the given hour of one day. -/
def updateAt (hour : Nat) (h : hour < 24) : Update where
  delta := ['b']
  time :=
    { year := 2026, month := 5, day := 14, hour := hour, minute := 0
      year_bounds := updateAt_year, month_bounds := updateAt_month, day_bounds := updateAt_day
      hour_lt := h, minute_lt := updateAt_minute }

theorem history_merge_keeps_snapshots_fresh :
    CleanHistory freshStore.historyText ∧
      MergeKeepsSnapshots .ascii freshStore [updateAt 10 (by decide)] [] .localSide := by
  have hclean : CleanHistory freshStore.historyText := ⟨by decide, Or.inl rfl⟩
  refine ⟨hclean, ?_⟩
  refine (history_merge_keeps_snapshots .ascii freshStore [updateAt 10 (by decide)] []
    .localSide hclean).1 (Or.inr ⟨snapshotSection
      { time := (updateAt 10 (by decide)).time, body := ['a'] }, ?_, by decide⟩)
  exact ⟨by decide, by decide, by decide, by decide⟩

/-- Both sides replace the state `a`, at different hours: the two snapshots share every line
under their headings, and the merge keeps one of the bodies. -/
theorem history_merge_loses_snapshot :
    ¬ MergeKeepsSnapshots .ascii freshStore [updateAt 10 (by decide)]
        [updateAt 11 (by decide)] .localSide := by
  have hclean : CleanHistory freshStore.historyText := ⟨by decide, Or.inl rfl⟩
  intro hall
  unfold MergeKeepsSnapshots at hall
  rw [mergedHistory_eq _ _ _ _ _ hclean] at hall
  have hfirst := hall { time := (updateAt 10 (by decide)).time, body := ['a'] } (by decide)
  have hsecond := hall { time := (updateAt 11 (by decide)).time, body := ['a'] } (by decide)
  exact absurd (section_eq_of_intactIn hfirst hsecond) (by decide)

end HistoryMerge
end Sync
end Nauro
