import Nauro.Core.QuestionLines

/-!
# What the question operations do to the ids of a file

* `lineIds_insertQuestionEntry` — an inserted entry adds its own lines.
-/

namespace Nauro
namespace Core
namespace Questions

open Foundation

variable {c : Char} {β : Type}

/-! ## Relocation moves blocks -/

theorem filterMap_cons_perm (f : Block → Option β) (block : Block) {left right : List Block}
    (h : (left.filterMap f).Perm (right.filterMap f)) :
    ((block :: left).filterMap f).Perm ((block :: right).filterMap f) := by
  cases hf : f block with
  | none =>
      rw [List.filterMap_cons_none hf, List.filterMap_cons_none hf]
      exact h
  | some value =>
      rw [List.filterMap_cons_some hf, List.filterMap_cons_some hf]
      exact h.cons value

/-- What the walk of `normalize` does with one block. -/
inductive RelocateStep (dropping : Bool) (block : Block) (rest : List Block)
    (kept : List Block) (moved : List QuestionEntry) : Prop
  /-- The walk ends at the divider. -/
  | divider (hdivider : block.isResolvedDivider = true) (hkept : kept = block :: rest)
      (hmoved : moved = [])
  | drop (hdropping : dropping = true) (hblank : block.isBlankProse = true)
      (hkept : kept = (relocate true rest).1) (hmoved : moved = (relocate true rest).2.1)
  | keep (hblank : dropping = true → block.isBlankProse = false)
      (hkept : kept = block :: (relocate false rest).1)
      (hmoved : moved = (relocate false rest).2.1)
  | move (e : QuestionEntry) (hentry : block = .entry e) (hstamped : e.resolvedBy ≠ none)
      (hsafe : proseSafe rest = true) (hkept : kept = (relocate true rest).1)
      (hmoved : moved = e :: (relocate true rest).2.1)

theorem relocate_step (dropping : Bool) (block : Block) (rest : List Block) :
    RelocateStep dropping block rest (relocate dropping (block :: rest)).1
      (relocate dropping (block :: rest)).2.1 := by
  by_cases hdivider : block.isResolvedDivider = true
  · have hstep : relocate dropping (block :: rest) = (block :: rest, [], []) := by
      cases block <;> simp [relocate, hdivider]
    exact .divider hdivider (by rw [hstep]) (by rw [hstep])
  by_cases hdrop : (dropping && block.isBlankProse) = true
  · have hstep : relocate dropping (block :: rest) = relocate true rest := by
      cases block <;> simp only [relocate, if_neg hdivider, if_pos hdrop]
    rw [Bool.and_eq_true] at hdrop
    exact .drop hdrop.1 hdrop.2 (by rw [hstep]) (by rw [hstep])
  have hblank : dropping = true → block.isBlankProse = false := by
    rintro rfl
    simpa using hdrop
  cases block with
  | entry e =>
      by_cases hopen : e.resolvedBy.isNone = true
      · refine .keep hblank ?_ ?_ <;>
          simp [relocate, Block.isResolvedDivider, Block.isBlankProse, hopen]
      · have hstamped : e.resolvedBy ≠ none := by simpa using hopen
        by_cases hsafe : proseSafe rest = true
        · refine .move e rfl hstamped hsafe ?_ ?_ <;>
            simp [relocate, Block.isResolvedDivider, Block.isBlankProse, hopen, hsafe]
        · refine .keep hblank ?_ ?_ <;>
            simp [relocate, Block.isResolvedDivider, Block.isBlankProse, hopen, hsafe]
  | header text divider => refine .keep hblank ?_ ?_ <;> simp [relocate, hdivider, hdrop]
  | prose lines => refine .keep hblank ?_ ?_ <;> simp [relocate, hdivider, hdrop]
  | tripleHash lines embeddedId => refine .keep hblank ?_ ?_ <;> simp [relocate, hdivider, hdrop]
  | unparsable line => refine .keep hblank ?_ ?_ <;> simp [relocate, hdivider, hdrop]

/-- Everything but the removed blank prose is kept or moved. -/
theorem relocate_perm {f : Block → Option β} (hblank : ∀ b, b.isBlankProse = true → f b = none)
    (dropping : Bool) (blocks : List Block) :
    (((relocate dropping blocks).1 ++
      (relocate dropping blocks).2.1.map Block.entry).filterMap f).Perm (blocks.filterMap f) := by
  induction blocks generalizing dropping with
  | nil => exact .refl _
  | cons block rest ih =>
      cases relocate_step dropping block rest with
      | divider _ hkept hmoved =>
          rw [hkept, hmoved, List.map_nil, List.append_nil]
      | drop _ hisBlank hkept hmoved =>
          rw [hkept, hmoved, List.filterMap_cons_none (hblank block hisBlank)]
          exact ih true
      | keep _ hkept hmoved =>
          rw [hkept, hmoved]
          exact filterMap_cons_perm f block (ih false)
      | move e hentry _ _ hkept hmoved =>
          rw [hkept, hmoved, hentry, List.map_cons]
          -- the entry moves behind the blocks that are kept
          exact (List.perm_middle.filterMap f).trans (filterMap_cons_perm f (.entry e) (ih true))

theorem insertAfterDivider_perm (relocated blocks : List Block) :
    (insertAfterDivider relocated blocks).Perm (blocks ++ relocated) := by
  induction blocks with
  | nil => exact .refl _
  | cons block rest ih =>
      rw [insertAfterDivider]
      split_ifs
      · have hrest : rest = rest.takeWhile (fun b => !b.isHeader) ++
            rest.dropWhile fun b => !b.isHeader := List.takeWhile_append_dropWhile.symm
        have hmoved : (rest.takeWhile (fun b => !b.isHeader) ++ relocated ++
            rest.dropWhile fun b => !b.isHeader).Perm (rest ++ relocated) := by
          conv_rhs => rw [hrest, List.append_assoc]
          rw [List.append_assoc]
          exact List.Perm.append_left _ List.perm_append_comm
        exact hmoved.cons block
      · exact ih.cons block

/-- The relocated blocks are the moved entries with blank lines between them. -/
theorem filterMap_relocated {f : Block → Option β} (hblank : f (.prose [[]]) = none)
    (moved : List QuestionEntry) :
    (moved.flatMap fun e => [.prose [[]], .entry e]).filterMap f =
      (moved.map Block.entry).filterMap f := by
  induction moved with
  | nil => rfl
  | cons e moved ih =>
      rw [List.flatMap_cons, List.map_cons, List.filterMap_append, ih,
        List.filterMap_cons_none hblank, ← List.filterMap_append, List.singleton_append]

/-- Normalizing moves blocks, and adds and removes blocks without a value. -/
theorem normalize_perm {f : Block → Option β} (hblank : ∀ b, b.isBlankProse = true → f b = none)
    (hheader : f (.header resolvedHeader true) = none) (file : OpenQuestionsFile) :
    (file.normalize.file.blocks.filterMap f).Perm (file.blocks.filterMap f) := by
  have hkept := relocate_perm hblank false file.blocks
  have hrelocated := filterMap_relocated (hblank (.prose [[]]) rfl) (relocate false file.blocks).2.1
  unfold OpenQuestionsFile.normalize
  simp only
  split_ifs with hmoved hdivider
  · exact .refl _
  · refine ((insertAfterDivider_perm _ _).filterMap f).trans ?_
    rw [List.filterMap_append, hrelocated, ← List.filterMap_append]
    exact hkept
  · have hadded : [Block.prose [[]], Block.header resolvedHeader true].filterMap f = [] := by
      rw [List.filterMap_cons_none (hblank _ rfl), List.filterMap_cons_none hheader]
      rfl
    rw [List.filterMap_append, List.filterMap_append, hadded, List.append_nil, hrelocated,
      ← List.filterMap_append]
    exact hkept

/-! ## Which blocks a normalized file has -/

theorem mem_relocate {dropping : Bool} {blocks : List Block} :
    (∀ b ∈ (relocate dropping blocks).1, b ∈ blocks) ∧
      ∀ e ∈ (relocate dropping blocks).2.1, Block.entry e ∈ blocks := by
  induction blocks generalizing dropping with
  | nil => exact ⟨fun _ h => h, by simp [relocate]⟩
  | cons block rest ih =>
      cases relocate_step dropping block rest with
      | divider _ hkept hmoved =>
          rw [hkept, hmoved]
          exact ⟨fun _ h => h, by simp⟩
      | drop _ _ hkept hmoved =>
          rw [hkept, hmoved]
          exact ⟨fun b h => List.mem_cons_of_mem _ (ih.1 b h),
            fun e h => List.mem_cons_of_mem _ (ih.2 e h)⟩
      | keep _ hkept hmoved =>
          rw [hkept, hmoved]
          exact ⟨List.cons_subset_cons _ (@ih false).1,
            fun e h => List.mem_cons_of_mem _ (ih.2 e h)⟩
      | move e hentry _ _ hkept hmoved =>
          rw [hkept, hmoved, hentry]
          refine ⟨fun b h => List.mem_cons_of_mem _ (ih.1 b h), ?_⟩
          intro other h
          rcases List.mem_cons.mp h with rfl | hrest
          · exact List.mem_cons_self ..
          · exact List.mem_cons_of_mem _ (ih.2 other hrest)

/-- A block of a normalized file is a block of the file, a blank line or the divider. -/
theorem mem_normalize {file : OpenQuestionsFile} {b : Block} (h : b ∈ file.normalize.file.blocks) :
    b ∈ file.blocks ∨ b = .prose [[]] ∨ b = .header resolvedHeader true := by
  obtain ⟨hkept, hmoved⟩ := @mem_relocate false file.blocks
  have hrelocated : ∀ b ∈ (relocate false file.blocks).2.1.flatMap fun e =>
      [Block.prose [[]], Block.entry e], b ∈ file.blocks ∨ b = .prose [[]] := by
    intro b hb
    obtain ⟨e, he, hin⟩ := List.mem_flatMap.mp hb
    simp only [List.mem_cons, List.not_mem_nil, or_false] at hin
    rcases hin with rfl | rfl
    · exact Or.inr rfl
    · exact Or.inl (hmoved e he)
  unfold OpenQuestionsFile.normalize at h
  simp only at h
  split_ifs at h with hnone hdivider
  · exact Or.inl h
  · rcases List.mem_append.mp ((insertAfterDivider_perm _ _).mem_iff.mp h) with hin | hin
    · exact Or.inl (hkept b hin)
    · exact (hrelocated b hin).imp_right Or.inl
  · simp only [List.mem_append, List.mem_cons, List.not_mem_nil, or_false] at h
    rcases h with (hin | hin | hin) | hin
    · exact Or.inl (hkept b hin)
    · exact Or.inr (Or.inl hin)
    · exact Or.inr (Or.inr hin)
    · exact (hrelocated b hin).imp_right Or.inl

theorem normalize_header (file : OpenQuestionsFile) :
    file.normalize.file.header = file.header := by
  unfold OpenQuestionsFile.normalize
  simp only
  split_ifs <;> rfl

/-! ## Normalizing -/

theorem id?_of_isBlankProse {b : Block} (h : b.isBlankProse = true) : b.id? = none := by
  cases b with
  | prose lines => rfl
  | _ => cases h

theorem normalize_ids (file : OpenQuestionsFile) :
    file.normalize.file.ids.Perm file.ids :=
  normalize_perm (fun _ => id?_of_isBlankProse) rfl file

theorem normalize_settled (hc : IsLineEnd c) {file : OpenQuestionsFile} (h : file.Settled c) :
    file.normalize.file.Settled c where
  header := by
    rw [normalize_header]
    exact h.header
  blocks := by
    intro b hb
    rcases mem_normalize hb with hin | rfl | rfl
    · exact h.blocks b hin
    · exact settled_blank
    · exact settled_resolvedHeader hc

/-! ## Stamping -/

theorem resolve_id? (requested : List Text) (ref : ResolvedRef) (b : Block) :
    (b.resolve requested ref).id? = b.id? := by
  cases b with
  | entry e =>
      rw [Block.resolve]
      split_ifs <;> rfl
  | _ => rfl

theorem resolve_settled (hc : IsLineEnd c) (requested : List Text) (ref : ResolvedRef) {b : Block}
    (h : b.Settled c) : (b.resolve requested ref).Settled c := by
  cases b with
  | entry e =>
      rw [Block.resolve]
      split_ifs
      · exact settled_entry hc ((h.reads e rfl).stamp ref)
      · exact h
  | _ => exact h

theorem stamp_ids (file : OpenQuestionsFile) (requested : List Text) (ref : ResolvedRef) :
    (file.stamp requested ref).filterMap Block.id? = file.ids := by
  have hmap : (file.blocks.map (Block.resolve requested ref)).filterMap Block.id? = file.ids := by
    rw [List.filterMap_map, OpenQuestionsFile.ids]
    congr 1
    funext b
    exact resolve_id? requested ref b
  unfold OpenQuestionsFile.stamp
  simp only
  split_ifs
  · rw [List.filterMap_append, hmap]
    exact List.append_nil _
  · exact hmap

theorem stamp_settled (hc : IsLineEnd c) {file : OpenQuestionsFile} (h : file.Settled c)
    (requested : List Text) (ref : ResolvedRef) :
    ∀ b ∈ file.stamp requested ref, b.Settled c := by
  have hmap : ∀ b ∈ file.blocks.map (Block.resolve requested ref), b.Settled c := by
    intro b hb
    obtain ⟨original, hin, rfl⟩ := List.mem_map.mp hb
    exact resolve_settled hc requested ref (h.blocks original hin)
  unfold OpenQuestionsFile.stamp
  simp only
  split_ifs
  · refine List.forall_mem_append.mpr ⟨hmap, ?_⟩
    simp only [List.forall_mem_cons]
    exact ⟨settled_blank, settled_resolvedHeader hc, by simp⟩
  · exact hmap

/-- The files that `resolve` gives back. -/
theorem resolve_cases {file : OpenQuestionsFile} {ids : List Text} {num : Nat} {date : Date}
    {result : ResolveResult} (h : file.resolve ids num date = some result) :
    result.file = file ∨ ∃ requested ref,
      result.file = { file with blocks := file.stamp requested ref } := by
  unfold OpenQuestionsFile.resolve at h
  simp only at h
  split_ifs at h with hnone hambiguous hnum
  · cases h
    exact Or.inl rfl
  · cases h
    exact Or.inl rfl
  · cases h
    exact Or.inr ⟨_, _, rfl⟩

theorem resolve_file {file : OpenQuestionsFile} {ids : List Text} {num : Nat} {date : Date}
    {result : ResolveResult} (hc : IsLineEnd c) (hfile : file.Settled c)
    (h : file.resolve ids num date = some result) :
    result.file.ids = file.ids ∧ result.file.Settled c := by
  rcases resolve_cases h with hsame | ⟨requested, ref, hstamped⟩
  · rw [hsame]
    exact ⟨rfl, hfile⟩
  · rw [hstamped]
    exact ⟨stamp_ids file requested ref, hfile.header, stamp_settled hc hfile requested ref⟩

/-! ## Migrating -/

def LineId.isLegacy : LineId → Bool
  | .entry (.timestamp _) => true
  | _ => false

/-- The number of legacy entries. -/
def OpenQuestionsFile.legacyCount (file : OpenQuestionsFile) : Nat :=
  file.ids.countP LineId.isLegacy

/-- The id that is minted for a number. -/
def LineId.ofNumber (n : Nat) : LineId :=
  .entry (.num n (formatQuestionId n))

/-- What migration does with one block. -/
theorem migrateBlocks_cons (nextNum : Nat) (block : Block) (rest : List Block) :
    (∃ stamp body continuation resolvedBy,
      block = .entry ⟨.timestamp stamp, body, continuation, resolvedBy⟩ ∧
      migrateBlocks nextNum (block :: rest) =
        if nextNum ≤ maxQuestionNumber then
          (migrateBlocks (nextNum + 1) rest).map fun (blocks, renames) =>
            (.entry ⟨.num nextNum (formatQuestionId nextNum), migratedBody body stamp,
                continuation, resolvedBy⟩ :: blocks,
              ⟨stamp, formatQuestionId nextNum, loggedSuffix stamp⟩ :: renames)
        else none) ∨
    (block.id?.all (fun id => !id.isLegacy) = true ∧
      migrateBlocks nextNum (block :: rest) =
        (migrateBlocks nextNum rest).map fun (blocks, renames) => (block :: blocks, renames)) := by
  cases block with
  | entry e =>
      obtain ⟨key, body, continuation, resolvedBy⟩ := e
      cases key with
      | timestamp stamp => exact Or.inl ⟨stamp, body, continuation, resolvedBy, rfl, rfl⟩
      | num n source => exact Or.inr ⟨rfl, rfl⟩
  | tripleHash lines embeddedId =>
      refine Or.inr ⟨?_, rfl⟩
      cases embeddedId <;> rfl
  | _ => exact Or.inr ⟨rfl, rfl⟩

theorem parseQuestionId_format {n : Nat} (hpos : 1 ≤ n) (hmax : n ≤ maxQuestionNumber) :
    parseQuestionId (formatQuestionId n) = some n := by
  simp [parseQuestionId, formatQuestionId, number?_toDigits, hpos, hmax]

theorem questionKey?_format {n : Nat} (hpos : 1 ≤ n) (hmax : n ≤ maxQuestionNumber) :
    questionKey? (formatQuestionId n) = some (.num n (formatQuestionId n)) := by
  rw [questionKey?, parseQuestionId_format hpos hmax]

theorem notMem_formatQuestionId {x : Char} (hdigit : x.isDigit = false) (hQ : x ≠ 'Q') (n : Nat) :
    x ∉ formatQuestionId n := by
  intro hin
  rcases List.mem_cons.mp hin with h | h
  · exact hQ h
  · exact notMem_toDigits hdigit n h

theorem migratedBody_head (body stamp : Text) (h : body.dropWhile isSpace = body) :
    (migratedBody body stamp).dropWhile isSpace = migratedBody body stamp := by
  unfold migratedBody
  split_ifs with hnil
  · rfl
  · obtain ⟨x, rest, rfl⟩ := List.exists_cons_of_ne_nil hnil
    have hx : isSpace x = false := by
      by_contra hspace
      rw [Bool.not_eq_false] at hspace
      rw [List.dropWhile_cons_of_pos hspace] at h
      have hle := (List.dropWhile_sublist (l := rest) isSpace).length_le
      rw [h] at hle
      rw [List.length_cons] at hle
      omega
    rw [List.cons_append, List.dropWhile_cons_of_neg (by simp [hx])]

/-- A migrated entry is read back. -/
theorem migrated_reads (hc : IsLineEnd c) {stamp body : Text} {continuation : List Text}
    {resolvedBy : Option ResolvedRef} {n : Nat} (hpos : 1 ≤ n) (hmax : n ≤ maxQuestionNumber)
    (h : (QuestionEntry.mk (.timestamp stamp) body continuation resolvedBy).Reads c) :
    (QuestionEntry.mk (.num n (formatQuestionId n)) (migratedBody body stamp) continuation
      resolvedBy).Reads c where
  key := questionKey?_format hpos hmax
  bracket := notMem_formatQuestionId (by decide) (by decide) n
  body := migratedBody_head body stamp h.body
  indented := h.indented
  free := by
    obtain ⟨hstamp, hbody, hlines⟩ := h.free
    have hid : c ∉ formatQuestionId n := hc.notMem
      ⟨notMem_formatQuestionId (by decide) (by decide) n,
        notMem_formatQuestionId (by decide) (by decide) n⟩
    have hopen : c ∉ "(logged ".toList := hc.notMem (by decide)
    have hclose : c ∉ ")".toList := hc.notMem (by decide)
    have hlogged : c ∉ loggedSuffix stamp := by
      intro hin
      rcases List.mem_append.mp hin with hin | hin
      · exact (List.mem_append.mp hin).elim hopen hstamp
      · exact hclose hin
    refine ⟨hid, ?_, hlines⟩
    simp only [migratedBody]
    split_ifs
    · exact hlogged
    · intro hin
      rcases List.mem_append.mp hin with hin | hin
      · exact hbody hin
      · rcases List.mem_cons.mp hin with hin | hin
        · have hspace : c ∉ [' '] := hc.notMem (by decide)
          exact hspace (List.mem_singleton.mpr hin)
        · exact hlogged hin

/-- Migration numbers the legacy entries in order and leaves every other id. -/
theorem migrateBlocks_some {nextNum : Nat} {blocks migrated : List Block}
    {renames : List MigrationRename} (hpos : 1 ≤ nextNum)
    (h : migrateBlocks nextNum blocks = some (migrated, renames)) :
    (migrated.filterMap Block.id?).Perm
        ((blocks.filterMap Block.id?).filter (fun id => !id.isLegacy) ++
          (List.range' nextNum renames.length).map LineId.ofNumber) ∧
      renames.length = (blocks.filterMap Block.id?).countP LineId.isLegacy ∧
      renames.map MigrationRename.newId =
        (List.range' nextNum renames.length).map formatQuestionId ∧
      (IsLineEnd c → (∀ b ∈ blocks, b.Settled c) → ∀ b ∈ migrated, b.Settled c) := by
  induction blocks generalizing nextNum migrated renames with
  | nil =>
      cases h
      exact ⟨.refl _, rfl, rfl, fun _ hblocks => hblocks⟩
  | cons block rest ih =>
      rcases migrateBlocks_cons nextNum block rest with
        ⟨stamp, body, continuation, resolvedBy, rfl, hstep⟩ | ⟨hother, hstep⟩
      · rw [hstep] at h
        split_ifs at h with hmax
        obtain ⟨⟨blocks, others⟩, hrest, hpair⟩ := Option.map_eq_some_iff.mp h
        cases hpair
        obtain ⟨hids, hcount, hnames, hsettled⟩ := ih (by omega) hrest
        refine ⟨?_, ?_, ?_, ?_⟩
        · rw [filterMap_entry_cons, filterMap_entry_cons,
            List.filter_cons_of_neg (by simp [LineId.isLegacy]), List.length_cons,
            List.range'_succ, List.map_cons]
          exact (hids.cons _).trans List.perm_middle.symm
        · rw [List.length_cons, hcount, filterMap_entry_cons, List.countP_cons_of_pos rfl]
        · rw [List.map_cons, hnames, List.length_cons, List.range'_succ, List.map_cons]
        · intro hc hblocks
          obtain ⟨hblock, hothers⟩ := List.forall_mem_cons.mp hblocks
          refine List.forall_mem_cons.mpr ⟨?_, hsettled hc hothers⟩
          exact settled_entry hc (migrated_reads hc hpos hmax (hblock.reads _ rfl))
      · rw [hstep] at h
        obtain ⟨⟨blocks, others⟩, hrest, hpair⟩ := Option.map_eq_some_iff.mp h
        cases hpair
        obtain ⟨hids, hcount, hnames, hsettled⟩ := ih hpos hrest
        refine ⟨?_, ?_, hnames, ?_⟩
        · cases hid : block.id? with
          | none =>
              rw [List.filterMap_cons_none hid, List.filterMap_cons_none hid]
              exact hids
          | some id =>
              have hkept : ∀ ids : List LineId, (id :: ids).filter (fun id => !id.isLegacy) =
                  id :: ids.filter fun id => !id.isLegacy := by
                intro ids
                rw [hid] at hother
                exact List.filter_cons_of_pos hother
              rw [List.filterMap_cons_some hid, List.filterMap_cons_some hid, hkept]
              exact hids.cons id
        · cases hid : block.id? with
          | none =>
              rw [List.filterMap_cons_none hid]
              exact hcount
          | some id =>
              rw [hid] at hother
              rw [List.filterMap_cons_some hid, List.countP_cons_of_neg (by simpa using hother)]
              exact hcount
        · intro hc hblocks
          obtain ⟨hblock, hothers⟩ := List.forall_mem_cons.mp hblocks
          exact List.forall_mem_cons.mpr ⟨hblock, hsettled hc hothers⟩

/-- Migration stops just when the numbers run out. -/
theorem migrateBlocks_eq_none_iff {nextNum : Nat} {blocks : List Block} :
    migrateBlocks nextNum blocks = none ↔
      0 < (blocks.filterMap Block.id?).countP LineId.isLegacy ∧
        maxQuestionNumber + 1 < nextNum + (blocks.filterMap Block.id?).countP LineId.isLegacy := by
  induction blocks generalizing nextNum with
  | nil => simp [migrateBlocks]
  | cons block rest ih =>
      rcases migrateBlocks_cons nextNum block rest with
        ⟨stamp, body, continuation, resolvedBy, rfl, hstep⟩ | ⟨hother, hstep⟩
      · have hcount : ((Block.entry ⟨.timestamp stamp, body, continuation, resolvedBy⟩ ::
            rest).filterMap Block.id?).countP LineId.isLegacy =
            (rest.filterMap Block.id?).countP LineId.isLegacy + 1 := by
          rw [filterMap_entry_cons, List.countP_cons_of_pos rfl]
        rw [hstep, hcount]
        split_ifs with hmax
        · rw [Option.map_eq_none_iff, ih]
          omega
        · simp only [true_iff]
          omega
      · have hcount : ((block :: rest).filterMap Block.id?).countP LineId.isLegacy =
            (rest.filterMap Block.id?).countP LineId.isLegacy := by
          cases hid : block.id? with
          | none => rw [List.filterMap_cons_none hid]
          | some id =>
              rw [hid] at hother
              rw [List.filterMap_cons_some hid, List.countP_cons_of_neg (by simpa using hother)]
        rw [hstep, hcount, Option.map_eq_none_iff, ih]

/-! ## Writing and reading back -/

/-- A settled file has its line ends only between lines, so a read leaves its text alone. -/
theorem format_stable {read : Text → Text} {file : OpenQuestionsFile}
    (h : read = id ∨ file.Settled '\r') : Stable read file.format := by
  refine h.imp_right fun hsettled => ?_
  have hlines : ∀ line ∈ file.header :: file.blocks.flatMap Block.renderLines, '\r' ∉ line := by
    refine List.forall_mem_cons.mpr ⟨hsettled.header.1, ?_⟩
    intro line hline
    obtain ⟨b, hb, hin⟩ := List.mem_flatMap.mp hline
    exact (hsettled.blocks b hb).free line hin
  intro hin
  rcases mem_joinLines hin with h | ⟨line, hline, hmem⟩
  · exact absurd h (by decide)
  · exact hlines line hline hmem

/-- A file that was read is settled for the line ends that a read removes. -/
theorem parse_settled_of_stable (tables : UnicodeTables) {read : Text → Text} {content : Text}
    (h : Stable read content) :
    read = id ∨ (OpenQuestionsFile.parse tables content).Settled '\r' := by
  refine h.imp_right fun hfree => parse_settled_of tables (Or.inr rfl) ?_
  exact fun line hline hin => hfree (mem_of_mem_splitLines hline hin)

/-- The text of a resolved and normalized file is left alone by a read. -/
theorem resolved_stable {read : Text → Text} (tables : UnicodeTables) {content : Text}
    (hcontent : Stable read content) {ids : List Text} {num : Nat} {date : Date}
    {result : ResolveResult}
    (h : (OpenQuestionsFile.parse tables content).resolve ids num date = some result) :
    Stable read result.file.normalize.file.format :=
  format_stable ((parse_settled_of_stable tables hcontent).imp_right fun hfree =>
    normalize_settled (Or.inr rfl) (resolve_file (Or.inr rfl) hfree h).2)

/-! ## Inserting an entry -/

theorem lineIds_read_append {read : Text → Text} (h : ReadsText read) (front rest : Text) :
    lineIds (read (front ++ '\n' :: rest)) = lineIds (read front) ++ lineIds (read rest) := by
  rcases h with rfl | rfl
  · simp only [id_eq, lineIds, splitLines_append_newline, List.filterMap_append]
  · unfold lineIds
    rcases splitLines_universalNewlines_append front rest with h | ⟨lines, -, hfront, h⟩
    · rw [h, List.filterMap_append]
    · have hblank : lineId? [] = none := rfl
      rw [h, hfront, List.filterMap_append, List.filterMap_append, List.filterMap_cons_none hblank,
        List.filterMap_nil, List.append_nil]

/-- The ids of joined texts are those of each as it is read. -/
theorem lineIds_read_joinLines {read : Text → Text} (h : ReadsText read) {texts : List Text}
    (hne : texts ≠ []) :
    lineIds (read (joinLines texts)) = texts.flatMap fun text => lineIds (read text) := by
  induction texts with
  | nil => exact absurd rfl hne
  | cons first others ih =>
      cases others with
      | nil => simp [joinLines, List.intercalate]
      | cons second others =>
          have hjoin : joinLines (first :: second :: others) =
              first ++ '\n' :: joinLines (second :: others) :=
            LineText.intercalate_cons_cons first second others
          rw [hjoin, lineIds_read_append h, ih (List.cons_ne_nil _ _)]
          rfl

theorem lineIds_stable_lines {read : Text → Text} (h : ReadsText read) {lines : List Text}
    (hlines : ∀ line ∈ lines, '\n' ∉ line ∧ Stable read line) :
    (lines.flatMap fun line => lineIds (read line)) = lines.filterMap lineId? := by
  induction lines with
  | nil => rfl
  | cons line lines ih =>
      obtain ⟨⟨hline, hstable⟩, hrest⟩ := List.forall_mem_cons.mp hlines
      rw [List.flatMap_cons, ih hrest, hstable.read_eq h, lineIds, splitLines_of_notMem hline, ← List.filterMap_append,
        List.singleton_append]

/-- An insertion keeps the lines of the file, in order, around the new entry. -/
theorem insertQuestionEntry_eq (content entry : Text) :
    ∃ front back, splitLines content = front ++ back ∧
      insertQuestionEntry content entry = joinLines (front ++ entry :: back) := by
  let lines := splitLines content
  let start := ((lines.findIdx? ("# ".toList.isPrefixOf ·)).getD 0) + 1
  refine ⟨lines.take start ++ (lines.drop start).takeWhile isSkippedLine,
    (lines.drop start).dropWhile isSkippedLine, ?_, rfl⟩
  rw [List.append_assoc, List.takeWhile_append_dropWhile, List.take_append_drop]

/-- An entry that is inserted adds the ids of its own lines. -/
theorem lineIds_insertQuestionEntry {read : Text → Text} (h : ReadsText read) {content : Text}
    (hcontent : Stable read content) (entry : Text) :
    (lineIds (read (insertQuestionEntry content entry))).Perm
      (lineIds (read entry) ++ lineIds content) := by
  obtain ⟨front, back, hlines, hinsert⟩ := insertQuestionEntry_eq content entry
  have hstable : ∀ line ∈ front ++ back, '\n' ∉ line ∧ Stable read line := by
    intro line hline
    rw [← hlines] at hline
    exact ⟨LineText.notMem_of_mem_splitOn hline,
      hcontent.imp_right fun hfree hin => hfree (mem_of_mem_splitLines hline hin)⟩
  obtain ⟨hfront, hback⟩ := List.forall_mem_append.mp hstable
  rw [hinsert, lineIds_read_joinLines h (by simp), List.flatMap_append, List.flatMap_cons,
    lineIds_stable_lines h hfront, lineIds_stable_lines h hback, lineIds, lineIds, hlines,
    List.filterMap_append]
  exact List.perm_append_comm_assoc _ _ _

/-- The head line of a composed entry brings in its number. -/
theorem lineId?_composed {n : Nat} (hpos : 1 ≤ n) (hmax : n ≤ maxQuestionNumber) (body : Text) :
    lineId? ("- [".toList ++ formatQuestionId n ++ "] ".toList ++ body) = some (.ofNumber n) := by
  have hbracket : ']' ∉ formatQuestionId n := notMem_formatQuestionId (by decide) (by decide) n
  have hhead : ("- [".toList ++ formatQuestionId n ++ "] ".toList ++ body).drop 2 =
      '[' :: (formatQuestionId n ++ ']' :: (' ' :: body)) := by
    simp
  have hplain : resolvedPrefixToken.isPrefixOf (formatQuestionId n) = false := rfl
  have hitem : isItemLine ("- [".toList ++ formatQuestionId n ++ "] ".toList ++ body) = true := by
    rw [isItemLine, List.isPrefixOf_iff_prefix]
    exact ⟨formatQuestionId n ++ "] ".toList ++ body, by simp⟩
  rw [lineId?, if_pos hitem, parseEntryHead, hhead, bracketed_append hbracket]
  simp only [hplain, Bool.false_eq_true, if_false, questionKey?_format hpos hmax, Option.map_some]
  rfl

/-- The ids of a question's further lines, as a read gives them back. -/
def furtherIds (read : Text → Text) (question : Text) : List LineId :=
  ((splitLines (read question)).drop 1).filterMap lineId?

/-- The ids of a composed entry: its number, then those of the question's further lines. -/
theorem lineIds_composed {read : Text → Text} (h : ReadsText read) {n : Nat} {body entry : Text}
    (hentry : composeQuestionEntry n body = some entry) :
    lineIds (read entry) = .ofNumber n :: furtherIds read body := by
  unfold composeQuestionEntry at hentry
  split_ifs at hentry with hbound
  obtain ⟨hpos, hmax⟩ := hbound
  cases hentry
  have hfree : ∀ x, IsLineEnd x → x ∉ "- [".toList ++ formatQuestionId n ++ "] ".toList := by
    intro x hx hin
    rcases List.mem_append.mp hin with hin | hin
    · rcases List.mem_append.mp hin with hin | hin
      · exact hx.notMem (by decide) hin
      · exact hx.notMem ⟨notMem_formatQuestionId (by decide) (by decide) n,
          notMem_formatQuestionId (by decide) (by decide) n⟩ hin
    · exact hx.notMem (by decide) hin
  have hstable : Stable read ("- [".toList ++ formatQuestionId n ++ "] ".toList) :=
    Or.inr (hfree '\r' (Or.inr rfl))
  obtain ⟨first, others, hlines⟩ := List.exists_cons_of_ne_nil (splitLines_ne_nil (read body))
  have hsplit : ∀ front : Text, '\n' ∉ front →
      splitLines (front ++ read body) = (front ++ first) :: others := by
    intro front hfront
    induction front with
    | nil => exact hlines
    | cons x front ih =>
        obtain ⟨hx, hrest⟩ := not_or.mp (fun hin => hfront (List.mem_cons.mpr hin))
        have hcons : splitLines (x :: (front ++ read body)) =
            (splitLines (front ++ read body)).modifyHead (List.cons x) :=
          LineText.splitOn_cons_of_ne (Ne.symm hx) _
        rw [List.cons_append, hcons, ih hrest]
        rfl
  rw [hstable.read_append h, lineIds, hsplit _ (hfree '\n' (Or.inl rfl)),
    List.filterMap_cons_some (lineId?_composed hpos hmax first), furtherIds, hlines]
  rfl

end Questions
end Core
end Nauro
