import Nauro.Core.QuestionAppend

/-!
# Open questions in the context payloads

The context shows the first open questions of `open-questions.md` and counts the others. It reads
the file up to the first header that the parser takes for the `## Resolved` divider.

* `sections_account_iff` — exactly the files whose open entries below a divider stand in a
  `## Resolved` section are accounted for.
-/

namespace Nauro
namespace Core
/-- `date.toordinal()`. -/
def Date.toordinal (d : Date) : Nat :=
  let y := d.year - 1
  y * 365 + y / 4 - y / 100 + y / 400 +
    ((List.range (d.month - 1)).map fun m => daysInMonth d.year (m + 1)).sum + d.day

namespace Questions

open Foundation

/-! ## Entries for review -/

/-- `POINTER_FLAG_PREFIXES`. -/
def pointerFlagPrefixes : List Text :=
  ["BRIEF:".toList, "RESUME:".toList, "SELECT:".toList]

/-- `is_discovery_pointer`. -/
def QuestionEntry.isDiscoveryPointer (e : QuestionEntry) : Bool :=
  pointerFlagPrefixes.any fun flag => flag.isPrefixOf (e.body.dropWhile isSpace)

/-- An unresolved entry that is no discovery pointer. -/
def QuestionEntry.isGenuineOpen (e : QuestionEntry) : Bool :=
  e.resolvedBy.isNone && !e.isDiscoveryPointer

/-! ## Rendering -/

def questionEntryCharBudget : Nat := 480

def questionTruncationPointer : Text :=
  "... [truncated - full text: get_raw_file(\"open-questions.md\")]".toList

/-- `truncate_entry_text`. -/
def truncateEntryText (text : Text) : Text :=
  if text.length ≤ questionEntryCharBudget then text
  else rstrip (text.take questionEntryCharBudget) ++ ' ' :: questionTruncationPointer

def ageProjectionDays : Nat := 30

/-- The day of a legacy entry. -/
def QuestionEntry.day? (e : QuestionEntry) : Option Date :=
  match e.key with
  | .num _ _ => none
  | .timestamp stamp => parseIsoDate (stamp.take 10)

/-- The nudge above an old legacy entry. -/
def ageLine? (today : Date) (e : QuestionEntry) : Option Text :=
  e.day?.bind fun day =>
    let ageDays : Int := (today.toordinal : Int) - (day.toordinal : Int)
    if ageDays > ageProjectionDays then
      some ("(open ".toList ++ Nat.toDigits 10 ageDays.toNat ++
        " days; consider closing or deferring)".toList)
    else none

/-- What is appended to the lines for one entry. -/
def entryLines (today : Date) (e : QuestionEntry) : List Text :=
  (ageLine? today e).toList ++ [truncateEntryText (joinLines e.render)]

/-- The trailer that counts the entries not shown. -/
def overflowLine (omitted : Nat) : Text :=
  "(+".toList ++ Nat.toDigits 10 omitted ++
    " more open questions — see get_raw_file(\"open-questions.md\") ".toList ++
    "for the full file, including resolved history)".toList

/-- The loop variables of `_render_open_questions`. -/
structure Projection where
  lines : List Text
  rendered : Nat
  omitted : Nat

/-- One pass of the loop. -/
def Projection.next (today : Date) (limit : Nat) (p : Projection) (b : Block) : Projection :=
  match b.entry? with
  | none => p
  | some e =>
      if !e.isGenuineOpen then p
      else if limit ≤ p.rendered then { p with omitted := p.omitted + 1 }
      else { p with lines := p.lines ++ entryLines today e, rendered := p.rendered + 1 }

/-- `_render_open_questions`. -/
def renderOpenQuestions (parsed : OpenQuestionsFile) (limit : Nat)
    (includeOmissionTrailer : Bool) (today : Date) : Text :=
  let shown := parsed.blocks.takeWhile fun b => !b.isResolvedDivider
  let p := shown.foldl (Projection.next today limit) ⟨[], 0, 0⟩
  joinLines (p.lines ++
    if includeOmissionTrailer && p.omitted != 0 then [overflowLine p.omitted] else [])

def l0QuestionsLimit : Nat := 3
def l1QuestionsLimit : Nat := 10

/-- `_render_l0_open_questions`. -/
def renderL0OpenQuestions (tables : UnicodeTables) (content : Text) (today : Date) : Text :=
  if strip content = [] then []
  else renderOpenQuestions (OpenQuestionsFile.parse tables content) l0QuestionsLimit true today

/-- A section of a payload, left out when its body is empty. -/
def payloadSection (header body : Text) : Option Text :=
  if body = [] then none else some (header ++ '\n' :: body)

/-- The questions section of `build_l0`. -/
def l0QuestionsSection (tables : UnicodeTables) (content : Text) (today : Date) : Option Text :=
  payloadSection "## Open Questions".toList (renderL0OpenQuestions tables content today)

/-- The questions section of `build_l1`. -/
def l1QuestionsSection (tables : UnicodeTables) (content : Text) (today : Date) : Option Text :=
  if strip content = [] then none
  else
    let parsed := OpenQuestionsFile.parse tables content
    payloadSection parsed.header (renderOpenQuestions parsed l1QuestionsLimit true today)

/-! ## What is to be shown -/

/-- Whether the next block stands in a section headed exactly `## Resolved`. -/
def sectionStep (inside : Bool) : Block → Bool
  | .header text _ => text == resolvedHeader
  | _ => inside

/-- The open entries outside the sections headed `## Resolved`. -/
def openOutsideResolved : Bool → List Block → List QuestionEntry
  | _, [] => []
  | inside, b :: rest =>
      (b.entry?.filter fun e => !inside && e.isGenuineOpen).toList ++
        openOutsideResolved (sectionStep inside b) rest

/-- The overflow line, when there is something to count. -/
def overflow : Nat → List Text
  | 0 => []
  | omitted + 1 => [overflowLine (omitted + 1)]

/-- Every entry is shown, in order, or counted in the overflow line. -/
def Accounts (today : Date) (text : Text) (entries : List QuestionEntry) : Prop :=
  ∃ shown rest, entries = shown ++ rest ∧
    text = joinLines (shown.flatMap (entryLines today) ++ overflow rest.length)

/-- A section of a payload accounts for the entries. -/
def SectionAccounts (today : Date) (header : Text) (payload : Option Text)
    (entries : List QuestionEntry) : Prop :=
  ∃ body, payload = payloadSection header body ∧ Accounts today body entries

/-- Every open entry below a divider stands in a section headed `## Resolved`. -/
def OpenAboveDivider (blocks : List Block) : Prop :=
  ∀ front e back, blocks = front ++ .entry e :: back → e.isGenuineOpen = true →
    front.any Block.isResolvedDivider = true → front.foldl sectionStep false = true

/-! ## The loop -/

/-- The open entries above the divider. -/
def openAboveDivider (blocks : List Block) : List QuestionEntry :=
  ((blocks.takeWhile fun b => !b.isResolvedDivider).filterMap Block.entry?).filter
    QuestionEntry.isGenuineOpen

/-- The loop shows entries up to the limit and counts the others. -/
theorem foldl_next (today : Date) (limit : Nat) (blocks : List Block) (p : Projection) :
    blocks.foldl (Projection.next today limit) p =
      ⟨p.lines ++ (((blocks.filterMap Block.entry?).filter QuestionEntry.isGenuineOpen).take
          (limit - p.rendered)).flatMap (entryLines today),
        p.rendered + (((blocks.filterMap Block.entry?).filter QuestionEntry.isGenuineOpen).take
          (limit - p.rendered)).length,
        p.omitted + (((blocks.filterMap Block.entry?).filter QuestionEntry.isGenuineOpen).drop
          (limit - p.rendered)).length⟩ := by
  induction blocks generalizing p with
  | nil => simp
  | cons b blocks ih =>
      rw [List.foldl_cons, ih]
      cases hentry : b.entry? with
      | none =>
          have hnext : p.next today limit b = p := by rw [Projection.next, hentry]
          rw [hnext, List.filterMap_cons_none hentry]
      | some e =>
          rw [List.filterMap_cons_some hentry]
          cases hopen : e.isGenuineOpen with
          | false =>
              have hnext : p.next today limit b = p := by
                rw [Projection.next, hentry]
                simp [hopen]
              rw [hnext, List.filter_cons_of_neg (by simp [hopen])]
          | true =>
              rw [List.filter_cons_of_pos hopen]
              by_cases hlimit : limit ≤ p.rendered
              · have hnext : p.next today limit b = { p with omitted := p.omitted + 1 } := by
                  rw [Projection.next, hentry]
                  simp [hopen, hlimit]
                have hzero : limit - p.rendered = 0 := by omega
                rw [hnext]
                simp only [hzero, List.take_zero, List.drop_zero, List.length_cons,
                  Projection.mk.injEq, true_and]
                omega
              · have hnext : p.next today limit b =
                    { p with lines := p.lines ++ entryLines today e, rendered := p.rendered + 1 } := by
                  rw [Projection.next, hentry]
                  simp [hopen, hlimit]
                obtain ⟨k, hk⟩ : ∃ k, limit - p.rendered = k + 1 := ⟨limit - p.rendered - 1, by omega⟩
                have hk' : limit - (p.rendered + 1) = k := by omega
                rw [hnext]
                simp only [hk, hk', List.take_succ_cons, List.drop_succ_cons, List.flatMap_cons,
                  List.length_cons, List.append_assoc, Projection.mk.injEq, true_and, and_true]
                omega

/-- The rendering is the first open entries above the divider and the count of the others. -/
theorem renderOpenQuestions_eq (parsed : OpenQuestionsFile) (limit : Nat) (today : Date) :
    renderOpenQuestions parsed limit true today =
      joinLines (((openAboveDivider parsed.blocks).take limit).flatMap (entryLines today) ++
        overflow ((openAboveDivider parsed.blocks).drop limit).length) := by
  unfold renderOpenQuestions
  simp only [foldl_next, List.nil_append, Nat.zero_add, Nat.sub_zero, Bool.true_and]
  change joinLines (((openAboveDivider parsed.blocks).take limit).flatMap (entryLines today) ++
    if ((openAboveDivider parsed.blocks).drop limit).length != 0 then
      [overflowLine ((openAboveDivider parsed.blocks).drop limit).length] else []) = _
  cases ((openAboveDivider parsed.blocks).drop limit).length with
  | zero => rfl
  | succ omitted => rfl

/-! ## What a listing tells -/

/-- The text of joined lines after their first line. -/
def afterFirst (lines : List Text) : Text :=
  lines.flatMap ('\n' :: ·)

theorem joinLines_cons (first : Text) (others : List Text) :
    joinLines (first :: others) = first ++ afterFirst others := by
  have h := LineText.intercalate_cons ['\n'] first others
  exact h

theorem overflow_ne_nil {omitted : Nat} (h : omitted ≠ 0) :
    overflow omitted = [overflowLine omitted] := by
  cases omitted with
  | zero => exact absurd rfl h
  | succ omitted => rfl

theorem overflowLine_injective : Function.Injective overflowLine := by
  intro m n h
  have hdigits : Nat.toDigits 10 m = Nat.toDigits 10 n := by
    unfold overflowLine at h
    exact List.append_cancel_left (List.append_cancel_right (List.append_cancel_right h))
  have hm := number?_toDigits m
  rw [hdigits, number?_toDigits] at hm
  exact (Option.some.inj hm).symm

theorem rstrip_cons {c : Char} (hc : isSpace c = false) (rest : Text) :
    ∃ kept, rstrip (c :: rest) = c :: kept := by
  by_cases hany : ∃ d ∈ rest, isSpace d = false
  · exact ⟨rstrip rest, Trim.rdropWhile_append_of_any hany [c]⟩
  · have hall : ∀ d ∈ rest, isSpace d = true := by
      simpa using hany
    refine ⟨[], ?_⟩
    have hdrop : rstrip ([c] ++ rest) = rstrip [c] := Trim.rdropWhile_append_of_all hall [c]
    rw [List.singleton_append] at hdrop
    rw [hdrop]
    simp [rstrip, List.rdropWhile, hc]

/-- The text of an entry starts with its bullet. -/
theorem truncateEntryText_render (e : QuestionEntry) :
    ∃ rest, truncateEntryText (joinLines e.render) = '-' :: rest := by
  have hhead : ∃ rest, joinLines e.render = '-' :: rest := by
    rw [QuestionEntry.render, joinLines_cons]
    unfold QuestionEntry.head
    cases e.resolvedBy with
    | none => exact ⟨_, rfl⟩
    | some ref => exact ⟨_, rfl⟩
  obtain ⟨rest, hrest⟩ := hhead
  unfold truncateEntryText
  split_ifs with hlength
  · exact ⟨rest, hrest⟩
  · have htake : (joinLines e.render).take questionEntryCharBudget =
        '-' :: rest.take (questionEntryCharBudget - 1) := by
      rw [hrest]
      rfl
    obtain ⟨kept, hkept⟩ := rstrip_cons (c := '-') (by decide)
      (rest.take (questionEntryCharBudget - 1))
    rw [htake, hkept]
    exact ⟨_, rfl⟩

/-- The lines of an entry start neither empty nor as an overflow line does. -/
theorem entryLines_head (today : Date) (e : QuestionEntry) :
    ∃ first others, entryLines today e = first :: others ∧
      ((∃ rest, first = '-' :: rest) ∨ ∃ rest, first = '(' :: 'o' :: rest) := by
  unfold entryLines
  cases hage : ageLine? today e with
  | none => exact ⟨_, [], rfl, .inl (truncateEntryText_render e)⟩
  | some line =>
      refine ⟨line, _, rfl, .inr ?_⟩
      unfold ageLine? at hage
      obtain ⟨day, -, hline⟩ := Option.bind_eq_some_iff.mp hage
      simp only at hline
      split at hline
      · cases hline
        exact ⟨_, rfl⟩
      · cases hline

/-- Nothing that starts with an entry reads as an overflow line or as nothing. -/
theorem overflow_ne_entries (today : Date) (omitted : Nat) (e : QuestionEntry)
    (more : List Text) :
    joinLines (overflow omitted) ≠ joinLines (entryLines today e ++ more) ∧
      afterFirst (overflow omitted) ≠ afterFirst (entryLines today e ++ more) := by
  obtain ⟨first, others, hlines, hfirst⟩ := entryLines_head today e
  have hne : ∀ rest : Text, overflowLine omitted ≠ first ++ rest := by
    intro rest h
    rcases hfirst with ⟨tail, rfl⟩ | ⟨tail, rfl⟩
    · cases h
    · cases h
  have hfirstNe : first ≠ [] := by
    rcases hfirst with ⟨tail, rfl⟩ | ⟨tail, rfl⟩
    · exact List.cons_ne_nil _ _
    · exact List.cons_ne_nil _ _
  rw [hlines, List.cons_append, joinLines_cons]
  cases omitted with
  | zero =>
      constructor
      · intro h
        have hnil : first ++ afterFirst (others ++ more) = [] := h.symm
        exact hfirstNe (List.append_eq_nil_iff.mp hnil).1
      · intro h
        cases h
  | succ omitted =>
      have hjoin : joinLines (overflow (omitted + 1)) = overflowLine (omitted + 1) := by
        rw [overflow, joinLines_cons]
        simp [afterFirst]
      have hafter : afterFirst (overflow (omitted + 1)) = '\n' :: overflowLine (omitted + 1) := by
        simp [overflow, afterFirst]
      rw [hjoin, hafter]
      constructor
      · exact hne _
      · intro h
        exact hne _ (List.cons.inj h).2

/-- The text of a listing: entries, then the overflow. -/
def listing (today : Date) (shown : List QuestionEntry) (omitted : Nat) : Text :=
  joinLines (shown.flatMap (entryLines today) ++ overflow omitted)

theorem listing_cancel {today : Date} {shown : List QuestionEntry} {a b : List Text}
    (h : joinLines (shown.flatMap (entryLines today) ++ a) =
      joinLines (shown.flatMap (entryLines today) ++ b)) :
    joinLines a = joinLines b ∨ afterFirst a = afterFirst b := by
  cases hlines : shown.flatMap (entryLines today) with
  | nil =>
      rw [hlines] at h
      exact .inl h
  | cons first others =>
      rw [hlines, List.cons_append, List.cons_append, joinLines_cons, joinLines_cons] at h
      have hrest := List.append_cancel_left h
      unfold afterFirst at hrest ⊢
      rw [List.flatMap_append, List.flatMap_append] at hrest
      exact .inr (List.append_cancel_left hrest)

/-- A listing tells how many entries it shows. -/
theorem listing_ne_of_more {today : Date} {shown more : List QuestionEntry} {m n : Nat}
    (hmore : more ≠ []) : listing today shown m ≠ listing today (shown ++ more) n := by
  obtain ⟨e, others, rfl⟩ := List.exists_cons_of_ne_nil hmore
  intro h
  unfold listing at h
  rw [List.flatMap_append, List.append_assoc, List.flatMap_cons, List.append_assoc] at h
  obtain ⟨hjoin, hafter⟩ := overflow_ne_entries today m e
    (others.flatMap (entryLines today) ++ overflow n)
  rcases listing_cancel h with hsame | hsame
  · exact hjoin hsame
  · exact hafter hsame

/-- A listing tells how many entries it counts. -/
theorem listing_count {today : Date} {shown : List QuestionEntry} {m n : Nat}
    (h : listing today shown m = listing today shown n) : m = n := by
  have hoverflow : joinLines (overflow m) = joinLines (overflow n) ∨
      afterFirst (overflow m) = afterFirst (overflow n) := listing_cancel h
  by_cases hm : m = 0
  · by_cases hn : n = 0
    · rw [hm, hn]
    · rw [hm, overflow_ne_nil hn] at hoverflow
      rcases hoverflow with hsame | hsame
      · cases hsame
      · cases hsame
  · by_cases hn : n = 0
    · rw [hn, overflow_ne_nil hm] at hoverflow
      rcases hoverflow with hsame | hsame
      · cases hsame
      · cases hsame
    · rw [overflow_ne_nil hm, overflow_ne_nil hn] at hoverflow
      simp only [joinLines_cons, afterFirst, List.flatMap_cons, List.flatMap_nil, List.append_nil,
        List.cons.injEq, true_and, or_self] at hoverflow
      exact overflowLine_injective hoverflow

/-- A rendering of the first entries accounts for more entries only when there are none. -/
theorem accounts_append_iff {today : Date} {limit : Nat} {entries hidden : List QuestionEntry} :
    Accounts today (listing today (entries.take limit) (entries.drop limit).length)
        (entries ++ hidden) ↔ hidden = [] := by
  constructor
  · rintro ⟨shown, rest, hsplit, htext⟩
    change _ = listing today shown rest.length at htext
    have hfirst : entries.take limit <+: entries ++ hidden :=
      (List.take_prefix limit entries).trans (List.prefix_append entries hidden)
    have hsecond : shown <+: entries ++ hidden := ⟨rest, hsplit.symm⟩
    have hsame : shown = entries.take limit := by
      rcases List.prefix_or_prefix_of_prefix hfirst hsecond with ⟨more, hmore⟩ | ⟨more, hmore⟩
      · by_contra hne
        have hmoreNe : more ≠ [] := by
          rintro rfl
          exact hne (by rw [← hmore, List.append_nil])
        rw [← hmore] at htext
        exact listing_ne_of_more hmoreNe htext
      · by_contra hne
        have hmoreNe : more ≠ [] := by
          rintro rfl
          exact hne (by rw [← hmore, List.append_nil])
        rw [← hmore] at htext
        exact listing_ne_of_more hmoreNe htext.symm
    rw [hsame] at htext hsplit
    have hcount := listing_count htext
    have hlength := congrArg List.length hsplit
    rw [List.length_append, List.length_append, ← hcount] at hlength
    have hparts := congrArg List.length (List.take_append_drop limit entries)
    rw [List.length_append] at hparts
    apply List.length_eq_zero_iff.mp
    omega
  · rintro rfl
    refine ⟨entries.take limit, entries.drop limit, ?_, rfl⟩
    rw [List.append_nil, List.take_append_drop]

/-! ## Sections and the divider -/

/-- A header that reads exactly `## Resolved` is a divider. -/
def DividesExact (blocks : List Block) : Prop :=
  ∀ divider, .header resolvedHeader divider ∈ blocks → divider = true

theorem openOutsideResolved_cons (inside : Bool) (b : Block) (rest : List Block) :
    openOutsideResolved inside (b :: rest) =
      (b.entry?.filter fun e => !inside && e.isGenuineOpen).toList ++
        openOutsideResolved (sectionStep inside b) rest := rfl

theorem entry?_eq_some {b : Block} {e : QuestionEntry} (h : b.entry? = some e) : b = .entry e := by
  cases b with
  | entry e' =>
      cases h
      rfl
  | header | prose | tripleHash | unparsable => cases h

/-- Below the divider, no open entry is outside the sections headed `## Resolved`. -/
theorem openOutsideResolved_eq_nil_iff {inside : Bool} {blocks : List Block} :
    openOutsideResolved inside blocks = [] ↔
      ∀ front e back, blocks = front ++ .entry e :: back → e.isGenuineOpen = true →
        front.foldl sectionStep inside = true := by
  induction blocks generalizing inside with
  | nil =>
      refine ⟨fun _ front e back hsplit => ?_, fun _ => rfl⟩
      cases front <;> cases hsplit
  | cons b rest ih =>
      rw [openOutsideResolved_cons, List.append_eq_nil_iff, Option.toList_eq_nil_iff, ih]
      constructor
      · rintro ⟨hhead, hrest⟩ front e back hsplit hopen
        cases front with
        | nil =>
            obtain ⟨rfl, rfl⟩ := List.cons.inj hsplit
            cases inside with
            | true => rfl
            | false => simp [Block.entry?, hopen] at hhead
        | cons first front =>
            obtain ⟨rfl, rfl⟩ := List.cons.inj hsplit
            exact hrest front e back rfl hopen
      · intro h
        refine ⟨?_, fun front e back hsplit hopen => ?_⟩
        · cases hentry : b.entry? with
          | none => rfl
          | some e =>
              rw [entry?_eq_some hentry] at h
              cases hopen : e.isGenuineOpen with
              | false => simp [hopen]
              | true =>
                  have hinside : inside = true := h [] e rest rfl hopen
                  simp [hinside]
        · exact h (b :: front) e back (congrArg (b :: ·) hsplit) hopen

/-- Above the divider every open entry is outside the sections headed `## Resolved`; the others
are none just when the open entries below the divider stand in such sections. -/
theorem openOutsideResolved_split {blocks : List Block} (hexact : DividesExact blocks) :
    ∃ hidden, openOutsideResolved false blocks = openAboveDivider blocks ++ hidden ∧
      (hidden = [] ↔ OpenAboveDivider blocks) := by
  induction blocks with
  | nil =>
      refine ⟨[], rfl, fun _ front e back hsplit => ?_, fun _ => rfl⟩
      cases front <;> cases hsplit
  | cons b rest ih =>
      cases hdivider : b.isResolvedDivider with
      | true =>
          have habove : openAboveDivider (b :: rest) = [] := by
            simp [openAboveDivider, hdivider]
          refine ⟨openOutsideResolved false (b :: rest), by rw [habove]; rfl, ?_⟩
          rw [openOutsideResolved_eq_nil_iff]
          constructor
          · intro h front e back hsplit hopen _
            exact h front e back hsplit hopen
          · intro h front e back hsplit hopen
            cases front with
            | nil =>
                obtain ⟨rfl, rfl⟩ := List.cons.inj hsplit
                cases hdivider
            | cons first front =>
                obtain ⟨rfl, rfl⟩ := List.cons.inj hsplit
                exact h (b :: front) e back rfl hopen (by simp [hdivider])
      | false =>
          have hrest : DividesExact rest := fun divider hmem =>
            hexact divider (List.mem_cons_of_mem _ hmem)
          obtain ⟨hidden, hsplit, hiff⟩ := ih hrest
          have hstep : sectionStep false b = false := by
            cases b with
            | header text divider =>
                change (text == resolvedHeader) = false
                rw [beq_eq_false_iff_ne]
                rintro rfl
                have hmarks := hexact divider (List.mem_cons_self ..)
                rw [hmarks] at hdivider
                cases hdivider
            | prose | entry | tripleHash | unparsable => rfl
          have habove : openAboveDivider (b :: rest) =
              (b.entry?.filter fun e => e.isGenuineOpen).toList ++ openAboveDivider rest := by
            unfold openAboveDivider
            rw [List.takeWhile_cons_of_pos (by simp [hdivider])]
            cases hentry : b.entry? with
            | none => rw [List.filterMap_cons_none hentry]; rfl
            | some e =>
                rw [List.filterMap_cons_some hentry, List.filter_cons]
                cases hopen : e.isGenuineOpen with
                | true => simp [Option.filter, hopen]
                | false => simp [Option.filter, hopen]
          refine ⟨hidden, ?_, hiff.trans ?_⟩
          · rw [openOutsideResolved_cons, hstep, hsplit, habove, List.append_assoc]
            rfl
          · constructor
            · intro h front e back heq hopen hany
              cases front with
              | nil => cases hany
              | cons first front =>
                  obtain ⟨rfl, rfl⟩ := List.cons.inj heq
                  rw [List.foldl_cons, hstep]
                  refine h front e back rfl hopen ?_
                  simpa [hdivider] using hany
            · intro h front e back heq hopen hany
              have hall := h (b :: front) e back (congrArg (b :: ·) heq) hopen
                (by simp [hdivider, hany])
              rwa [List.foldl_cons, hstep] at hall

/-! ## The headers of a parsed file -/

theorem Pending.close_header {pending : Pending} {text : Text} {divider : Bool}
    (h : .header text divider ∈ pending.close) : False := by
  cases pending with
  | none => cases h
  | prose | entry | topic => simp [Pending.close] at h

/-- Every header of a file is the line it was read from. -/
theorem header_mem_parseBlocks {tables : UnicodeTables} {pending : Pending} {lines : List Text}
    {text : Text} {divider : Bool} (h : .header text divider ∈ parseBlocks tables pending lines) :
    ∃ line, text = rstrip line ∧ isSectionLine line = true ∧
      divider = containsText "resolved".toList (lower tables (strip line)) := by
  induction lines generalizing pending with
  | nil => exact (Pending.close_header h).elim
  | cons line rest ih =>
      rw [parseBlocks] at h
      split at h
      · exact ih h
      · split_ifs at h with hsection htopic hitem
        · rcases List.mem_append.mp h with hclose | hrest
          · exact (Pending.close_header hclose).elim
          · rcases List.mem_cons.mp hrest with heq | hlater
            · cases heq
              exact ⟨line, rfl, hsection, rfl⟩
            · exact ih hlater
        · rcases List.mem_append.mp h with hclose | hrest
          · exact (Pending.close_header hclose).elim
          · exact ih hrest
        · split at h
          · rcases List.mem_append.mp h with hclose | hrest
            · exact (Pending.close_header hclose).elim
            · rcases List.mem_cons.mp hrest with heq | hlater
              · cases heq
              · exact ih hlater
          · rcases List.mem_append.mp h with hclose | hrest
            · exact (Pending.close_header hclose).elim
            · exact ih hrest
        · rcases List.mem_append.mp h with hclose | hrest
          · exact (Pending.close_header hclose).elim
          · exact ih hrest

theorem lowerAfter_ascii {tables : UnicodeTables} (hlawful : tables.Lawful) {text : Text}
    (h : ∀ c ∈ text, c.toNat < 128) (before : Text) :
    lowerAfter tables before text = text.map Char.toLower := by
  induction text generalizing before with
  | nil => rfl
  | cons c rest ih =>
      obtain ⟨hc, hrest⟩ := List.forall_mem_cons.mp h
      have hne : c ≠ 'Σ' := by
        rintro rfl
        exact absurd hc (by decide)
      rw [lowerAfter, if_neg hne, hlawful.lower_ascii c hc, ih hrest]
      rfl

theorem lower_resolvedHeader {tables : UnicodeTables} (hlawful : tables.Lawful) :
    lower tables resolvedHeader = "## resolved".toList := by
  have hall : (resolvedHeader.all fun c => decide (c.toNat < 128)) = true := by decide
  have hascii : ∀ c ∈ resolvedHeader, c.toNat < 128 :=
    fun c hc => of_decide_eq_true (List.all_eq_true.mp hall c hc)
  rw [lower, lowerAfter_ascii hlawful hascii]
  decide

/-- The exact header is taken for the divider. -/
theorem parse_dividesExact {tables : UnicodeTables} (hlawful : tables.Lawful) (content : Text) :
    DividesExact (OpenQuestionsFile.parse tables content).blocks := by
  intro divider h
  obtain ⟨line, htext, hsection, rfl⟩ := header_mem_parseBlocks h
  have hstrip : strip line = resolvedHeader := by
    obtain ⟨rest, rfl⟩ := List.isPrefixOf_iff_prefix.mp hsection
    rw [htext]
    rfl
  rw [hstrip, lower_resolvedHeader hlawful]
  decide

/-! ## The payloads -/

theorem payloadSection_injective (header : Text) : Function.Injective (payloadSection header) := by
  intro a b h
  unfold payloadSection at h
  split_ifs at h with ha hb hb
  · rw [ha, hb]
  · exact (List.cons.inj (List.append_cancel_left (Option.some.inj h))).2

theorem sectionAccounts_iff {today : Date} {header body : Text} {entries : List QuestionEntry} :
    SectionAccounts today header (payloadSection header body) entries ↔
      Accounts today body entries := by
  constructor
  · rintro ⟨body', hsame, haccounts⟩
    rwa [payloadSection_injective header hsame]
  · intro h
    exact ⟨body, rfl, h⟩

theorem openAboveDivider_blank {tables : UnicodeTables} {content : Text}
    (h : strip content = []) :
    openAboveDivider (OpenQuestionsFile.parse tables content).blocks = [] := by
  have hblank : ∀ line ∈ splitLines content, (strip line).isEmpty = true := by
    intro line hline
    rw [List.isEmpty_iff, strip, Trim.trim_eq_nil_iff]
    exact fun c hc => Trim.trim_eq_nil_iff.mp h c (mem_of_mem_splitLines hline hc)
  have hscan : ∀ lines : List Text, (∀ line ∈ lines, (strip line).isEmpty = true) →
      scanEntries none lines = [] := by
    intro lines hlines
    induction lines with
    | nil => rfl
    | cons line lines ih =>
        obtain ⟨hline, hrest⟩ := List.forall_mem_cons.mp hlines
        rw [scanEntries, opened?_of_blank hline, ih hrest]
  have hentries : (OpenQuestionsFile.parse tables content).entries = [] := by
    rw [entries_parse, hscan _ hblank]
  have hsublist : (openAboveDivider (OpenQuestionsFile.parse tables content).blocks).Sublist
      (OpenQuestionsFile.parse tables content).entries :=
    List.filter_sublist.trans ((List.takeWhile_sublist _).filterMap _)
  rw [hentries] at hsublist
  exact List.sublist_nil.mp hsublist

theorem renderOpenQuestions_blank {tables : UnicodeTables} {content : Text}
    (h : strip content = []) (limit : Nat) (today : Date) :
    renderOpenQuestions (OpenQuestionsFile.parse tables content) limit true today = [] := by
  rw [renderOpenQuestions_eq, openAboveDivider_blank h, List.take_nil, List.drop_nil]
  rfl

theorem l0QuestionsSection_eq (tables : UnicodeTables) (content : Text) (today : Date) :
    l0QuestionsSection tables content today =
      payloadSection "## Open Questions".toList
        (renderOpenQuestions (OpenQuestionsFile.parse tables content) l0QuestionsLimit true
          today) := by
  unfold l0QuestionsSection renderL0OpenQuestions
  split_ifs with hblank
  · rw [renderOpenQuestions_blank hblank]
  · rfl

theorem l1QuestionsSection_eq (tables : UnicodeTables) (content : Text) (today : Date) :
    l1QuestionsSection tables content today =
      payloadSection (OpenQuestionsFile.parse tables content).header
        (renderOpenQuestions (OpenQuestionsFile.parse tables content) l1QuestionsLimit true
          today) := by
  unfold l1QuestionsSection
  split_ifs with hblank
  · rw [renderOpenQuestions_blank hblank]
    rfl
  · rfl

/-- Both payloads account for the open entries outside the resolved sections exactly when those
below a divider stand in a section headed `## Resolved`. -/
theorem sections_account_iff {tables : UnicodeTables} (hlawful : tables.Lawful) (content : Text)
    (today : Date) :
    (SectionAccounts today "## Open Questions".toList (l0QuestionsSection tables content today)
        (openOutsideResolved false (OpenQuestionsFile.parse tables content).blocks) ∧
      SectionAccounts today (OpenQuestionsFile.parse tables content).header
        (l1QuestionsSection tables content today)
        (openOutsideResolved false (OpenQuestionsFile.parse tables content).blocks)) ↔
      OpenAboveDivider (OpenQuestionsFile.parse tables content).blocks := by
  obtain ⟨hidden, hsplit, hiff⟩ := openOutsideResolved_split (parse_dividesExact hlawful content)
  have haccounts : ∀ limit, Accounts today
      (renderOpenQuestions (OpenQuestionsFile.parse tables content) limit true today)
      (openOutsideResolved false (OpenQuestionsFile.parse tables content).blocks) ↔
        hidden = [] := by
    intro limit
    rw [hsplit, renderOpenQuestions_eq]
    exact accounts_append_iff
  rw [l0QuestionsSection_eq, l1QuestionsSection_eq, sectionAccounts_iff, sectionAccounts_iff,
    haccounts, haccounts, and_self, hiff]

/-- A file with a question below a header on unresolved threads. -/
def unresolvedThreads : Text :=
  "# Open Questions\n\n## Unresolved threads\n- [Q1] Which queue?\n".toList

/-- A file whose question stands above the divider. -/
def settledThreads : Text :=
  "# Open Questions\n\n- [Q1] Which queue?\n\n## Resolved\n".toList

/-- A file without open entries below its divider is accounted for. -/
theorem settledThreads_accounted :
    SectionAccounts ⟨2026, 5, 14, by decide⟩ "## Open Questions".toList
      (l0QuestionsSection .ascii settledThreads ⟨2026, 5, 14, by decide⟩)
      (openOutsideResolved false (OpenQuestionsFile.parse .ascii settledThreads).blocks) ∧
    SectionAccounts ⟨2026, 5, 14, by decide⟩ (OpenQuestionsFile.parse .ascii settledThreads).header
      (l1QuestionsSection .ascii settledThreads ⟨2026, 5, 14, by decide⟩)
      (openOutsideResolved false (OpenQuestionsFile.parse .ascii settledThreads).blocks) := by
  refine (sections_account_iff UnicodeTables.ascii_lawful settledThreads _).mpr ?_
  obtain ⟨hidden, hsplit, hiff⟩ := openOutsideResolved_split
    (parse_dividesExact UnicodeTables.ascii_lawful settledThreads)
  have habove : openOutsideResolved false (OpenQuestionsFile.parse .ascii settledThreads).blocks =
      openAboveDivider (OpenQuestionsFile.parse .ascii settledThreads).blocks := by
    decide +kernel
  rw [habove] at hsplit
  exact hiff.mp (List.self_eq_append_right.mp hsplit)

/-- The question below such a header is neither shown nor counted. -/
theorem unresolvedThreads_hidden :
    l0QuestionsSection .ascii unresolvedThreads ⟨2026, 5, 14, by decide⟩ = none ∧
      l1QuestionsSection .ascii unresolvedThreads ⟨2026, 5, 14, by decide⟩ = none ∧
      (openOutsideResolved false (OpenQuestionsFile.parse .ascii unresolvedThreads).blocks).map
        QuestionEntry.id = ["Q1".toList] := by
  decide +kernel

end Questions
end Core
end Nauro
