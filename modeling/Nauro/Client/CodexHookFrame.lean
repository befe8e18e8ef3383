import Nauro.Client.CodexHookLines
import Nauro.Foundation.Table

/-!
# What the transform of Codex hooks keeps

* `codex_hooks_iff` — the configurations in which hooks are installed.
-/

namespace Nauro
namespace Client
namespace CodexHooks

open Foundation Foundation.Json Nauro.Core

/-! ## Objects -/

theorem lookup_setMember_self (key : Str) (value : Value) (members : Members) :
    (setMember key value members).lookup key = some value := by
  induction members with
  | nil => exact List.lookup_cons_self
  | cons member rest ih =>
      obtain ⟨other, old⟩ := member
      rw [setMember]
      split_ifs with heq
      · rw [heq]
        exact List.lookup_cons_self
      · rw [List.lookup_cons, beq_eq_false_iff_ne.mpr (Ne.symm heq)]
        exact ih

theorem lookup_setMember_ne {key other : Str} (hne : other ≠ key) (value : Value)
    (members : Members) : (setMember key value members).lookup other = members.lookup other := by
  induction members with
  | nil =>
      show List.lookup other [(key, value)] = _
      rw [List.lookup_cons, beq_eq_false_iff_ne.mpr hne]
  | cons member rest ih =>
      obtain ⟨first, old⟩ := member
      rw [setMember]
      split_ifs with heq
      · rw [List.lookup_cons, List.lookup_cons, heq, beq_eq_false_iff_ne.mpr hne]
      · rw [List.lookup_cons, List.lookup_cons, ih]

theorem lookup_filter_key (keep : Str → Bool) (key : Str) (members : Members) :
    (members.filter fun member => keep member.1).lookup key =
      if keep key then members.lookup key else none := by
  induction members with
  | nil => exact (ite_self _).symm
  | cons member rest ih =>
      obtain ⟨other, value⟩ := member
      rw [List.filter_cons]
      by_cases heq : key = other
      · subst heq
        cases hkeep : keep key with
        | true => rw [if_pos rfl, if_pos rfl, List.lookup_cons_self, List.lookup_cons_self]
        | false =>
            rw [if_neg Bool.false_ne_true, ih, hkeep]
            rfl
      · have hbeq : (key == other) = false := beq_eq_false_iff_ne.mpr heq
        rw [List.lookup_cons, hbeq, ← ih]
        split_ifs with hother
        · rw [List.lookup_cons, hbeq]
        · rfl

theorem popMember_cons_self (key : Str) (value : Value) (rest : Members) :
    popMember key ((key, value) :: rest) = popMember key rest :=
  List.filter_cons_of_neg fun hin => of_decide_eq_true hin rfl

theorem popMember_cons_ne {key other : Str} (hne : other ≠ key) (value : Value) (rest : Members) :
    popMember key ((other, value) :: rest) = (other, value) :: popMember key rest :=
  List.filter_cons_of_pos (decide_eq_true hne)

theorem lookup_popMember_self (key : Str) (members : Members) :
    (popMember key members).lookup key = none := by
  have hfilter := lookup_filter_key (fun other => decide (other ≠ key)) key members
  have hself : ¬ decide (key ≠ key) = true := fun h => of_decide_eq_true h rfl
  rwa [if_neg hself] at hfilter

theorem lookup_popMember_ne {key other : Str} (hne : other ≠ key) (members : Members) :
    (popMember key members).lookup other = members.lookup other := by
  have hfilter := lookup_filter_key (fun other => decide (other ≠ key)) other members
  rwa [if_pos (decide_eq_true hne)] at hfilter

/-- Setting a member changes no other one. -/
theorem filter_setMember (keep : Str → Bool) {key : Str} (hkeep : keep key = false) (value : Value)
    (members : Members) :
    (setMember key value members).filter (fun member => keep member.1) =
      members.filter fun member => keep member.1 := by
  induction members with
  | nil => exact List.filter_cons_of_neg (by rw [hkeep]; exact Bool.false_ne_true)
  | cons member rest ih =>
      obtain ⟨other, old⟩ := member
      rw [setMember]
      split_ifs with heq
      · have hother : ¬ keep other = true := by
          rw [heq, hkeep]
          exact Bool.false_ne_true
        rw [List.filter_cons, List.filter_cons, if_neg hother, if_neg hother]
      · rw [List.filter_cons, List.filter_cons, ih]

theorem filter_popMember (keep : Str → Bool) {key : Str} (hkeep : keep key = false)
    (members : Members) :
    (popMember key members).filter (fun member => keep member.1) =
      members.filter fun member => keep member.1 := by
  rw [popMember, List.filter_filter]
  refine List.filter_congr fun member _ => ?_
  cases hmember : keep member.1 with
  | false => exact Bool.false_and _
  | true =>
      refine (Bool.true_and _).trans (decide_eq_true ?_)
      rintro heq
      rw [heq, hkeep] at hmember
      cases hmember

theorem setMember_setMember (key : Str) (value value' : Value) (members : Members) :
    setMember key value (setMember key value' members) = setMember key value members := by
  induction members with
  | nil => exact if_pos rfl
  | cons member rest ih =>
      obtain ⟨other, old⟩ := member
      by_cases heq : other = key
      · rw [setMember, if_pos heq, setMember, if_pos heq, setMember, if_pos heq]
      · rw [setMember, if_neg heq, setMember, if_neg heq, setMember, if_neg heq, ih]

theorem setMember_of_lookup {key : Str} {value : Value} {members : Members}
    (h : members.lookup key = some value) : setMember key value members = members := by
  induction members with
  | nil => cases h
  | cons member rest ih =>
      obtain ⟨other, old⟩ := member
      by_cases heq : other = key
      · rw [heq, List.lookup_cons_self] at h
        rw [setMember, if_pos heq, Option.some.inj h]
      · rw [List.lookup_cons, beq_eq_false_iff_ne.mpr (Ne.symm heq)] at h
        rw [setMember, if_neg heq, ih h]

theorem popMember_setMember_self {key : Str} {members : Members}
    (h : members.lookup key = none) (value : Value) :
    popMember key (setMember key value members) = members := by
  induction members with
  | nil => exact popMember_cons_self key value []
  | cons member rest ih =>
      obtain ⟨other, old⟩ := member
      by_cases heq : other = key
      · rw [heq, List.lookup_cons_self] at h
        cases h
      · rw [List.lookup_cons, beq_eq_false_iff_ne.mpr (Ne.symm heq)] at h
        rw [setMember, if_neg heq, popMember_cons_ne heq, ih h]

theorem popMember_setMember_ne {key other : Str} (hne : other ≠ key) (value : Value)
    (members : Members) :
    popMember key (setMember other value members) =
      setMember other value (popMember key members) := by
  induction members with
  | nil => exact popMember_cons_ne hne value []
  | cons member rest ih =>
      obtain ⟨first, old⟩ := member
      by_cases hfirst : first = other
      · have hkey : first ≠ key := hfirst ▸ hne
        rw [setMember, if_pos hfirst, popMember_cons_ne hkey, popMember_cons_ne hkey, setMember,
          if_pos hfirst]
      · rw [setMember, if_neg hfirst]
        by_cases hkey : first = key
        · rw [hkey, popMember_cons_self, popMember_cons_self, ih]
        · rw [popMember_cons_ne hkey, popMember_cons_ne hkey, setMember, if_neg hfirst, ih]

/-- A member that is there is set in its place, whether another one is set before or after. -/
theorem setMember_comm {key other : Str} (hne : other ≠ key) {members : Members}
    (h : (members.lookup key).isSome) (value value' : Value) :
    setMember key value (setMember other value' members) =
      setMember other value' (setMember key value members) := by
  induction members with
  | nil => cases h
  | cons member rest ih =>
      obtain ⟨first, old⟩ := member
      by_cases hkey : first = key
      · have hother : ¬ first = other := fun heq => hne (heq.symm.trans hkey)
        rw [setMember, if_neg hother, setMember, if_pos hkey, setMember, if_pos hkey, setMember,
          if_neg hother]
      · rw [List.lookup_cons, beq_eq_false_iff_ne.mpr (Ne.symm hkey)] at h
        by_cases hother : first = other
        · rw [setMember, if_pos hother, setMember, if_neg hkey, setMember, if_neg hkey, setMember,
            if_pos hother]
        · rw [setMember, if_neg hother, setMember, if_neg hkey, setMember, if_neg hkey, setMember,
            if_neg hother, ih h]

/-! ## Matchers -/

/-- What becomes of a matcher when the entries of Nauro go: it stays when it has none, it keeps
all but these entries, or it goes when nothing else is left of it. -/
inductive KeepsMatcher : Value → Option Value → Prop
  | same {matcher : Value} (h : ∀ entry ∈ matcherEntries matcher, isNauroHook entry = false) :
      KeepsMatcher matcher (some matcher)
  | cut {members : Members} {entries : List Value}
      (hentries : members.lookup hooksKey = some (.array entries)) :
      KeepsMatcher (.object members) (some (.object (setMember hooksKey
        (.array (entries.filter fun entry => !isNauroHook entry)) members)))
  | dropped {members : Members} {entries : List Value}
      (hentries : members.lookup hooksKey = some (.array entries))
      (hall : ∀ entry ∈ entries, isNauroHook entry = true)
      (honly : ∀ member ∈ members, member.1 = hooksKey) : KeepsMatcher (.object members) none

/-- Matchers without the entries of Nauro. -/
def Keeps (matchers kept : List Value) : Prop :=
  ∃ options, List.Forall₂ KeepsMatcher matchers options ∧ kept = options.filterMap id

theorem matcherEntries_object {members : Members} {entries : List Value}
    (h : members.lookup hooksKey = some (.array entries)) :
    matcherEntries (.object members) = entries := by
  rw [matcherEntries, h]

/-- The entries that are kept are those that are not of Nauro. -/
theorem KeepsMatcher.entries {matcher : Value} {kept : Option Value}
    (h : KeepsMatcher matcher kept) :
    kept.elim [] matcherEntries =
      (matcherEntries matcher).filter fun entry => !isNauroHook entry := by
  cases h with
  | same h =>
      refine (List.filter_eq_self.mpr fun entry hin => ?_).symm
      rw [h entry hin]
      rfl
  | cut hentries =>
      rw [matcherEntries_object hentries]
      exact matcherEntries_object (lookup_setMember_self _ _ _)
  | dropped hentries hall honly =>
      rw [matcherEntries_object hentries]
      refine (List.filter_eq_nil_iff.mpr fun entry hin => ?_).symm
      rw [hall entry hin]
      exact Bool.false_ne_true

theorem Keeps.entries {matchers kept : List Value} (h : Keeps matchers kept) :
    kept.flatMap matcherEntries =
      (matchers.flatMap matcherEntries).filter fun entry => !isNauroHook entry := by
  obtain ⟨options, hoptions, rfl⟩ := h
  induction hoptions with
  | nil => rfl
  | @cons matcher option matchers options hone hrest ih =>
      rw [List.flatMap_cons, List.filter_append, ← ih, ← hone.entries]
      cases option with
      | none => rfl
      | some matcher => rfl

theorem matcherEntries_eq_nil_of_ne {members : Members}
    (h : ∀ entries, members.lookup hooksKey ≠ some (.array entries)) :
    matcherEntries (.object members) = [] := by
  rw [matcherEntries]
  split
  · rename_i entries hentries
    exact absurd hentries (h entries)
  · rfl

theorem keepsMatcher_stripMatcher (matcher : Value) :
    KeepsMatcher matcher (stripMatcher isNauroHook matcher).1 := by
  cases matcher with
  | null => exact .same (List.forall_mem_nil _)
  | bool b => exact .same (List.forall_mem_nil _)
  | int n => exact .same (List.forall_mem_nil _)
  | float lexeme => exact .same (List.forall_mem_nil _)
  | string s => exact .same (List.forall_mem_nil _)
  | array items => exact .same (List.forall_mem_nil _)
  | object members =>
      unfold stripMatcher
      simp only
      split
      · rename_i entries hentries
        have hcount := List.length_filter_le (fun entry => !isNauroHook entry) entries
        split_ifs with hnone hkept hmeta
        · refine .same fun entry hin => ?_
          rw [matcherEntries_object hentries] at hin
          have hall := List.length_filter_eq_length_iff.mp (le_antisymm hcount (by omega)) entry hin
          rwa [Bool.not_eq_true'] at hall
        · exact .cut hentries
        · have hcut := KeepsMatcher.cut hentries
          rwa [not_not.mp hkept] at hcut
        · refine .dropped hentries (fun entry hin => ?_) fun member hin => ?_
          · have hout := List.filter_eq_nil_iff.mp (not_not.mp hkept) entry hin
            rwa [Bool.not_eq_true', Bool.not_eq_false] at hout
          · by_contra hne
            exact hmeta (List.any_eq_true.mpr ⟨member, hin, decide_eq_true hne⟩)
      · rename_i hother
        refine .same fun entry hin => ?_
        rw [matcherEntries_eq_nil_of_ne hother] at hin
        cases hin

theorem keeps_stripOwnedHookEntries (matchers : List Value) :
    Keeps matchers (stripOwnedHookEntries matchers isNauroHook).1 := by
  refine ⟨(matchers.map (stripMatcher isNauroHook)).map Prod.fst, ?_, ?_⟩
  · rw [List.map_map, List.forall₂_map_right_iff]
    exact List.forall₂_same.mpr fun matcher _ => keepsMatcher_stripMatcher matcher
  · rw [List.filterMap_map]
    rfl

/-- Matchers without entries of Nauro stay as they are. -/
theorem stripMatcher_of_unowned {matcher : Value}
    (h : ∀ entry ∈ matcherEntries matcher, isNauroHook entry = false) :
    (stripMatcher isNauroHook matcher).1 = some matcher := by
  cases matcher with
  | null => rfl
  | bool b => rfl
  | int n => rfl
  | float lexeme => rfl
  | string s => rfl
  | array items => rfl
  | object members =>
      unfold stripMatcher
      simp only
      split
      · rename_i entries hentries
        rw [matcherEntries_object hentries] at h
        have hall : (entries.filter fun entry => !isNauroHook entry) = entries := by
          refine List.filter_eq_self.mpr fun entry hin => ?_
          rw [h entry hin]
          rfl
        rw [hall, Nat.sub_self, if_pos rfl]
      · rfl

theorem stripOwned_of_unowned {matchers : List Value}
    (h : ∀ entry ∈ matchers.flatMap matcherEntries, isNauroHook entry = false) :
    (stripOwnedHookEntries matchers isNauroHook).1 = matchers := by
  have hfilter : (matchers.map (stripMatcher isNauroHook)).filterMap Prod.fst =
      matchers.filterMap some := by
    rw [List.filterMap_map]
    exact List.filterMap_congr fun matcher hin => stripMatcher_of_unowned fun entry hentry =>
      h entry (List.mem_flatMap.mpr ⟨matcher, hin, hentry⟩)
  rw [stripOwnedHookEntries, hfilter, List.filterMap_some]

/-! ## Events -/

/-- The matchers of an event. -/
def matchersOf (hooks : Members) (event : Str) : List Value :=
  match hooks.lookup event with
  | some (.array matchers) => matchers
  | _ => []

/-- The hooks of a configuration. -/
def hooksOf (config : Members) : Members :=
  match config.lookup hooksKey with
  | some (.object hooks) => hooks
  | _ => []

/-- No entry of an event is one of Nauro. -/
def Unowned (hooks : Members) (event : Str) : Prop :=
  ∀ entry ∈ (matchersOf hooks event).flatMap matcherEntries, isNauroHook entry = false

/-- An event is absent, or it has matchers, and no entry of it is one of Nauro. -/
structure Clean (hooks : Members) (event : Str) : Prop where
  listed : hooks.lookup event = none ∨
    ∃ matchers, matchers ≠ [] ∧ hooks.lookup event = some (.array matchers)
  unowned : Unowned hooks event

theorem matchersOf_eq {hooks : Members} {event : Str} {matchers : List Value}
    (h : hooks.lookup event = some (.array matchers)) : matchersOf hooks event = matchers := by
  rw [matchersOf, h]

theorem matchersOf_of_none {hooks : Members} {event : Str} (h : hooks.lookup event = none) :
    matchersOf hooks event = [] := by
  rw [matchersOf, h]

theorem matchersOf_congr {hooks hooks' : Members} {event : Str}
    (h : hooks.lookup event = hooks'.lookup event) :
    matchersOf hooks event = matchersOf hooks' event := by
  rw [matchersOf, matchersOf, h]

/-- The shapes of an event that pass the check. -/
def IsListed (hooks : Members) (event : Str) : Prop :=
  hooks.lookup event = none ∨ hooks.lookup event = some .null ∨
    ∃ matchers, hooks.lookup event = some (.array matchers)

theorem strip_of_array {event : Str} {hooks : Members} {matchers : List Value}
    (h : hooks.lookup event = some (.array matchers)) :
    (stripNauroEvent event hooks).1 =
      if (stripOwnedHookEntries matchers isNauroHook).1 = [] then popMember event hooks
      else setMember event (.array (stripOwnedHookEntries matchers isNauroHook).1) hooks := by
  unfold stripNauroEvent
  simp only [h]
  split_ifs <;> rfl

theorem strip_of_ne {event : Str} {hooks : Members}
    (h : ∀ matchers, hooks.lookup event ≠ some (.array matchers)) :
    (stripNauroEvent event hooks).1 = hooks := by
  unfold stripNauroEvent
  split
  · exact absurd ‹_› (h _)
  · rfl

/-- The matchers of an event after its entries of Nauro went. -/
theorem matchersOf_strip (event : Str) (hooks : Members) :
    matchersOf (stripNauroEvent event hooks).1 event =
      (stripOwnedHookEntries (matchersOf hooks event) isNauroHook).1 := by
  by_cases harray : ∃ matchers, hooks.lookup event = some (.array matchers)
  · obtain ⟨matchers, h⟩ := harray
    rw [strip_of_array h, matchersOf_eq h]
    split_ifs with hnil
    · rw [hnil, matchersOf_of_none (lookup_popMember_self _ _)]
    · exact matchersOf_eq (lookup_setMember_self _ _ _)
  · have hne : ∀ matchers, hooks.lookup event ≠ some (.array matchers) :=
      fun matchers h => harray ⟨matchers, h⟩
    have hnil : matchersOf hooks event = [] := by
      unfold matchersOf
      split
      · exact absurd ‹_› (hne _)
      · rfl
    rw [strip_of_ne hne, hnil]
    rfl

theorem unowned_strip (event : Str) (hooks : Members) :
    Unowned (stripNauroEvent event hooks).1 event := by
  intro entry hin
  rw [matchersOf_strip, (keeps_stripOwnedHookEntries _).entries] at hin
  have hkept := (List.mem_filter.mp hin).2
  rwa [Bool.not_eq_true'] at hkept

theorem lookup_strip_ne {event other : Str} (hne : other ≠ event) (hooks : Members) :
    (stripNauroEvent event hooks).1.lookup other = hooks.lookup other := by
  by_cases harray : ∃ matchers, hooks.lookup event = some (.array matchers)
  · obtain ⟨matchers, h⟩ := harray
    rw [strip_of_array h]
    split_ifs with hnil
    · exact lookup_popMember_ne hne hooks
    · exact lookup_setMember_ne hne _ hooks
  · rw [strip_of_ne fun matchers h => harray ⟨matchers, h⟩]

theorem filter_strip (keep : Str → Bool) {event : Str} (hkeep : keep event = false)
    (hooks : Members) :
    (stripNauroEvent event hooks).1.filter (fun member => keep member.1) =
      hooks.filter fun member => keep member.1 := by
  by_cases harray : ∃ matchers, hooks.lookup event = some (.array matchers)
  · obtain ⟨matchers, h⟩ := harray
    rw [strip_of_array h]
    split_ifs with hnil
    · exact filter_popMember keep hkeep hooks
    · exact filter_setMember keep hkeep _ hooks
  · rw [strip_of_ne fun matchers h => harray ⟨matchers, h⟩]

/-- What an event is after its entries of Nauro went. -/
theorem lookup_strip_self {event : Str} {hooks : Members} (h : IsListed hooks event) :
    ((stripNauroEvent event hooks).1.lookup event = some .null ∧
        hooks.lookup event = some .null) ∨
      (hooks.lookup event ≠ some .null ∧ Clean (stripNauroEvent event hooks).1 event) := by
  rcases h with hnone | hnull | ⟨matchers, harray⟩
  · have hne : ∀ matchers, hooks.lookup event ≠ some (.array matchers) := by
      intro matchers heq
      rw [hnone] at heq
      cases heq
    refine Or.inr ⟨?_, ?_, unowned_strip event hooks⟩
    · rw [hnone]
      exact fun h => by cases h
    · rw [strip_of_ne hne]
      exact Or.inl hnone
  · refine Or.inl ⟨?_, hnull⟩
    rw [strip_of_ne fun matchers heq => ?_]
    · exact hnull
    · rw [hnull] at heq
      cases heq
  · refine Or.inr ⟨?_, ?_, unowned_strip event hooks⟩
    · rw [harray]
      exact fun h => by cases h
    · rw [strip_of_array harray]
      split_ifs with hnil
      · exact Or.inl (lookup_popMember_self _ _)
      · exact Or.inr ⟨_, hnil, lookup_setMember_self _ _ _⟩

/-- Taking the entries of one event away leaves another event that is set as it is. -/
theorem strip_setMember {event other : Str} (hne : other ≠ event) (value : Value)
    (hooks : Members) :
    (stripNauroEvent event (setMember other value hooks)).1 =
      setMember other value (stripNauroEvent event hooks).1 := by
  have hlookup := lookup_setMember_ne (Ne.symm hne) value hooks
  by_cases harray : ∃ matchers, hooks.lookup event = some (.array matchers)
  · obtain ⟨matchers, h⟩ := harray
    rw [strip_of_array (hlookup.trans h), strip_of_array h]
    split_ifs with hnil
    · exact popMember_setMember_ne hne value hooks
    · exact setMember_comm hne (by rw [h]; rfl) _ _
  · rw [strip_of_ne fun matchers h => harray ⟨matchers, h⟩,
      strip_of_ne fun matchers h => harray ⟨matchers, hlookup.symm.trans h⟩]

/-- One more matcher for an event. -/
def added (matcher : Value) (event : Str) (hooks : Members) : Members :=
  setMember event (.array (matchersOf hooks event ++ [matcher])) hooks

theorem addMatcher_of_clean {matcher : Value} {event : Str} {hooks : Members}
    (h : Clean hooks event) : addMatcher matcher event hooks = .ok (added matcher event hooks) := by
  unfold addMatcher added
  rcases h.listed with hnone | ⟨matchers, -, harray⟩
  · rw [hnone, matchersOf_of_none hnone]
    rfl
  · rw [harray, matchersOf_eq harray]

/-- A matcher that has entries of Nauro only. -/
def IsOwnMatcher (matcher : Value) : Prop :=
  (stripMatcher isNauroHook matcher).1 = none

theorem stripOwned_append {matchers : List Value} {matcher : Value}
    (h : ∀ entry ∈ matchers.flatMap matcherEntries, isNauroHook entry = false)
    (hown : IsOwnMatcher matcher) :
    (stripOwnedHookEntries (matchers ++ [matcher]) isNauroHook).1 = matchers := by
  have hmatchers := stripOwned_of_unowned h
  unfold stripOwnedHookEntries at hmatchers ⊢
  rw [List.map_append, List.filterMap_append]
  simp only [List.map_cons, List.map_nil]
  rw [List.filterMap_cons_none hown, List.filterMap_nil, List.append_nil]
  exact hmatchers

/-- What was added to a clean event is what is taken away. -/
theorem strip_added {matcher : Value} {event : Str} {hooks : Members} (h : Clean hooks event)
    (hown : IsOwnMatcher matcher) :
    (stripNauroEvent event (added matcher event hooks)).1 = hooks := by
  have hstripped := stripOwned_append h.unowned hown
  unfold added
  rw [strip_of_array (lookup_setMember_self _ _ _), hstripped]
  rcases h.listed with hnone | ⟨matchers, hne, harray⟩
  · rw [if_pos (matchersOf_of_none hnone)]
    exact popMember_setMember_self hnone _
  · rw [matchersOf_eq harray, if_neg hne, setMember_setMember]
    exact setMember_of_lookup harray

theorem strip_of_clean {event : Str} {hooks : Members} (h : Clean hooks event) :
    (stripNauroEvent event hooks).1 = hooks := by
  rcases h.listed with hnone | ⟨matchers, hne, harray⟩
  · refine strip_of_ne fun matchers heq => ?_
    rw [hnone] at heq
    cases heq
  · have hunowned := h.unowned
    rw [Unowned, matchersOf_eq harray] at hunowned
    rw [strip_of_array harray, stripOwned_of_unowned hunowned, if_neg hne]
    exact setMember_of_lookup harray

/-! ## The transform -/

/-- The matcher that an installation adds to each event. -/
def ownMatcher (absolute : Str → Bool) (command : Str) : Value :=
  .object [(hooksKey, .array [renderNauroHook absolute command])]

theorem isOwnMatcher_ownMatcher (absolute : Str → Bool) (command : Str) :
    IsOwnMatcher (ownMatcher absolute command) := by
  have hfilter : [renderNauroHook absolute command].filter (fun entry => !isNauroHook entry) =
      [] := by
    rw [List.filter_cons, isNauroHook_render]
    rfl
  unfold IsOwnMatcher ownMatcher stripMatcher
  simp only [List.lookup_cons_self, hfilter]
  rfl

def sessionStart : Str := str "SessionStart"
def subagentStart : Str := str "SubagentStart"

theorem subagentStart_ne : subagentStart ≠ sessionStart := by decide

theorem stripNauroEvents_eq (hooks : Members) :
    (stripNauroEvents hooks).1 =
      (stripNauroEvent subagentStart (stripNauroEvent sessionStart hooks).1).1 :=
  rfl

theorem transform_some {absolute : Str → Bool} {config : Members} {command : Str}
    (hvalid : validateCodexHooks config = .ok ()) :
    transformCodexHooks absolute config (some command) = (do
      let first ← addMatcher (ownMatcher absolute command) sessionStart
        (stripNauroEvents (hooksOf config)).1
      let second ← addMatcher (ownMatcher absolute command) subagentStart first
      .ok
        { config := setMember hooksKey (.object second) config
          removed := (stripNauroEvents (hooksOf config)).2 }) := by
  unfold transformCodexHooks hooksOf
  rw [hvalid]
  rcases hlookup : config.lookup hooksKey with _ | value
  · rfl
  · cases value with
    | null => rfl
    | bool b => rfl
    | int n => rfl
    | float lexeme => rfl
    | string s => rfl
    | array items => rfl
    | object members =>
        simp only [Option.getD_some, codexHookEvents, List.foldlM_cons, List.foldlM_nil,
          bind_assoc, pure_bind]
        rfl

theorem hooksOf_setMember (hooks config : Members) :
    hooksOf (setMember hooksKey (.object hooks) config) = hooks := by
  rw [hooksOf, lookup_setMember_self]

theorem hooksOf_of_not {config : Members}
    (h : ¬ ∃ hooks, config.lookup hooksKey = some (.object hooks)) : hooksOf config = [] := by
  unfold hooksOf
  split
  · rename_i hooks hlookup
    exact absurd ⟨hooks, hlookup⟩ h
  · rfl

/-- Members of a configuration apart from its hooks. -/
def otherMembers (config : Members) : Members :=
  config.filter fun member => decide (member.1 ≠ hooksKey)

theorem not_ne_self (key : Str) : decide (key ≠ key) = false :=
  decide_eq_false fun h => h rfl

theorem otherMembers_setMember (value : Value) (config : Members) :
    otherMembers (setMember hooksKey value config) = otherMembers config :=
  filter_setMember (fun key => decide (key ≠ hooksKey)) (not_ne_self hooksKey) value config

theorem otherMembers_popMember (config : Members) :
    otherMembers (popMember hooksKey config) = otherMembers config :=
  filter_popMember (fun key => decide (key ≠ hooksKey)) (not_ne_self hooksKey) config

/-- A removal takes the entries of the two events away and touches nothing else. -/
theorem transform_none (absolute : Str → Bool) {config : Members}
    (hvalid : validateCodexHooks config = .ok ()) :
    ∃ result, transformCodexHooks absolute config none = .ok result ∧
      hooksOf result.config = (stripNauroEvents (hooksOf config)).1 ∧
      otherMembers result.config = otherMembers config := by
  by_cases hobject : ∃ hooks, config.lookup hooksKey = some (.object hooks)
  · obtain ⟨hooks, hlookup⟩ := hobject
    have hhooks : hooksOf config = hooks := by rw [hooksOf, hlookup]
    refine ⟨⟨if (stripNauroEvents hooks).1 = [] then popMember hooksKey config
      else setMember hooksKey (.object (stripNauroEvents hooks).1) config,
      (stripNauroEvents hooks).2⟩, ?_, ?_, ?_⟩
    · unfold transformCodexHooks
      rw [hvalid, hlookup]
      rfl
    · rw [hhooks]
      split_ifs with hnil
      · rw [hnil, hooksOf, lookup_popMember_self]
      · exact hooksOf_setMember _ _
    · split_ifs with hnil
      · exact otherMembers_popMember config
      · exact otherMembers_setMember _ config
  · have hnone := hooksOf_of_not hobject
    refine ⟨{ config, removed := 0 }, ?_, ?_, rfl⟩
    · unfold transformCodexHooks
      rw [hvalid]
      rcases hlookup : config.lookup hooksKey with _ | value
      · rfl
      · cases value with
        | object hooks => exact absurd ⟨hooks, hlookup⟩ hobject
        | null => rfl
        | bool b => rfl
        | int n => rfl
        | float lexeme => rfl
        | string s => rfl
        | array items => rfl
    · rw [hnone]
      rfl

/-- The matchers of an event are absent or listed when the configuration passes the check. -/
theorem isListed_of_valid {config : Members} (hvalid : validateCodexHooks config = .ok ())
    {event : Str} (hevent : event ∈ codexHookEvents) : IsListed (hooksOf config) event := by
  by_cases hobject : ∃ hooks, config.lookup hooksKey = some (.object hooks)
  · obtain ⟨hooks, hlookup⟩ := hobject
    have hhooks : hooksOf config = hooks := by rw [hooksOf, hlookup]
    unfold validateCodexHooks at hvalid
    rw [hlookup] at hvalid
    simp only at hvalid
    split at hvalid
    · cases hvalid
    · rename_i hfind
      have hshape := List.find?_eq_none.mp hfind event hevent
      rw [hhooks]
      unfold IsListed
      rcases hevent : hooks.lookup event with _ | value
      · exact Or.inl rfl
      · rw [hevent] at hshape
        cases value with
        | null => exact Or.inr (Or.inl rfl)
        | array matchers => exact Or.inr (Or.inr ⟨matchers, rfl⟩)
        | bool b => exact absurd rfl hshape
        | int n => exact absurd rfl hshape
        | float lexeme => exact absurd rfl hshape
        | string s => exact absurd rfl hshape
        | object members => exact absurd rfl hshape
  · have hnone := hooksOf_of_not hobject
    rw [hnone]
    exact Or.inl rfl

/-! ## The frame -/

/-- Events that are kept in their order: those that are not of Codex, and those with a matcher
that outlives the entries of Nauro. -/
def stays (hooks : Members) (event : Str) : Bool :=
  !codexHookEvents.contains event ||
    !(stripOwnedHookEntries (matchersOf hooks event) isNauroHook).1.isEmpty

/-- Hooks whose events of Codex keep their matchers but for the entries of Nauro, followed by the
given ones, and whose other events are the same. -/
structure FramedHooks (hooks result : Members) (extra : List Value) : Prop where
  others : (result.filter fun member => !codexHookEvents.contains member.1) =
    hooks.filter fun member => !codexHookEvents.contains member.1
  events : ∀ event ∈ codexHookEvents, ∃ kept, Keeps (matchersOf hooks event) kept ∧
    matchersOf result event = kept ++ extra
  order : (result.map Prod.fst).filter (stays hooks) = (hooks.map Prod.fst).filter (stays hooks)

/-- A configuration with framed hooks and the same other members. -/
structure Framed (config result : Members) (extra : List Value) : Prop where
  members : otherMembers result = otherMembers config
  hooks : FramedHooks (hooksOf config) (hooksOf result) extra

theorem keys_setMember_of_isSome {key : Str} {members : Members} (h : (members.lookup key).isSome)
    (value : Value) : (setMember key value members).map Prod.fst = members.map Prod.fst := by
  induction members with
  | nil => cases h
  | cons member rest ih =>
      obtain ⟨other, old⟩ := member
      rw [setMember]
      split_ifs with heq
      · rfl
      · rw [List.lookup_cons, beq_eq_false_iff_ne.mpr (Ne.symm heq)] at h
        rw [List.map_cons, List.map_cons, ih h]

theorem map_filter_keys (keep : Str → Bool) (members : Members) :
    (members.map Prod.fst).filter keep =
      (members.filter fun member => keep member.1).map Prod.fst :=
  List.filter_map

/-- A member is set without a change to the order of the keys, when it stands there or is not
among the keys that count. -/
theorem keys_setMember {keep : Str → Bool} {key : Str} {members : Members}
    (h : (members.lookup key).isSome ∨ keep key = false) (value : Value) :
    ((setMember key value members).map Prod.fst).filter keep =
      (members.map Prod.fst).filter keep := by
  rcases h with hsome | hkeep
  · rw [keys_setMember_of_isSome hsome]
  · rw [map_filter_keys, map_filter_keys, filter_setMember keep hkeep]

theorem keys_strip {keep : Str → Bool} {event : Str} {hooks : Members}
    (h : (stripOwnedHookEntries (matchersOf hooks event) isNauroHook).1 = [] → keep event = false) :
    ((stripNauroEvent event hooks).1.map Prod.fst).filter keep =
      (hooks.map Prod.fst).filter keep := by
  by_cases harray : ∃ matchers, hooks.lookup event = some (.array matchers)
  · obtain ⟨matchers, hlookup⟩ := harray
    rw [matchersOf_eq hlookup] at h
    rw [strip_of_array hlookup]
    split_ifs with hnil
    · rw [map_filter_keys, map_filter_keys, filter_popMember keep (h hnil)]
    · exact keys_setMember (Or.inl (by rw [hlookup]; rfl)) _
  · rw [strip_of_ne fun matchers hlookup => harray ⟨matchers, hlookup⟩]

theorem stays_of_nil {hooks : Members} {event : Str} (hevent : event ∈ codexHookEvents)
    (h : (stripOwnedHookEntries (matchersOf hooks event) isNauroHook).1 = []) :
    stays hooks event = false := by
  rw [stays, h, List.contains_iff_mem.mpr hevent]
  rfl

theorem sessionStart_mem : sessionStart ∈ codexHookEvents := List.mem_cons_self

theorem subagentStart_mem : subagentStart ∈ codexHookEvents :=
  List.mem_cons_of_mem _ List.mem_cons_self

theorem matchersOf_strip_ne {event other : Str} (hne : other ≠ event) (hooks : Members) :
    matchersOf (stripNauroEvent event hooks).1 other = matchersOf hooks other :=
  matchersOf_congr (lookup_strip_ne hne hooks)

/-- The matchers of an event of Codex after both were taken away. -/
theorem matchersOf_stripEvents {event : Str} (hevent : event ∈ codexHookEvents) (hooks : Members) :
    matchersOf (stripNauroEvents hooks).1 event =
      (stripOwnedHookEntries (matchersOf hooks event) isNauroHook).1 := by
  rw [stripNauroEvents_eq]
  rcases List.mem_pair.mp hevent with rfl | rfl
  · exact (matchersOf_strip_ne subagentStart_ne.symm _).trans (matchersOf_strip sessionStart hooks)
  · exact (matchersOf_strip subagentStart _).trans
      (congrArg (fun matchers => (stripOwnedHookEntries matchers isNauroHook).1)
        (matchersOf_strip_ne subagentStart_ne hooks))

theorem framedHooks_strip (hooks : Members) :
    FramedHooks hooks (stripNauroEvents hooks).1 [] where
  others := by
    have hfirst : (!codexHookEvents.contains sessionStart) = false := by decide
    have hsecond : (!codexHookEvents.contains subagentStart) = false := by decide
    rw [stripNauroEvents_eq]
    exact (filter_strip (fun key => !codexHookEvents.contains key) hsecond _).trans
      (filter_strip (fun key => !codexHookEvents.contains key) hfirst hooks)
  events event hevent := by
    refine ⟨_, keeps_stripOwnedHookEntries _, ?_⟩
    rw [matchersOf_stripEvents hevent, List.append_nil]
  order := by
    rw [stripNauroEvents_eq]
    refine (keys_strip fun hnil => stays_of_nil subagentStart_mem ?_).trans
      (keys_strip fun hnil => stays_of_nil sessionStart_mem hnil)
    rwa [matchersOf_strip_ne subagentStart_ne] at hnil

/-! ## Installations -/

theorem Clean.congr {hooks hooks' : Members} {event : Str} (h : Clean hooks event)
    (heq : hooks'.lookup event = hooks.lookup event) : Clean hooks' event where
  listed := by
    rw [heq]
    exact h.listed
  unowned := by
    unfold Unowned
    rw [matchersOf_congr heq]
    exact h.unowned

theorem clean_stripEvents {hooks : Members} {event : Str} (hevent : event ∈ codexHookEvents)
    (hlisted : ∀ event ∈ codexHookEvents, IsListed hooks event)
    (hnull : ∀ event ∈ codexHookEvents, hooks.lookup event ≠ some .null) :
    Clean (stripNauroEvents hooks).1 event := by
  rw [stripNauroEvents_eq]
  rcases List.mem_pair.mp hevent with rfl | rfl
  · rcases lookup_strip_self (hlisted _ hevent) with ⟨-, h⟩ | ⟨-, h⟩
    · exact absurd h (hnull _ hevent)
    · exact h.congr (lookup_strip_ne subagentStart_ne.symm _)
  · have heq := lookup_strip_ne subagentStart_ne hooks
    have hother : IsListed (stripNauroEvent sessionStart hooks).1 subagentStart := by
      unfold IsListed
      rw [heq]
      exact hlisted _ hevent
    rcases lookup_strip_self hother with ⟨-, h⟩ | ⟨-, h⟩
    · exact absurd (heq.symm.trans h) (hnull _ hevent)
    · exact h

/-- One more matcher for each event of Codex. -/
def addedToEach (matcher : Value) (hooks : Members) : Members :=
  added matcher subagentStart (added matcher sessionStart hooks)

theorem lookup_added_ne {matcher : Value} {event other : Str} (hne : other ≠ event)
    (hooks : Members) : (added matcher event hooks).lookup other = hooks.lookup other :=
  lookup_setMember_ne hne _ hooks

theorem lookup_addedToEach {event : Str} (hevent : event ∈ codexHookEvents) (matcher : Value)
    (hooks : Members) :
    (addedToEach matcher hooks).lookup event =
      some (.array (matchersOf hooks event ++ [matcher])) := by
  rcases List.mem_pair.mp hevent with rfl | rfl
  · exact (lookup_added_ne subagentStart_ne.symm _).trans (lookup_setMember_self _ _ _)
  · have hmatchers : matchersOf (added matcher sessionStart hooks) subagentStart =
        matchersOf hooks subagentStart := matchersOf_congr (lookup_added_ne subagentStart_ne hooks)
    show _ = some (Value.array (matchersOf hooks subagentStart ++ [matcher]))
    rw [← hmatchers]
    exact lookup_setMember_self _ _ _

/-- Taking the entries away restores the hooks from before they were added. -/
theorem strip_addedToEach {matcher : Value} {hooks : Members}
    (h : ∀ event ∈ codexHookEvents, Clean hooks event) (hown : IsOwnMatcher matcher) :
    (stripNauroEvents (addedToEach matcher hooks)).1 = hooks := by
  have hfirst : (stripNauroEvent sessionStart (addedToEach matcher hooks)).1 =
      added matcher subagentStart hooks := by
    unfold addedToEach
    rw [added, strip_setMember subagentStart_ne, strip_added (h _ sessionStart_mem) hown,
      matchersOf_congr (lookup_added_ne subagentStart_ne hooks)]
    rfl
  rw [stripNauroEvents_eq, hfirst, strip_added (h _ subagentStart_mem) hown]

theorem transform_install (absolute : Str → Bool) {config : Members} (command : Str)
    (hvalid : validateCodexHooks config = .ok ())
    (hclean : ∀ event ∈ codexHookEvents, Clean (stripNauroEvents (hooksOf config)).1 event) :
    transformCodexHooks absolute config (some command) =
      .ok
        { config := setMember hooksKey (.object (addedToEach (ownMatcher absolute command)
            (stripNauroEvents (hooksOf config)).1)) config
          removed := (stripNauroEvents (hooksOf config)).2 } := by
  have hsecond : Clean (added (ownMatcher absolute command) sessionStart
      (stripNauroEvents (hooksOf config)).1) subagentStart :=
    (hclean _ subagentStart_mem).congr (lookup_added_ne subagentStart_ne _)
  rw [transform_some hvalid, addMatcher_of_clean (hclean _ sessionStart_mem)]
  show (addMatcher _ subagentStart _ >>= _) = _
  rw [addMatcher_of_clean hsecond]
  rfl

theorem valid_of_listed {config hooks : Members}
    (hlookup : config.lookup hooksKey = some (.object hooks))
    (h : ∀ event ∈ codexHookEvents, ∃ matchers, hooks.lookup event = some (.array matchers)) :
    validateCodexHooks config = .ok () := by
  unfold validateCodexHooks
  rw [hlookup]
  simp only
  split
  · rename_i event hfind
    obtain ⟨matchers, harray⟩ := h event (List.mem_of_find?_eq_some hfind)
    have hshape := List.find?_some hfind
    rw [harray] at hshape
    cases hshape
  · rfl

theorem framedHooks_addedToEach {hooks : Members} (matcher : Value)
    (hclean : ∀ event ∈ codexHookEvents, Clean (stripNauroEvents hooks).1 event) :
    FramedHooks hooks (addedToEach matcher (stripNauroEvents hooks).1) [matcher] where
  others := by
    have hfirst : (!codexHookEvents.contains sessionStart) = false := by decide
    have hsecond : (!codexHookEvents.contains subagentStart) = false := by decide
    exact ((filter_setMember (fun key => !codexHookEvents.contains key) hsecond _ _).trans
      (filter_setMember (fun key => !codexHookEvents.contains key) hfirst _ _)).trans
      (framedHooks_strip hooks).others
  events event hevent := by
    refine ⟨_, keeps_stripOwnedHookEntries _, ?_⟩
    rw [matchersOf_eq (lookup_addedToEach hevent _ _), matchersOf_stripEvents hevent]
  order := by
    have hkeys : ∀ event ∈ codexHookEvents,
        ((stripNauroEvents hooks).1.lookup event).isSome ∨ stays hooks event = false := by
      intro event hevent
      rcases (hclean event hevent).listed with hnone | ⟨matchers, -, harray⟩
      · refine Or.inr (stays_of_nil hevent ?_)
        rw [← matchersOf_stripEvents hevent, matchersOf_of_none hnone]
      · exact Or.inl (by rw [harray]; rfl)
    have hsecond : ((added matcher sessionStart (stripNauroEvents hooks).1).lookup
        subagentStart).isSome ∨ stays hooks subagentStart = false := by
      rw [lookup_added_ne subagentStart_ne]
      exact hkeys _ subagentStart_mem
    exact ((keys_setMember hsecond _).trans (keys_setMember (hkeys _ sessionStart_mem) _)).trans
      (framedHooks_strip hooks).order

/-! ## What an inspection finds -/

theorem containsStr_of_unowned {members : Members} {field command : Str}
    (hfield : field ∈ [commandKey, commandWindowsKey])
    (h : isNauroHook (.object members) = false)
    (hlookup : members.lookup field = some (.string command)) :
    containsStr codexHookSubcommand command = false := by
  have hnone := List.any_eq_false.mp h field hfield
  rw [hlookup] at hnone
  exact Bool.eq_false_iff.mpr hnone

theorem inspectNauroHook_of_unowned {entry : Value} (windows : Bool)
    (h : isNauroHook entry = false) : inspectNauroHook windows entry = none := by
  have hcommand : ∀ command, commandForPlatform windows entry = some command →
      containsStr codexHookSubcommand command = false := by
    intro command hfound
    cases entry with
    | null => cases hfound
    | bool b => cases hfound
    | int n => cases hfound
    | float lexeme => cases hfound
    | string s => cases hfound
    | array items => cases hfound
    | object members =>
        unfold commandForPlatform at hfound
        simp only at hfound
        split at hfound
        · rename_i line hline
          cases hfound
          exact containsStr_of_unowned (List.mem_cons_of_mem _ List.mem_cons_self) h hline
        · split at hfound
          · rename_i line hline
            split_ifs at hfound
            cases hfound
            exact containsStr_of_unowned List.mem_cons_self h hline
          · cases hfound
  unfold inspectNauroHook
  split
  · rfl
  · rename_i command hfound
    rw [if_neg (by rw [hcommand command hfound]; exact Bool.false_ne_true)]

theorem inspectEventHooks_added {absolute : Str → Bool} {command : Str} {matchers : List Value}
    (windows : Bool) (h : ∀ entry ∈ matchers.flatMap matcherEntries, isNauroHook entry = false) :
    inspectEventHooks windows (some (.array (matchers ++ [ownMatcher absolute command]))) =
      [some command] := by
  have hnone : (matchers.flatMap matcherEntries).filterMap (inspectNauroHook windows) = [] :=
    List.filterMap_eq_nil_iff.mpr fun entry hin => inspectNauroHook_of_unowned windows (h entry hin)
  have hown : matcherEntries (ownMatcher absolute command) = [renderNauroHook absolute command] :=
    matcherEntries_object List.lookup_cons_self
  show ((matchers ++ [ownMatcher absolute command]).flatMap matcherEntries).filterMap _ = _
  rw [List.flatMap_append, List.filterMap_append, hnone, List.flatMap_singleton, hown,
    List.filterMap_cons_some (inspectNauroHook_render windows absolute command)]
  rfl

theorem inspectCodexHooks_added {absolute : Str → Bool} {command : Str} {config hooks : Members}
    (windows : Bool) (hclean : ∀ event ∈ codexHookEvents, Clean hooks event) :
    inspectCodexHooks windows (setMember hooksKey
      (.object (addedToEach (ownMatcher absolute command) hooks)) config) =
      { isPresent := true, complete := true, recordedCommands := [some command, some command] } := by
  have hevent : ∀ event ∈ codexHookEvents, inspectEventHooks windows
      ((addedToEach (ownMatcher absolute command) hooks).lookup event) = [some command] := by
    intro event hin
    rw [lookup_addedToEach hin]
    exact inspectEventHooks_added windows (hclean event hin).unowned
  have hmap : (codexHookEvents.map fun event => inspectEventHooks windows
      ((addedToEach (ownMatcher absolute command) hooks).lookup event)) =
      codexHookEvents.map fun _ => [some command] :=
    List.map_congr_left hevent
  unfold inspectCodexHooks
  rw [lookup_setMember_self]
  simp only
  rw [hmap]
  rfl

/-! ## Installing and removing -/

/-- What an installation comes to: a framed configuration with one more matcher for each event,
the same once it is installed again, which records the command on each platform and has no entry
of Nauro left when they are removed. -/
structure Installed (absolute : Str → Bool) (config result : Members) (command : Str) : Prop where
  framed : Framed config result [ownMatcher absolute command]
  idempotent : ∃ again, transformCodexHooks absolute result (some command) = .ok again ∧
    again.config = result
  recorded : ∀ windows, inspectCodexHooks windows result =
    { isPresent := true, complete := true, recordedCommands := [some command, some command] }
  removable : ∃ removed, transformCodexHooks absolute result none = .ok removed ∧
    ∀ event ∈ codexHookEvents, Unowned (hooksOf removed.config) event

theorem unowned_stripEvents {event : Str} (hevent : event ∈ codexHookEvents) (hooks : Members) :
    Unowned (stripNauroEvents hooks).1 event := by
  intro entry hin
  rw [matchersOf_stripEvents hevent, (keeps_stripOwnedHookEntries _).entries] at hin
  have hkept := (List.mem_filter.mp hin).2
  rwa [Bool.not_eq_true'] at hkept

theorem framed_remove {absolute : Str → Bool} {config : Members}
    (hvalid : validateCodexHooks config = .ok ()) :
    ∃ result, transformCodexHooks absolute config none = .ok result ∧
      Framed config result.config [] := by
  obtain ⟨result, hok, hhooks, hmembers⟩ := transform_none absolute hvalid
  refine ⟨result, hok, hmembers, ?_⟩
  rw [hhooks]
  exact framedHooks_strip _

theorem installed_of_clean {absolute : Str → Bool} {config : Members} {command : Str}
    (hclean : ∀ event ∈ codexHookEvents, Clean (stripNauroEvents (hooksOf config)).1 event) :
    Installed absolute config (setMember hooksKey (.object (addedToEach
      (ownMatcher absolute command) (stripNauroEvents (hooksOf config)).1)) config) command := by
  have hvalid : validateCodexHooks (setMember hooksKey (.object (addedToEach
      (ownMatcher absolute command) (stripNauroEvents (hooksOf config)).1)) config) = .ok () :=
    valid_of_listed (lookup_setMember_self _ _ _) fun event hevent =>
      ⟨_, lookup_addedToEach hevent _ _⟩
  have hstrip := strip_addedToEach hclean (isOwnMatcher_ownMatcher absolute command)
  constructor
  · refine ⟨otherMembers_setMember _ config, ?_⟩
    rw [hooksOf_setMember]
    exact framedHooks_addedToEach _ hclean
  · have hagain := transform_install absolute command hvalid
    rw [hooksOf_setMember, hstrip] at hagain
    refine ⟨_, hagain hclean, ?_⟩
    exact setMember_setMember _ _ _ config
  · exact fun windows => inspectCodexHooks_added windows hclean
  · obtain ⟨removed, hok, hhooks, -⟩ := transform_none absolute hvalid
    refine ⟨removed, hok, fun event hevent => ?_⟩
    rw [hhooks]
    exact unowned_stripEvents hevent _

theorem addMatcher_of_null {matcher : Value} {event : Str} {hooks : Members}
    (h : hooks.lookup event = some .null) : addMatcher matcher event hooks = .error .attribute := by
  rw [addMatcher, h]

theorem addMatcher_cases (matcher : Value) (event : Str) (hooks : Members) :
    addMatcher matcher event hooks = .error .attribute ∨
      ∃ value, addMatcher matcher event hooks = .ok (setMember event value hooks) := by
  unfold addMatcher
  split
  · exact Or.inr ⟨_, rfl⟩
  · exact Or.inr ⟨_, rfl⟩
  · exact Or.inl rfl

theorem lookup_stripEvents_of_null {event : Str} {hooks : Members}
    (h : hooks.lookup event = some .null) :
    (stripNauroEvents hooks).1.lookup event = some .null := by
  have hstep : ∀ (other : Str) (hooks : Members), hooks.lookup event = some .null →
      (stripNauroEvent other hooks).1.lookup event = some .null := by
    intro other hooks hnull
    by_cases heq : event = other
    · subst heq
      rw [strip_of_ne fun matchers harray => by rw [hnull] at harray; cases harray]
      exact hnull
    · exact (lookup_strip_ne heq hooks).trans hnull
  rw [stripNauroEvents_eq]
  exact hstep _ _ (hstep _ _ h)

/-- An event that is a null stops an installation: the matcher is added to no list. -/
theorem transform_of_null {absolute : Str → Bool} {config : Members} {command event : Str}
    (hvalid : validateCodexHooks config = .ok ()) (hevent : event ∈ codexHookEvents)
    (hnull : (hooksOf config).lookup event = some .null) :
    transformCodexHooks absolute config (some command) = .error .attribute := by
  have hstripped := lookup_stripEvents_of_null hnull
  rw [transform_some hvalid]
  rcases List.mem_pair.mp hevent with rfl | rfl
  · rw [show addMatcher _ sessionStart _ = _ from addMatcher_of_null hstripped]
    rfl
  · rcases addMatcher_cases (ownMatcher absolute command) sessionStart
      (stripNauroEvents (hooksOf config)).1 with herror | ⟨value, hok⟩
    · rw [herror]
      rfl
    · have hsecond := (lookup_setMember_ne subagentStart_ne value _).trans hstripped
      rw [hok]
      show (addMatcher _ subagentStart _ >>= _) = _
      rw [addMatcher_of_null hsecond]
      rfl

/-- A configuration that passes the check can be installed in and cleaned as it should, exactly
when none of the two events of Codex is a null. -/
theorem codex_hooks_iff (absolute : Str → Bool) (config : Members) (command : Str)
    (hvalid : validateCodexHooks config = .ok ()) :
    ((∃ result, transformCodexHooks absolute config (some command) = .ok result ∧
          Installed absolute config result.config command) ∧
        ∃ result, transformCodexHooks absolute config none = .ok result ∧
          Framed config result.config []) ↔
      ∀ event ∈ codexHookEvents, (hooksOf config).lookup event ≠ some .null := by
  constructor
  · rintro ⟨⟨result, hok, -⟩, -⟩ event hevent hnull
    rw [transform_of_null hvalid hevent hnull] at hok
    cases hok
  · intro hnull
    have hclean : ∀ event ∈ codexHookEvents,
        Clean (stripNauroEvents (hooksOf config)).1 event := fun event hevent =>
      clean_stripEvents hevent (fun _ h => isListed_of_valid hvalid h) hnull
    exact ⟨⟨_, transform_install absolute command hvalid hclean, installed_of_clean hclean⟩, framed_remove hvalid⟩

/-- The configuration that has a null for an event: it passes the check, and an installation in it
fails. -/
def nullConfig : Members :=
  [(hooksKey, .object [(str "SessionStart", .null)])]

theorem codex_hooks_null :
    validateCodexHooks nullConfig = .ok () ∧
      transformCodexHooks (fun _ => true) nullConfig (some (str "/bin/nauro")) =
        .error .attribute :=
  ⟨rfl, transform_of_null rfl sessionStart_mem rfl⟩

/-- A matcher with an entry that is not of Nauro beside one that is. -/
def mixedConfig : Members :=
  [(hooksKey, .object [(str "SessionStart", .array
    [.object
      [(str "matcher", .string (str "startup")),
        (hooksKey, .array
          [.object [(commandKey, .string (str "echo"))],
            .object [(commandKey, .string (str "nauro hook codex-bootstrap"))]])]])])]

/-- The command has a quote, blanks and the subcommand in it. -/
theorem codex_hooks_iff_mixed :
    (∃ result, transformCodexHooks (fun _ => false) mixedConfig
          (some (str "it's hook codex-bootstrap")) = .ok result ∧
        Installed (fun _ => false) mixedConfig result.config (str "it's hook codex-bootstrap")) ∧
      ∃ result, transformCodexHooks (fun _ => false) mixedConfig none = .ok result ∧
        Framed mixedConfig result.config [] := by
  refine (codex_hooks_iff (fun _ => false) mixedConfig _ rfl).mpr
    (List.forall_mem_cons.mpr ⟨fun h => ?_, List.forall_mem_singleton.mpr fun h => ?_⟩)
  · cases h
  · cases h

end CodexHooks
end Client
end Nauro
