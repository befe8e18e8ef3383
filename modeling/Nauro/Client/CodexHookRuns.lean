import Nauro.Client.CodexHookFrame

/-!
# Runs of the transform of Codex hooks

Nauro is installed, installed again for another command and removed again, in any order. Only the
last of these calls counts.

* `runTransforms_last` — a run leaves the hooks that its last call alone leaves.
-/

namespace Nauro
namespace Client
namespace CodexHooks

open Foundation Foundation.Json Nauro.Core

/-- The calls of a run: a command is installed, and without one the entries are removed. -/
def runTransforms (absolute : Str → Bool) (config : Members) :
    List (Option Str) → Except TransformError Members
  | [] => .ok config
  | command :: rest => do
      let result ← transformCodexHooks absolute config command
      runTransforms absolute result.config rest

/-- A configuration in which Nauro can be installed, over the hooks and the members of others. -/
structure Installable (kept others config : Members) : Prop where
  valid : validateCodexHooks config = .ok ()
  notNull : ∀ event ∈ codexHookEvents, (hooksOf config).lookup event ≠ some .null
  kept_eq : (stripNauroEvents (hooksOf config)).1 = kept
  members_eq : otherMembers config = others

/-- The hooks that a call leaves over the hooks of others. -/
def hooksAfter (absolute : Str → Bool) (kept : Members) : Option Str → Members
  | none => kept
  | some command => addedToEach (ownMatcher absolute command) kept

variable {absolute : Str → Bool} {kept others config : Members}

theorem Installable.clean (h : Installable kept others config) {event : Str}
    (hevent : event ∈ codexHookEvents) : Clean kept event := by
  rw [← h.kept_eq]
  exact clean_stripEvents hevent (fun _ hin => isListed_of_valid h.valid hin) h.notNull

theorem Clean.not_null {hooks : Members} {event : Str} (h : Clean hooks event) :
    hooks.lookup event ≠ some .null := by
  intro hnull
  rcases h.listed with hnone | ⟨matchers, -, harray⟩
  · rw [hnone] at hnull
    cases hnull
  · rw [harray] at hnull
    cases hnull

/-- Stripped hooks have nothing to strip. -/
theorem stripNauroEvents_of_clean {hooks : Members}
    (h : ∀ event ∈ codexHookEvents, Clean hooks event) : (stripNauroEvents hooks).1 = hooks := by
  rw [stripNauroEvents_eq, strip_of_clean (h _ sessionStart_mem), strip_of_clean (h _ subagentStart_mem)]

theorem valid_of_clean {hooks : Members} (hlookup : config.lookup hooksKey = some (.object hooks))
    (h : ∀ event ∈ codexHookEvents, Clean hooks event) : validateCodexHooks config = .ok () := by
  unfold validateCodexHooks
  rw [hlookup]
  simp only
  split
  · rename_i event hfind
    have hshape := List.find?_some hfind
    rcases (h event (List.mem_of_find?_eq_some hfind)).listed with hnone | ⟨matchers, -, harray⟩
    · rw [hnone] at hshape
      cases hshape
    · rw [harray] at hshape
      cases hshape
  · rfl

theorem valid_of_absent (hlookup : config.lookup hooksKey = none) :
    validateCodexHooks config = .ok () := by
  rw [validateCodexHooks, hlookup]

/-- A removal leaves a configuration that passes the check. -/
theorem Installable.valid_remove (h : Installable kept others config) {result : CodexHookTransform}
    (hok : transformCodexHooks absolute config none = .ok result) :
    validateCodexHooks result.config = .ok () := by
  by_cases hobject : ∃ hooks, config.lookup hooksKey = some (.object hooks)
  · obtain ⟨hooks, hlookup⟩ := hobject
    have hhooks : hooksOf config = hooks := by rw [hooksOf, hlookup]
    have hkept := h.kept_eq
    rw [hhooks] at hkept
    have hresult : result.config = if kept = [] then popMember hooksKey config
        else setMember hooksKey (.object kept) config := by
      unfold transformCodexHooks at hok
      rw [h.valid, hlookup] at hok
      rw [← hkept, ← Except.ok.inj hok]
      rfl
    rw [hresult]
    split_ifs with hnil
    · exact valid_of_absent (lookup_popMember_self _ _)
    · exact valid_of_clean (lookup_setMember_self _ _ _) fun event hevent => h.clean hevent
  · -- Without hooks there is nothing to remove.
    have hresult : result.config = config := by
      unfold transformCodexHooks at hok
      rw [h.valid] at hok
      rcases hlookup : config.lookup hooksKey with _ | value
      · rw [hlookup] at hok
        rw [← Except.ok.inj hok]
      · rw [hlookup] at hok
        cases value with
        | object hooks => exact absurd ⟨hooks, hlookup⟩ hobject
        | null => rw [← Except.ok.inj hok]
        | bool b => rw [← Except.ok.inj hok]
        | int n => rw [← Except.ok.inj hok]
        | float lexeme => rw [← Except.ok.inj hok]
        | string s => rw [← Except.ok.inj hok]
        | array items => rw [← Except.ok.inj hok]
    rw [hresult]
    exact h.valid

/-- What one call does, and what it keeps. -/
theorem Installable.step (h : Installable kept others config) (command : Option Str) :
    ∃ result, transformCodexHooks absolute config command = .ok result ∧
      hooksOf result.config = hooksAfter absolute kept command ∧
      Installable kept others result.config := by
  have hclean : ∀ event ∈ codexHookEvents, Clean kept event := fun event hevent => h.clean hevent
  cases command with
  | none =>
      obtain ⟨result, hok, hhooks, hmembers⟩ := transform_none absolute h.valid
      rw [h.kept_eq] at hhooks
      refine ⟨result, hok, hhooks, h.valid_remove hok, ?_, ?_, hmembers.trans h.members_eq⟩
      · rw [hhooks]
        exact fun event hevent => (hclean event hevent).not_null
      · rw [hhooks]
        exact stripNauroEvents_of_clean hclean
  | some command =>
      have hstripped : ∀ event ∈ codexHookEvents,
          Clean (stripNauroEvents (hooksOf config)).1 event := by
        rw [h.kept_eq]
        exact hclean
      have hok := transform_install absolute command h.valid hstripped
      rw [h.kept_eq] at hok
      refine ⟨_, hok, hooksOf_setMember _ _, ?_, ?_, ?_, ?_⟩
      · exact valid_of_listed (lookup_setMember_self _ _ _) fun event hevent =>
          ⟨_, lookup_addedToEach hevent _ _⟩
      · intro event hevent hnull
        rw [hooksOf_setMember, lookup_addedToEach hevent] at hnull
        cases hnull
      · rw [hooksOf_setMember]
        exact strip_addedToEach hclean (isOwnMatcher_ownMatcher absolute command)
      · exact (otherMembers_setMember _ config).trans h.members_eq

/-- A run keeps what its calls keep, and its last call leaves its hooks. -/
theorem Installable.run (h : Installable kept others config) (calls : List (Option Str))
    (last : Option Str) :
    ∃ result, runTransforms absolute config (calls ++ [last]) = .ok result ∧
      hooksOf result = hooksAfter absolute kept last ∧ Installable kept others result := by
  induction calls generalizing config with
  | nil =>
      obtain ⟨result, hok, hhooks, hkept⟩ := h.step last
      refine ⟨result.config, ?_, hhooks, hkept⟩
      rw [List.nil_append, runTransforms, hok]
      rfl
  | cons command calls ih =>
      obtain ⟨next, hok, -, hkept⟩ := h.step command
      obtain ⟨result, hrun, hhooks, hresult⟩ := ih hkept
      refine ⟨result, ?_, hhooks, hresult⟩
      rw [List.cons_append, runTransforms, hok]
      exact hrun

end CodexHooks
end Client
end Nauro
