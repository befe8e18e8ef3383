import Mathlib.Control.Monad.Basic

/-!
# Steps that change a state and may stop

An effect reads and changes a state; a run that stops keeps the state it had reached.

* `Ensures` — pre- and postconditions, with one postcondition for a return and one for a stop.
-/

namespace Foundation

/-- A computation that succeeds, taken apart at its first part. -/
theorem bind_eq_ok_iff {ε A B : Type} {x : Except ε A} {f : A → Except ε B} {b : B} :
    x >>= f = .ok b ↔ ∃ a, x = .ok a ∧ f a = .ok b := by
  cases x with
  | error error => exact ⟨fun h => (nomatch h), fun ⟨_, h, _⟩ => (nomatch h)⟩
  | ok a =>
      constructor
      · intro h
        exact ⟨a, rfl, h⟩
      · rintro ⟨_, heq, h⟩
        cases heq
        exact h

theorem mem_of_mapM_ok {A B Err : Type} {f : A → Except Err B} {xs : List A} {ys : List B}
    (h : xs.mapM f = .ok ys) :
    (∀ x ∈ xs, ∃ y ∈ ys, f x = .ok y) ∧ ∀ y ∈ ys, ∃ x ∈ xs, f x = .ok y := by
  induction xs generalizing ys with
  | nil =>
      cases h
      exact ⟨fun _ hin => absurd hin List.not_mem_nil, fun _ hin => absurd hin List.not_mem_nil⟩
  | cons x xs ih =>
      rw [List.mapM_cons] at h
      cases hx : f x with
      | error e => rw [hx] at h; cases h
      | ok y =>
          rw [hx] at h
          cases hxs : xs.mapM f with
          | error e => rw [hxs] at h; cases h
          | ok rest =>
              rw [hxs] at h
              cases h
              obtain ⟨hread, hcame⟩ := ih hxs
              refine ⟨fun z hz => ?_, fun z hz => ?_⟩
              · rcases List.mem_cons.mp hz with rfl | hz
                · exact ⟨y, List.mem_cons_self, hx⟩
                · obtain ⟨w, hw, hzw⟩ := hread z hz
                  exact ⟨w, List.mem_cons_of_mem y hw, hzw⟩
              · rcases List.mem_cons.mp hz with rfl | hz
                · exact ⟨x, List.mem_cons_self, hx⟩
                · obtain ⟨w, hw, hwz⟩ := hcame z hz
                  exact ⟨w, List.mem_cons_of_mem x hw, hwz⟩

theorem exists_mapM_ok {A B Err : Type} {f : A → Except Err B} {xs : List A}
    (h : ∀ x ∈ xs, ∃ y, f x = .ok y) : ∃ ys, xs.mapM f = .ok ys := by
  induction xs with
  | nil => exact ⟨[], rfl⟩
  | cons x xs ih =>
      obtain ⟨y, hy⟩ := h x List.mem_cons_self
      obtain ⟨ys, hys⟩ := ih fun z hz => h z (List.mem_cons_of_mem x hz)
      refine ⟨y :: ys, ?_⟩
      rw [List.mapM_cons, hy, hys]
      rfl

/-- A step over states `σ` that may stop with an `ε`. -/
abbrev Effect (σ ε α : Type) := ExceptT ε (StateM σ) α

namespace Effect

variable {σ ε α β : Type}

/-- The outcome of a run and the state it leaves. -/
def exec (x : Effect σ ε α) (s : σ) : Except ε α × σ :=
  StateT.run (ExceptT.run x) s

/-- The value of an option; an absent one stops the run. -/
def ofOption (error : ε) : Option α → Effect σ ε α
  | some a => pure a
  | none => throw error

/-- The value of a computation that may fail; a failure stops the run. -/
def ofExcept : Except ε α → Effect σ ε α
  | .ok a => pure a
  | .error e => throw e

/-! ## Runs of single steps -/

@[simp] theorem exec_pure (a : α) (s : σ) : exec (pure a : Effect σ ε α) s = (.ok a, s) := rfl

@[simp] theorem exec_throw (e : ε) (s : σ) :
    exec (throw e : Effect σ ε α) s = (.error e, s) := rfl

@[simp] theorem exec_get (s : σ) : exec (get : Effect σ ε σ) s = (.ok s, s) := rfl

@[simp] theorem exec_modify (f : σ → σ) (s : σ) :
    exec (modify f : Effect σ ε PUnit) s = (.ok ⟨⟩, f s) := rfl

theorem exec_ofOption (e : ε) (value : Option α) (s : σ) :
    exec (ofOption e value : Effect σ ε α) s =
      (value.elim (.error e) .ok, s) := by
  cases value with
  | none => rfl
  | some a => rfl

theorem exec_bind (x : Effect σ ε α) (f : α → Effect σ ε β) (s : σ) :
    exec (x >>= f) s =
      match exec x s with
      | (.ok a, s') => exec (f a) s'
      | (.error e, s') => (.error e, s') := by
  unfold exec
  cases hrun : StateT.run (ExceptT.run x) s with
  | mk outcome s' =>
      cases outcome with
      | ok a =>
          simp only [ExceptT.run_bind, StateT.run_bind, hrun]
          rfl
      | error e =>
          simp only [ExceptT.run_bind, StateT.run_bind, hrun]
          rfl

/-! ## Runs that succeed -/

theorem exec_pure_ok_iff {a b : α} {s s' : σ} :
    exec (pure a : Effect σ ε α) s = (.ok b, s') ↔ b = a ∧ s' = s := by
  simp [eq_comm]

theorem exec_throw_ne_ok {e : ε} {s s' : σ} {a : α} :
    exec (throw e : Effect σ ε α) s ≠ (.ok a, s') := by
  simp

theorem exec_ofOption_ok_iff {e : ε} {value : Option α} {a : α} {s s' : σ} :
    exec (ofOption e value : Effect σ ε α) s = (.ok a, s') ↔ value = some a ∧ s' = s := by
  cases value with
  | none => simp [exec_ofOption]
  | some b => simp [exec_ofOption, eq_comm]

/-- A run that succeeds, taken apart at its first step. -/
theorem exec_bind_ok_iff {x : Effect σ ε α} {f : α → Effect σ ε β} {s s' : σ} {b : β} :
    exec (x >>= f) s = (.ok b, s') ↔
      ∃ a between, exec x s = (.ok a, between) ∧ exec (f a) between = (.ok b, s') := by
  rw [exec_bind]
  cases hrun : exec x s with
  | mk outcome between =>
      cases outcome with
      | ok a =>
          constructor
          · intro h
            exact ⟨a, between, rfl, h⟩
          · intro h
            obtain ⟨_, _, hfirst, hnext⟩ := h
            cases hfirst
            exact hnext
      | error e =>
          constructor
          · intro h
            cases h
          · intro h
            obtain ⟨_, _, hfirst, -⟩ := h
            cases hfirst

/-! ## What every run keeps -/

/-- A property that a step keeps, whether it stops or not. -/
def Keeps (P : σ → Prop) (x : Effect σ ε α) : Prop :=
  ∀ s, P s → P (exec x s).2

variable {P : σ → Prop}

theorem Keeps.pure (a : α) : Keeps P (pure a : Effect σ ε α) :=
  fun _ h => h

theorem Keeps.throw (e : ε) : Keeps P (throw e : Effect σ ε α) :=
  fun _ h => h

theorem Keeps.get : Keeps P (get : Effect σ ε σ) :=
  fun _ h => h

theorem Keeps.modify {f : σ → σ} (h : ∀ s, P s → P (f s)) :
    Keeps P (modify f : Effect σ ε PUnit) :=
  h

theorem Keeps.ofOption (e : ε) (value : Option α) : Keeps P (ofOption e value : Effect σ ε α) := by
  intro s h
  rw [exec_ofOption]
  exact h

/-- What both parts keep, the sequence keeps. -/
theorem Keeps.bind {x : Effect σ ε α} {f : α → Effect σ ε β} (hx : Keeps P x)
    (hf : ∀ a, Keeps P (f a)) : Keeps P (x >>= f) := by
  intro s h
  have hbetween := hx s h
  rw [exec_bind]
  cases hrun : exec x s with
  | mk outcome between =>
      rw [hrun] at hbetween
      cases outcome with
      | ok a => exact hf a between hbetween
      | error e => exact hbetween

/-! ## Pre- and postconditions -/

/-- From states in `P`, a run that returns ends in `Q`, and a run that stops ends in `R`. -/
def Ensures (P : σ → Prop) (x : Effect σ ε α) (Q : α → σ → Prop) (R : σ → Prop) : Prop :=
  ∀ s, P s →
    match exec x s with
    | (.ok a, s') => Q a s'
    | (.error _, s') => R s'

variable {Q : α → σ → Prop} {R : σ → Prop}

theorem Ensures.pure {a : α} (h : ∀ s, P s → Q a s) :
    Ensures P (pure a : Effect σ ε α) Q R :=
  h

theorem Ensures.throw {e : ε} (h : ∀ s, P s → R s) :
    Ensures P (throw e : Effect σ ε α) Q R :=
  h

/-- Sequencing: the second part starts where the first one returns. -/
theorem Ensures.bind {x : Effect σ ε α} {f : α → Effect σ ε β} {S : β → σ → Prop}
    (hx : Ensures P x Q R) (hf : ∀ a, Ensures (Q a) (f a) S R) : Ensures P (x >>= f) S R := by
  intro s h
  have hfirst := hx s h
  rw [exec_bind]
  cases hrun : exec x s with
  | mk outcome between =>
      rw [hrun] at hfirst
      cases outcome with
      | ok a => exact hf a between hfirst
      | error e => exact hfirst

theorem Ensures.weaken {x : Effect σ ε α} {P' : σ → Prop} {Q' : α → σ → Prop} {R' : σ → Prop}
    (h : Ensures P x Q R) (hP : ∀ s, P' s → P s) (hQ : ∀ a s, Q a s → Q' a s)
    (hR : ∀ s, R s → R' s) : Ensures P' x Q' R' := by
  intro s hs
  have hrun := h s (hP s hs)
  cases hexec : exec x s with
  | mk outcome s' =>
      rw [hexec] at hrun
      cases outcome with
      | ok a => exact hQ a s' hrun
      | error e => exact hR s' hrun

theorem Ensures.modify {f : σ → σ} {Q : PUnit → σ → Prop} (h : ∀ s, P s → Q ⟨⟩ (f s)) :
    Ensures P (modify f : Effect σ ε PUnit) Q R :=
  h

/-- What a step keeps holds whether it returns or stops. -/
theorem Keeps.ensures {x : Effect σ ε α} (h : Keeps P x) : Ensures P x (fun _ => P) P := by
  intro s hs
  have hafter := h s hs
  cases hrun : exec x s with
  | mk outcome s' =>
      rw [hrun] at hafter
      cases outcome with
      | ok a => exact hafter
      | error e => exact hafter

/-- A fact that the precondition implies may be used to prove the rest. -/
theorem Ensures.of_fact {x : Effect σ ε α} {fact : Prop} (hfact : ∀ s, P s → fact)
    (h : fact → Ensures P x Q R) : Ensures P x Q R :=
  fun s hs => h (hfact s hs) s hs

end Effect
end Foundation
