import Nauro.Foundation.Effect

/-!
# Calls on a durable state

A call works on a durable state and may be cut off at any of its interactions; what was made
durable stays. Its surroundings answer it: every question is asked at a tick of the call, so
two questions may get two answers. A run is a list of calls, each of which finds the durable
state as the one before left it.

* `runCalls_induction` — what every call keeps, every run keeps.
-/

namespace Foundation

/-- A call under way: the durable state, its events so far, and its interactions so far. -/
structure Session (δ E : Type) where
  disk : δ
  trace : List E
  tick : Nat

namespace Session

variable {δ E ε α β : Type}

abbrev Call (δ E ε α : Type) := Effect (Session δ E) ε α

/-! ## Interactions -/

def readDisk : Call δ E ε δ := do
  return (← get).disk

/-- The answer of the surroundings at this tick. -/
def ask (answers : Nat → α) : Call δ E ε α := do
  let s ← get
  modify fun s => { s with tick := s.tick + 1 }
  return answers s.tick

/-- A place where the call may be cut off. -/
def point (cut : Nat → Bool) (stopped : ε) : Call δ E ε PUnit := do
  if ← ask cut then
    throw stopped

def replaceDisk (disk : δ) : Call δ E ε PUnit :=
  modify fun s => { s with disk := disk }

def emit (event : E) : Call δ E ε PUnit :=
  modify fun s => { s with trace := s.trace ++ [event] }

/-- Stop unless the condition holds. -/
def ensure (condition : Prop) [Decidable condition] (error : ε) : Call δ E ε PUnit :=
  if condition then pure ⟨⟩ else throw error

/-- Do the step if the condition holds. -/
def onlyIf (condition : Prop) [Decidable condition] (x : Call δ E ε PUnit) : Call δ E ε PUnit :=
  if condition then x else pure ⟨⟩

/-- What follows a step that hands back its failure; the failure is handed on. -/
def orFail {F : Type} (x : Call δ E ε (Except F α)) (f : α → Call δ E ε (Except F β)) :
    Call δ E ε (Except F β) := do
  match ← x with
  | .error failure => return .error failure
  | .ok a => f a

/-! ## Assertions -/

/-- Pre- and postconditions on the durable state and the events of the call. -/
def Holds (P : δ → List E → Prop) (x : Call δ E ε α) (Q : α → δ → List E → Prop)
    (R : δ → List E → Prop) : Prop :=
  Effect.Ensures (fun s => P s.disk s.trace) x (fun a s => Q a s.disk s.trace)
    (fun s => R s.disk s.trace)

variable {P : δ → List E → Prop} {Q : α → δ → List E → Prop} {R : δ → List E → Prop}

theorem Holds.pure {a : α} (h : ∀ disk trace, P disk trace → Q a disk trace) :
    Holds P (pure a : Call δ E ε α) Q R :=
  Effect.Ensures.pure fun s => h s.disk s.trace

theorem Holds.throw {e : ε} (h : ∀ disk trace, P disk trace → R disk trace) :
    Holds P (throw e : Call δ E ε α) Q R :=
  Effect.Ensures.throw fun s => h s.disk s.trace

theorem Holds.bind {x : Call δ E ε α} {f : α → Call δ E ε β} {S : β → δ → List E → Prop}
    (hx : Holds P x Q R) (hf : ∀ a, Holds (Q a) (f a) S R) : Holds P (x >>= f) S R :=
  Effect.Ensures.bind hx hf

theorem Holds.weaken {x : Call δ E ε α} {P' : δ → List E → Prop} {Q' : α → δ → List E → Prop}
    (h : Holds P x Q R) (hP : ∀ disk trace, P' disk trace → P disk trace)
    (hQ : ∀ a disk trace, Q a disk trace → Q' a disk trace) : Holds P' x Q' R :=
  Effect.Ensures.weaken h (fun _ => hP _ _) (fun _ _ => hQ _ _ _) fun _ hr => hr

theorem Holds.weaken_stop {x : Call δ E ε α} {R' : δ → List E → Prop} (h : Holds P x Q R)
    (hR : ∀ disk trace, R disk trace → R' disk trace) : Holds P x Q R' :=
  Effect.Ensures.weaken h (fun _ hp => hp) (fun _ _ hq => hq) fun _ => hR _ _

/-- Nothing is asked of a call. -/
theorem Holds.any (x : Call δ E ε α) : Holds P x (fun _ _ _ => True) (fun _ _ => True) := by
  intro s _
  cases hexec : Effect.exec x s with
  | mk outcome s' => cases outcome <;> trivial

/-- A fact that the precondition implies may be used to prove the rest. -/
theorem Holds.of_fact {x : Call δ E ε α} {fact : Prop}
    (hfact : ∀ disk trace, P disk trace → fact) (h : fact → Holds P x Q R) : Holds P x Q R :=
  Effect.Ensures.of_fact (fun s => hfact s.disk s.trace) h

/-- What is read is the durable state. -/
theorem Holds.readDisk :
    Holds P (readDisk : Call δ E ε δ) (fun read disk trace => P disk trace ∧ read = disk) R :=
  fun _ hs => ⟨hs, rfl⟩

/-- Nothing is known of an answer but that the surroundings may give it. -/
theorem Holds.ask (answers : Nat → α) :
    Holds P (ask answers : Call δ E ε α) (fun a disk trace => P disk trace ∧ ∃ tick, answers tick = a) R :=
  fun s hs => ⟨hs, s.tick, rfl⟩

theorem Holds.point {cut : Nat → Bool} {stopped : ε}
    (h : ∀ disk trace, P disk trace → R disk trace) :
    Holds P (point cut stopped : Call δ E ε PUnit) (fun _ => P) R := by
  refine Holds.bind (Holds.ask cut) fun answer => ?_
  cases answer with
  | true => exact Holds.throw fun disk trace hp => h disk trace hp.1
  | false => exact Holds.pure fun _ _ hp => hp.1

/-- After a check that did not stop the call, the condition holds. -/
theorem Holds.ensure {condition : Prop} [Decidable condition] {error : ε}
    (h : ∀ disk trace, P disk trace → R disk trace) :
    Holds P (ensure condition error : Call δ E ε PUnit)
      (fun _ disk trace => P disk trace ∧ condition) R := by
  unfold Session.ensure
  split
  · rename_i hcondition
    exact Holds.pure fun _ _ hp => ⟨hp, hcondition⟩
  · exact Holds.throw h

/-- A step that may be skipped: what it ensures must hold without it too. -/
theorem Holds.onlyIf {S : δ → List E → Prop} {condition : Prop} [Decidable condition]
    {x : Call δ E ε PUnit} (hdo : condition → Holds P x (fun _ => S) R)
    (hskip : ¬ condition → ∀ disk trace, P disk trace → S disk trace) :
    Holds P (onlyIf condition x) (fun _ => S) R := by
  unfold Session.onlyIf
  split
  · rename_i hcondition
    exact hdo hcondition
  · rename_i hcondition
    exact Holds.pure (hskip hcondition)

theorem Holds.replaceDisk {S : δ → List E → Prop} {next : δ}
    (h : ∀ disk trace, P disk trace → S next trace) :
    Holds P (replaceDisk next : Call δ E ε PUnit) (fun _ => S) R :=
  fun s hs => h s.disk s.trace hs

theorem Holds.emit {S : δ → List E → Prop} {event : E}
    (h : ∀ disk trace, P disk trace → S disk (trace ++ [event])) :
    Holds P (emit event : Call δ E ε PUnit) (fun _ => S) R :=
  fun s hs => h s.disk s.trace hs

/-- What is proved from each state that the precondition allows. -/
theorem Holds.of_state {x : Call δ E ε α}
    (h : ∀ disk trace, P disk trace → Holds (fun d t => d = disk ∧ t = trace) x Q R) :
    Holds P x Q R :=
  fun s hs => h s.disk s.trace hs s ⟨rfl, rfl⟩

/-- A check whose condition is known to hold. -/
theorem Holds.ensure_bind {S : β → δ → List E → Prop} {condition : Prop} [Decidable condition]
    {error : ε} {f : PUnit → Call δ E ε β} (hcondition : condition) (h : Holds P (f ⟨⟩) S R) :
    Holds P (Session.ensure condition error >>= f) S R := by
  unfold Session.ensure
  rw [if_pos hcondition]
  exact h

/-- A computation whose value is known. -/
theorem Holds.ofExcept_bind {S : β → δ → List E → Prop} {value : Except ε α} {a : α}
    {f : α → Call δ E ε β} (hvalue : value = .ok a) (h : Holds P (f a) S R) :
    Holds P (Effect.ofExcept value >>= f) S R := by
  rw [hvalue]
  exact h

theorem Holds.ofOption_bind {S : β → δ → List E → Prop} {error : ε} {value : Option α} {a : α}
    {f : α → Call δ E ε β} (hvalue : value = some a) (h : Holds P (f a) S R) :
    Holds P (Effect.ofOption error value >>= f) S R := by
  rw [hvalue]
  exact h

/-- A loop over a list keeps what each of its rounds keeps. -/
theorem Holds.forM {xs : List β} {f : β → Call δ E ε PUnit}
    (h : ∀ x ∈ xs, Holds P (f x) (fun _ => P) R) : Holds P (xs.forM f) (fun _ => P) R := by
  induction xs with
  | nil => exact Holds.pure fun _ _ hp => hp
  | cons x rest ih =>
      refine Holds.bind (h x (List.mem_cons_self ..)) fun _ => ?_
      exact ih fun y hy => h y (List.mem_cons_of_mem x hy)

/-- A loop with a value that it carries: the assertion may speak of the rounds that are left. -/
theorem Holds.foldlM {xs : List β} {f : α → β → Call δ E ε α}
    {J : α → List β → δ → List E → Prop}
    (h : ∀ a x rest, Holds (J a (x :: rest)) (f a x) (fun a => J a rest) R) (a : α) :
    Holds (J a xs) (xs.foldlM f a) (fun a => J a []) R := by
  induction xs generalizing a with
  | nil => exact Holds.pure fun _ _ hj => hj
  | cons x rest ih =>
      rw [List.foldlM_cons]
      exact Holds.bind (h a x rest) fun b => ih b

/-! ## Calls that nothing disturbs

A call is calm when none of its surroundings stands in its way. One triple says both what a call
leaves when it stops and that a calm call does not stop: its postcondition for a stop includes
that the call was not calm.
-/

/-- The postcondition of a stop that only happens to a call that is not calm. -/
def Unless (calm : Prop) (L : δ → List E → Prop) : δ → List E → Prop :=
  fun disk trace => ¬ calm ∧ L disk trace

variable {calm : Prop} {L : δ → List E → Prop}

theorem Holds.point_unless {cut : Nat → Bool} {stopped : ε}
    (hcalm : calm → ∀ tick, cut tick = false) (h : ∀ disk trace, P disk trace → L disk trace) :
    Holds P (Session.point cut stopped : Call δ E ε PUnit) (fun _ => P) (Unless calm L) := by
  refine Holds.bind (Holds.ask cut) fun answer => ?_
  cases answer with
  | true =>
      refine Holds.throw fun disk trace hp => ⟨fun hc => ?_, h disk trace hp.1⟩
      obtain ⟨tick, htick⟩ := hp.2
      rw [hcalm hc tick] at htick
      cases htick
  | false => exact Holds.pure fun _ _ hp => hp.1

theorem Holds.ensure_unless {condition : Prop} [Decidable condition] {error : ε}
    (hcalm : calm → ∀ disk trace, P disk trace → condition)
    (h : ∀ disk trace, P disk trace → L disk trace) :
    Holds P (Session.ensure condition error : Call δ E ε PUnit)
      (fun _ disk trace => P disk trace ∧ condition) (Unless calm L) := by
  unfold Session.ensure
  split
  · rename_i hcondition
    exact Holds.pure fun _ _ hp => ⟨hp, hcondition⟩
  · rename_i hcondition
    exact Holds.throw fun disk trace hp =>
      ⟨fun hc => hcondition (hcalm hc disk trace hp), h disk trace hp⟩

theorem Holds.ofOption_unless {error : ε} {value : Option α}
    (hcalm : calm → ∀ disk trace, P disk trace → value ≠ none)
    (h : ∀ disk trace, P disk trace → L disk trace) :
    Holds P (Effect.ofOption error value : Call δ E ε α)
      (fun a disk trace => P disk trace ∧ value = some a) (Unless calm L) := by
  cases value with
  | none =>
      exact Holds.throw fun disk trace hp =>
        ⟨fun hc => hcalm hc disk trace hp rfl, h disk trace hp⟩
  | some a => exact Holds.pure fun _ _ hp => ⟨hp, rfl⟩

/-- Values that do not depend on the state: what follows may use them. -/
theorem Holds.ofExcept_bind_unless {S : β → δ → List E → Prop} {value : Except ε α}
    {f : α → Call δ E ε β} (hcalm : calm → ∃ a, value = .ok a)
    (h : ∀ disk trace, P disk trace → L disk trace)
    (hf : ∀ a, value = .ok a → Holds P (f a) S (Unless calm L)) :
    Holds P (Effect.ofExcept value >>= f) S (Unless calm L) := by
  cases value with
  | error e =>
      refine Holds.bind (Q := fun _ _ _ => False) (Holds.throw fun disk trace hp =>
        ⟨fun hc => ?_, h disk trace hp⟩) fun _ _ hfalse => hfalse.elim
      obtain ⟨a, ha⟩ := hcalm hc
      cases ha
  | ok a => exact hf a rfl

theorem Holds.ofOption_bind_unless {S : β → δ → List E → Prop} {error : ε} {value : Option α}
    {f : α → Call δ E ε β} (hcalm : calm → ∃ a, value = some a)
    (h : ∀ disk trace, P disk trace → L disk trace)
    (hf : ∀ a, value = some a → Holds P (f a) S (Unless calm L)) :
    Holds P (Effect.ofOption error value >>= f) S (Unless calm L) := by
  cases value with
  | none =>
      refine Holds.bind (Q := fun _ _ _ => False) (Holds.throw fun disk trace hp =>
        ⟨fun hc => ?_, h disk trace hp⟩) fun _ _ hfalse => hfalse.elim
      obtain ⟨a, ha⟩ := hcalm hc
      cases ha
  | some a => exact hf a rfl

theorem Holds.ensure_bind_unless {S : β → δ → List E → Prop} {condition : Prop}
    [Decidable condition] {error : ε} {f : PUnit → Call δ E ε β} (hcalm : calm → condition)
    (h : ∀ disk trace, P disk trace → L disk trace)
    (hf : condition → Holds P (f ⟨⟩) S (Unless calm L)) :
    Holds P (Session.ensure condition error >>= f) S (Unless calm L) := by
  by_cases hcondition : condition
  · exact Holds.ensure_bind hcondition (hf hcondition)
  · refine Holds.bind (Q := fun _ _ _ => False) ?_ fun _ _ hfalse => hfalse.elim
    unfold Session.ensure
    rw [if_neg hcondition]
    exact Holds.throw fun disk trace hp => ⟨fun hc => hcondition (hcalm hc), h disk trace hp⟩

/-- What any call leaves, calm or not. -/
theorem Holds.of_unless {x : Call δ E ε α} (h : Holds P x Q (Unless calm L)) : Holds P x Q L :=
  Effect.Ensures.weaken h (fun _ hp => hp) (fun _ _ hq => hq) fun _ hr => hr.2

/-- A calm call returns. -/
theorem Holds.returns {x : Call δ E ε α} (h : Holds P x Q (Unless True L)) {s : Session δ E}
    (hstart : P s.disk s.trace) :
    ∃ a s', Effect.exec x s = (.ok a, s') ∧ Q a s'.disk s'.trace := by
  have hrun := h s hstart
  cases hexec : Effect.exec x s with
  | mk outcome s' =>
      rw [hexec] at hrun
      cases outcome with
      | ok a => exact ⟨a, s', rfl, hrun⟩
      | error e => exact absurd trivial hrun.1

/-- What a call that returned ensures. -/
theorem Holds.of_exec {x : Call δ E ε α} (h : Holds P x Q R) {s s' : Session δ E} {a : α}
    (hstart : P s.disk s.trace) (hexec : Effect.exec x s = (.ok a, s')) : Q a s'.disk s'.trace := by
  have hrun := h s hstart
  rw [hexec] at hrun
  exact hrun

/-! ## Logs -/

/-- Which events may come next: after the earlier calls, and what this call has done. -/
abbrev Rule (E : Type) := List (List E) → List E → E → Prop

/-- Every event of a call is allowed where it stands. -/
def CallConforms (rule : Rule E) (earlier : List (List E)) (call : List E) : Prop :=
  ∀ before event after, call = before ++ event :: after → rule earlier before event

/-- Every event of every call is allowed where it stands. -/
def Conforms (rule : Rule E) (calls : List (List E)) : Prop :=
  ∀ earlier call later, calls = earlier ++ call :: later → CallConforms rule earlier call

variable {rule : Rule E} {earlier calls : List (List E)} {call : List E} {event : E}

theorem callConforms_nil : CallConforms rule earlier [] := by
  intro before event after h
  exact absurd h.symm (by simp)

theorem CallConforms.concat (h : CallConforms rule earlier call)
    (hevent : rule earlier call event) : CallConforms rule earlier (call ++ [event]) := by
  intro before last after hsplit
  rcases List.eq_nil_or_concat after with rfl | ⟨front, final, rfl⟩
  · obtain ⟨rfl, hlast⟩ := List.append_inj' hsplit rfl
    rw [← List.head_eq_of_cons_eq hlast]
    exact hevent
  · rw [List.concat_eq_append, ← List.cons_append, ← List.append_assoc] at hsplit
    exact h before last front (List.append_inj' hsplit rfl).1

theorem conforms_nil : Conforms rule [] := by
  intro earlier call later h
  exact absurd h.symm (by simp)

theorem Conforms.concat (h : Conforms rule calls) (hcall : CallConforms rule calls call) :
    Conforms rule (calls ++ [call]) := by
  intro earlier last later hsplit
  rcases List.eq_nil_or_concat later with rfl | ⟨front, final, rfl⟩
  · obtain ⟨rfl, hlast⟩ := List.append_inj' hsplit rfl
    rw [← List.head_eq_of_cons_eq hlast]
    exact hcall
  · rw [List.concat_eq_append, ← List.cons_append, ← List.append_assoc] at hsplit
    exact h earlier last front (List.append_inj' hsplit rfl).1

/-- A split of the flattened log at an event is a split of one of its calls. -/
theorem split_of_flatten {before after : List E}
    (h : calls.flatten = before ++ event :: after) :
    ∃ earlier call later front back, calls = earlier ++ call :: later ∧
      call = front ++ event :: back ∧ before = earlier.flatten ++ front := by
  induction calls generalizing before with
  | nil => exact absurd h.symm (by simp)
  | cons call rest ih =>
      rw [List.flatten_cons] at h
      rcases List.append_eq_append_iff.mp h with ⟨middle, hbefore, hrest⟩ | ⟨middle, hcall, hafter⟩
      · obtain ⟨earlier, next, later, front, back, hsplit, hnext, hmiddle⟩ := ih hrest
        refine ⟨call :: earlier, next, later, front, back, by rw [hsplit]; rfl, hnext, ?_⟩
        rw [hbefore, hmiddle, List.flatten_cons, List.append_assoc]
      · cases middle with
        | nil =>
            have hempty : rest.flatten = [] ++ event :: after := hafter.symm
            obtain ⟨earlier, next, later, front, back, hsplit, hnext, hmiddle⟩ := ih hempty
            refine ⟨call :: earlier, next, later, front, back, by rw [hsplit]; rfl, hnext, ?_⟩
            rw [List.flatten_cons, List.append_assoc, ← hmiddle, hcall, List.append_nil,
              List.append_nil]
        | cons first middle =>
            rw [List.cons_append] at hafter
            obtain ⟨rfl, -⟩ := List.cons_eq_cons.mp hafter
            exact ⟨[], call, rest, before, middle, rfl, hcall, rfl⟩

/-! ## Runs -/

/-- The durable state and the events a call leaves. -/
def runCall (disk : δ) (call : Call δ E ε α) : δ × List E :=
  let s := (Effect.exec call { disk := disk, trace := [], tick := 0 }).2
  (s.disk, s.trace)

/-- Calls in turn: the durable state they leave, and the events of each. -/
def runCalls (disk : δ) : List (Call δ E ε α) → δ × List (List E)
  | [] => (disk, [])
  | call :: rest =>
      let first := runCall disk call
      let others := runCalls first.1 rest
      (others.1, first.2 :: others.2)

/-- What a call ensures, returned or stopped, holds of what it leaves. -/
theorem Holds.runCall {x : Call δ E ε α} {disk : δ} (h : Holds P x (fun _ => R) R)
    (hstart : P disk []) : R (runCall disk x).1 (runCall disk x).2 := by
  have hrun := h { disk := disk, trace := [], tick := 0 } hstart
  unfold Session.runCall
  cases hexec : Effect.exec x { disk := disk, trace := [], tick := 0 } with
  | mk outcome s' =>
      rw [hexec] at hrun
      cases outcome <;> exact hrun

/-- An invariant of the durable state and the log that every call keeps holds after a run. -/
theorem runCalls_induction {J : δ → List (List E) → Prop} {W : Call δ E ε α → Prop}
    (hcall : ∀ x, W x → ∀ disk past, J disk past →
      J (runCall disk x).1 (past ++ [(runCall disk x).2]))
    {xs : List (Call δ E ε α)} (hways : ∀ x ∈ xs, W x) {disk : δ} {past : List (List E)}
    (hstart : J disk past) :
    J (runCalls disk xs).1 (past ++ (runCalls disk xs).2) := by
  induction xs generalizing disk past with
  | nil =>
      show J disk (past ++ [])
      rw [List.append_nil]
      exact hstart
  | cons x rest ih =>
      have hfirst := hcall x (hways x List.mem_cons_self) disk past hstart
      have hrest := ih (fun y hy => hways y (List.mem_cons_of_mem x hy)) hfirst
      rw [List.append_assoc] at hrest
      exact hrest

end Session
end Foundation
