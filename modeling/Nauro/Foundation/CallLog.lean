import Nauro.Foundation.Session

/-!
# Calls by the events that they add

A call that does not stop keeps a view of the durable state and adds events to the trace. What
it adds is said by a relation between its value and the events.

* `Silent` — the calls that add nothing, with the rules that compose them.
-/

namespace Foundation
namespace Session

variable {δ E ε κ α β F : Type} {view : δ → κ}

/-- The call returns, keeps what the view sees, and adds events as the relation says. -/
def Adds (view : δ → κ) (x : Call δ E ε α) (L : α → List E → Prop) : Prop :=
  ∀ seen front R, Holds (fun disk trace => view disk = seen ∧ trace = front) x
    (fun a disk trace => view disk = seen ∧ ∃ log, trace = front ++ log ∧ L a log) R

variable {x : Call δ E ε α} {f : α → Call δ E ε β} {L L' : α → List E → Prop}
  {M : β → List E → Prop}

theorem Adds.weaken (h : Adds view x L) (himp : ∀ a log, L a log → L' a log) :
    Adds view x L' := by
  intro seen front R
  refine Holds.weaken (h seen front R) (fun _ _ hp => hp) ?_
  rintro a disk trace ⟨hseen, log, htrace, hlog⟩
  exact ⟨hseen, log, htrace, himp a log hlog⟩

theorem Adds.pure {a : α} (h : L a []) : Adds view (pure a : Call δ E ε α) L := by
  intro seen front R
  refine Holds.pure ?_
  rintro disk trace ⟨hseen, rfl⟩
  exact ⟨hseen, [], (List.append_nil _).symm, h⟩

theorem Adds.ask {answers : Nat → α} (h : ∀ tick, L (answers tick) []) :
    Adds view (ask answers : Call δ E ε α) L := by
  intro seen front R
  refine Holds.weaken (Holds.ask answers) (fun _ _ hp => hp) ?_
  rintro a disk trace ⟨⟨hseen, rfl⟩, tick, rfl⟩
  exact ⟨hseen, [], (List.append_nil _).symm, h tick⟩

theorem Adds.emit {event : E} :
    Adds view (emit event : Call δ E ε PUnit) fun _ log => log = [event] := by
  intro seen front R
  refine Holds.emit ?_
  rintro disk trace ⟨hseen, rfl⟩
  exact ⟨hseen, [event], rfl, rfl⟩

/-- What the parts add, one after the other. -/
theorem Adds.bind (hx : Adds view x L)
    (hf : ∀ a front, L a front → Adds view (f a) fun b back => M b (front ++ back)) :
    Adds view (x >>= f) M := by
  intro seen front R
  refine Holds.bind (hx seen front R) fun a => ?_
  refine Holds.of_state fun disk trace hstate => ?_
  obtain ⟨hseen, first, htrace, hfirst⟩ := hstate
  refine Holds.weaken (hf a first hfirst seen trace R) ?_ ?_
  · rintro d t ⟨rfl, rfl⟩
    exact ⟨hseen, rfl⟩
  · rintro b d t ⟨hd, last, ht, hlast⟩
    refine ⟨hd, first ++ last, ?_, hlast⟩
    rw [ht, htrace, List.append_assoc]

theorem Adds.orFail {x : Call δ E ε (Except F α)} {f : α → Call δ E ε (Except F β)}
    {L : Except F α → List E → Prop} {M : Except F β → List E → Prop} (hx : Adds view x L)
    (hfail : ∀ failure log, L (.error failure) log → M (.error failure) log)
    (hf : ∀ a front, L (.ok a) front → Adds view (f a) fun b back => M b (front ++ back)) :
    Adds view (orFail x f) M := by
  refine Adds.bind hx fun outcome front houtcome => ?_
  cases outcome with
  | error failure =>
      refine Adds.pure ?_
      rw [List.append_nil]
      exact hfail failure front houtcome
  | ok a => exact hf a front houtcome

/-! ## Calls that add nothing -/

abbrev Silent (view : δ → κ) (x : Call δ E ε α) : Prop :=
  Adds view x fun _ log => log = []

theorem Silent.bind (hx : Silent view x) (hf : ∀ a, Silent view (f a)) :
    Silent view (x >>= f) := by
  refine Adds.bind hx fun a front hfront => Adds.weaken (hf a) fun b log hlog => ?_
  rw [hfront, hlog]
  rfl

theorem Silent.orFail {x : Call δ E ε (Except F α)} {f : α → Call δ E ε (Except F β)}
    (hx : Silent view x) (hf : ∀ a, Silent view (f a)) : Silent view (orFail x f) := by
  refine Adds.orFail hx (fun _ _ h => h) fun a front hfront => ?_
  refine Adds.weaken (hf a) fun b log hlog => ?_
  rw [hfront, hlog]
  rfl

theorem Silent.readDisk : Silent view (readDisk : Call δ E ε δ) := by
  intro seen front R
  refine Holds.weaken Holds.readDisk (fun _ _ hp => hp) ?_
  rintro disk d trace ⟨⟨hseen, rfl⟩, -⟩
  exact ⟨hseen, [], (List.append_nil _).symm, rfl⟩

/-- A change of what the view does not see. -/
theorem Silent.changeDisk {change : δ → δ} (h : ∀ disk, view (change disk) = view disk) :
    Silent view (Session.readDisk >>= fun disk => replaceDisk (change disk) :
      Call δ E ε PUnit) := by
  intro seen front R
  refine Holds.bind Holds.readDisk fun disk => ?_
  refine Holds.replaceDisk ?_
  rintro d trace ⟨⟨hseen, rfl⟩, rfl⟩
  exact ⟨by rw [h, hseen], [], (List.append_nil _).symm, rfl⟩

theorem Silent.onlyIf {condition : Prop} [Decidable condition] {x : Call δ E ε PUnit}
    (hx : Silent view x) : Silent view (onlyIf condition x) := by
  unfold Session.onlyIf
  split
  · exact hx
  · exact Adds.pure rfl

/-- What follows a silent part is all that is added. -/
theorem Silent.bind_adds (hx : Silent view x) (hf : ∀ a, Adds view (f a) M) :
    Adds view (x >>= f) M := by
  refine Adds.bind hx fun a front hfront => ?_
  rw [hfront]
  exact hf a

end Session
end Foundation
