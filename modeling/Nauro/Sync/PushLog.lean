import Nauro.Sync.Push

/-!
# What a push does for one path

The uploads of a path come in at most two budgets, with a new URL between them, and none is
repeated that may have been written. After them the store may be looked at, and what is recorded
of the path is what the store answered.

* `holds_pushOne` — one round of the loop over the candidates.
-/

namespace Nauro
namespace Sync

open Foundation Nauro.Core Session

/-! ## The log of a path -/

def PushEvent.path : PushEvent → Text
  | .put path _ _ _ => path
  | .remint path => path
  | .fetched path _ => path

def PushEvent.answer? : PushEvent → Option (HttpAnswer Text)
  | .put _ _ _ answer => some answer
  | _ => none

def PushEvent.isRemint : PushEvent → Bool
  | .remint _ => true
  | _ => false

def PushEvent.isFetched : PushEvent → Bool
  | .fetched _ _ => true
  | _ => false

/-- The answers to the uploads, in their order. -/
def uploadAnswers (log : List PushEvent) : List (HttpAnswer Text) :=
  log.filterMap PushEvent.answer?

/-- The numbers of uploads before, between and after the new URLs. -/
def budgets (log : List PushEvent) : List Nat :=
  ((log.filter fun event => !event.isFetched).splitOnP PushEvent.isRemint).map List.length

/-- What a push may do for one path. -/
structure PathLog (log : List PushEvent) : Prop where
  /-- Every upload but the last was proved not written. -/
  rewrites : ∀ answer ∈ (uploadAnswers log).dropLast, NotWritten answer
  oneRemint : log.countP PushEvent.isRemint ≤ 1
  twoBudgets : (budgets log).length ≤ 2
  attempts : ∀ attempts ∈ budgets log, attempts ≤ putMaxAttempts

def pathEvents (path : Text) (trace : List PushEvent) : List PushEvent :=
  trace.filter fun event => event.path = path

/-- The bytes were sent. -/
def Transmitted (path : Text) (payload : Bytes) (log : List PushEvent) : Prop :=
  ∃ url answer, .put path url payload answer ∈ log

/-- The store took the bytes and answered with the etag, or the bytes were sent and the store has
bytes of their digest under the etag. -/
structure Backed (rules : PushRules) (path : Text) (payload : Bytes) (etag : Text)
    (log : List PushEvent) : Prop where
  nonempty : etag ≠ []
  transmitted : Transmitted path payload log
  answered : (∃ url status header, .put path url payload (.response status header) ∈ log ∧
      200 ≤ status ∧ status < 300 ∧ strip header = etag) ∨
    ∃ body, .fetched path ⟨body, etag⟩ ∈ log ∧ rules.sha256Hex body = rules.sha256Hex payload

variable {rules : PushRules} {answers : PushAnswers} {path : Text} {payload : Bytes}

/-! ## The attempts -/

/-- Uploads of one budget. -/
structure Uploads (path : Text) (payload : Bytes) (bound : Nat) (log : List PushEvent) : Prop where
  puts : ∀ event ∈ log, ∃ url answer, event = .put path url payload answer
  length : log.length ≤ bound

/-- What a result says of the log: it is that of an answer in which the store took the bytes. -/
def Written (path : Text) (payload : Bytes) (log : List PushEvent)
    (outcome : Except TransferFault PutResult) : Prop :=
  ∀ result, outcome = .ok result → ∃ url status header,
    .put path url payload (.response status header) ∈ log ∧ 200 ≤ status ∧ status < 300 ∧
      result = putResult header

/-- An ambiguous upload was sent. -/
def Ambiguous (path : Text) (payload : Bytes) (log : List PushEvent)
    (outcome : Except TransferFault PutResult) : Prop :=
  ∀ error, outcome = .error (.boundary error) → error.writeOutcome = .ambiguous →
    Transmitted path payload log

/-- A budget that ended by itself. -/
structure Ended (path : Text) (payload : Bytes) (bound : Nat)
    (outcome : Except TransferFault PutResult) (log : List PushEvent) : Prop where
  uploads : Uploads path payload bound log
  rewrites : ∀ answer ∈ (uploadAnswers log).dropLast, NotWritten answer
  written : Written path payload log outcome
  ambiguous : Ambiguous path payload log outcome

/-- A budget that an expired URL ended. -/
structure Expired (path : Text) (payload : Bytes) (bound : Nat) (log : List PushEvent) :
    Prop where
  uploads : Uploads path payload bound log
  notWritten : ∀ answer ∈ uploadAnswers log, NotWritten answer
  transmitted : Transmitted path payload log

theorem uploadAnswers_append (front back : List PushEvent) :
    uploadAnswers (front ++ back) = uploadAnswers front ++ uploadAnswers back :=
  List.filterMap_append ..

theorem Uploads.one {url : Text} {answer : HttpAnswer Text} (bound : Nat) :
    Uploads path payload (bound + 1) [.put path url payload answer] where
  puts _ hevent := ⟨url, answer, List.mem_singleton.mp hevent⟩
  length := Nat.le_add_left 1 bound

theorem Uploads.cons {bound : Nat} {log : List PushEvent} {url : Text} {answer : HttpAnswer Text}
    (h : Uploads path payload bound log) :
    Uploads path payload (bound + 1) (.put path url payload answer :: log) where
  puts event hevent := by
    rcases List.mem_cons.mp hevent with rfl | hin
    · exact ⟨url, answer, rfl⟩
    · exact h.puts event hin
  length := Nat.succ_le_succ h.length

/-- An upload that was not written may be followed by another one. -/
theorem Ended.cons {bound : Nat} {outcome : Except TransferFault PutResult} {log : List PushEvent}
    {url : Text} {answer : HttpAnswer Text} (h : Ended path payload bound outcome log)
    (hanswer : NotWritten answer) :
    Ended path payload (bound + 1) outcome (.put path url payload answer :: log) where
  uploads := h.uploads.cons
  rewrites other hother := by
    show NotWritten other
    change other ∈ (answer :: uploadAnswers log).dropLast at hother
    cases hlater : uploadAnswers log with
    | nil =>
        rw [hlater] at hother
        cases hother
    | cons next more =>
        rw [hlater, List.dropLast_cons_of_ne_nil (List.cons_ne_nil _ _)] at hother
        rcases List.mem_cons.mp hother with rfl | hin
        · exact hanswer
        · rw [← hlater] at hin
          exact h.rewrites other hin
  written result hresult := by
    obtain ⟨url', status, header, hin, hstatus⟩ := h.written result hresult
    exact ⟨url', status, header, List.mem_cons_of_mem _ hin, hstatus⟩
  ambiguous _ _ _ := ⟨url, answer, List.mem_cons_self ..⟩

theorem Expired.cons {bound : Nat} {log : List PushEvent} {url : Text} {answer : HttpAnswer Text}
    (h : Expired path payload bound log) (hanswer : NotWritten answer) :
    Expired path payload (bound + 1) (.put path url payload answer :: log) where
  uploads := h.uploads.cons
  notWritten other hother := by
    rcases List.mem_cons.mp hother with rfl | hin
    · exact hanswer
    · exact h.notWritten other hin
  transmitted := ⟨url, answer, List.mem_cons_self ..⟩

/-- What one budget adds: it ends by itself, or an expired URL ends it and what follows adds its
part. -/
def BudgetLog (path : Text) (payload : Bytes) (bound : Nat)
    (N : Except TransferFault PutResult → List PushEvent → Prop)
    (outcome : Except TransferFault PutResult) (log : List PushEvent) : Prop :=
  Ended path payload bound outcome log ∨
    ∃ front back, log = front ++ back ∧ Expired path payload bound front ∧ N outcome back

theorem BudgetLog.cons {bound : Nat} {N : Except TransferFault PutResult → List PushEvent → Prop}
    {outcome : Except TransferFault PutResult} {log : List PushEvent} {url : Text}
    {answer : HttpAnswer Text} (h : BudgetLog path payload bound N outcome log)
    (hanswer : NotWritten answer) :
    BudgetLog path payload (bound + 1) N outcome (.put path url payload answer :: log) := by
  rcases h with hended | ⟨front, back, rfl, hexpired, hback⟩
  · exact Or.inl (hended.cons hanswer)
  · exact Or.inr ⟨_ :: front, back, rfl, hexpired.cons hanswer, hback⟩

/-- An upload that ends its budget. -/
theorem ended_of_put {bound : Nat} {url : Text} {outcome : Except TransferFault PutResult}
    {log : List PushEvent}
    (h : (log = [] ∧ outcome = .error (.boundary (originAborted rules url .put))) ∨
      ∃ answer, log = [.put path url payload answer] ∧ outcome = uploadOutcome rules url answer) :
    Ended path payload (bound + 1) outcome log := by
  rcases h with ⟨rfl, rfl⟩ | ⟨answer, rfl, rfl⟩
  · refine ⟨⟨?_, Nat.zero_le _⟩, ?_, ?_, ?_⟩
    · exact fun event hevent => absurd hevent List.not_mem_nil
    · exact fun answer hanswer => absurd hanswer List.not_mem_nil
    · exact fun result hresult => by cases hresult
    · intro error herror hambiguous
      injection herror with herror
      injection herror with herror
      rw [← herror] at hambiguous
      cases hambiguous
  · refine ⟨Uploads.one bound, ?_, ?_, ?_⟩
    · exact fun answer hanswer => absurd hanswer List.not_mem_nil
    · intro result hresult
      obtain ⟨status, etag, rfl, hlow, hhigh, hput⟩ := written_of_uploadOutcome hresult
      exact ⟨url, status, etag, List.mem_singleton_self _, hlow, hhigh, hput⟩
    · exact fun _ _ _ => ⟨url, answer, List.mem_singleton_self _⟩

/-- A failure that is worth another attempt is that of an upload which was not written. -/
theorem sent_of_notWritten {url : Text} {error : TransferBoundaryError} {log : List PushEvent}
    (h : (log = [] ∧ (.error (.boundary error) : Except TransferFault PutResult) =
        .error (.boundary (originAborted rules url .put))) ∨
      ∃ answer, log = [.put path url payload answer] ∧
        .error (.boundary error) = uploadOutcome rules url answer)
    (hretry : error.retry ≠ .permanent) (hnot : error.writeOutcome = .notWritten) :
    ∃ answer, log = [.put path url payload answer] ∧ NotWritten answer := by
  rcases h with ⟨-, herror⟩ | ⟨answer, hlog, houtcome⟩
  · injection herror with herror
    injection herror with herror
    rw [herror] at hretry
    exact absurd rfl hretry
  · exact ⟨answer, hlog, notWritten_of_uploadOutcome houtcome.symm hnot⟩

theorem isExpired_iff {error : TransferBoundaryError} :
    error.isExpired = true ↔ error.retry = .expiredCandidate ∧ error.writeOutcome = .notWritten := by
  unfold TransferBoundaryError.isExpired
  rw [Bool.and_eq_true, decide_eq_true_eq, decide_eq_true_eq]

theorem mayRetry_iff {error : TransferBoundaryError} :
    error.mayRetry = true ↔ error.retry = .transient ∧ error.writeOutcome = .notWritten := by
  unfold TransferBoundaryError.mayRetry
  rw [Bool.and_eq_true, decide_eq_true_eq, decide_eq_true_eq]

section

variable {onExpired : TransferBoundaryError → PushCall (Except TransferFault PutResult)}
  {N : Except TransferFault PutResult → List PushEvent → Prop}

/-- What follows an expired URL. -/
theorem adds_expired {bound : Nat} {url : Text} {error : TransferBoundaryError}
    {log : List PushEvent}
    (hexpired : ∀ error, error.isExpired = true → Adds PushDisk.persisted (onExpired error) N)
    (hlog : (log = [] ∧ (.error (.boundary error) : Except TransferFault PutResult) =
        .error (.boundary (originAborted rules url .put))) ∨
      ∃ answer, log = [.put path url payload answer] ∧
        .error (.boundary error) = uploadOutcome rules url answer)
    (herror : error.isExpired = true) :
    Adds PushDisk.persisted (onExpired error) fun outcome back =>
      BudgetLog path payload (bound + 1) N outcome (log ++ back) := by
  obtain ⟨hretry, hnot⟩ := isExpired_iff.mp herror
  have hworth : error.retry ≠ .permanent := by
    rw [hretry]
    decide
  obtain ⟨answer, rfl, hanswer⟩ := sent_of_notWritten hlog hworth hnot
  refine Adds.weaken (hexpired error herror) fun outcome back hback => ?_
  refine Or.inr ⟨_, back, rfl, ⟨Uploads.one bound, ?_, ?_⟩, hback⟩
  · intro other hother
    rw [List.mem_singleton.mp hother]
    exact hanswer
  · exact ⟨url, answer, List.mem_singleton_self _⟩

/-- The attempts of a budget, by induction on how many are left. -/
theorem adds_putBudget
    (hexpired : ∀ error, error.isExpired = true → Adds PushDisk.persisted (onExpired error) N)
    (left : Nat) (url : Text) :
    Adds PushDisk.persisted (putBudget rules answers path payload onExpired left url)
      (BudgetLog path payload (left + 1) N) := by
  induction left generalizing url with
  | zero =>
      refine Adds.bind (adds_putViaPresignedUrl path url payload) fun outcome log hlog => ?_
      split
      · rename_i error
        split
        · rename_i herror
          exact adds_expired hexpired hlog herror
        · refine Adds.pure (Or.inl ?_)
          rw [List.append_nil]
          exact ended_of_put hlog
      · refine Adds.pure (Or.inl ?_)
        rw [List.append_nil]
        exact ended_of_put hlog
  | succ left ih =>
      refine Adds.bind (adds_putViaPresignedUrl path url payload) fun outcome log hlog => ?_
      split
      · rename_i error
        split
        · rename_i herror
          exact adds_expired hexpired hlog herror
        · split
          · rename_i hmay
            obtain ⟨hretry, hnot⟩ := mayRetry_iff.mp hmay
            have hworth : error.retry ≠ .permanent := by
              rw [hretry]
              decide
            obtain ⟨answer, rfl, hanswer⟩ := sent_of_notWritten hlog hworth hnot
            exact Adds.weaken (ih url) fun outcome back hback => hback.cons hanswer
          · refine Adds.pure (Or.inl ?_)
            rw [List.append_nil]
            exact ended_of_put hlog
      · refine Adds.pure (Or.inl ?_)
        rw [List.append_nil]
        exact ended_of_put hlog

end

/-- What one path's uploads add, with a new URL or without. -/
structure FrozenLog (path : Text) (payload : Bytes) (outcome : Except TransferFault PutResult)
    (log : List PushEvent) : Prop where
  samePath : ∀ event ∈ log, event.path = path
  pathLog : PathLog log
  written : Written path payload log outcome
  ambiguous : Ambiguous path payload log outcome

/-- The second budget starts with a new URL and ends by itself. -/
def RemintLog (path : Text) (payload : Bytes) (outcome : Except TransferFault PutResult)
    (log : List PushEvent) : Prop :=
  ∃ back, log = .remint path :: back ∧ Uploads path payload putMaxAttempts back ∧
    (∀ answer ∈ (uploadAnswers back).dropLast, NotWritten answer) ∧
    Written path payload back outcome

theorem adds_putReminted (error : TransferBoundaryError) :
    Adds PushDisk.persisted (putReminted rules answers path payload error)
      (RemintLog path payload) := by
  have hfailed (fault : TransferFault) :
      RemintLog path payload (.error fault) [.remint path] := by
    refine ⟨[], rfl, ⟨?_, Nat.zero_le _⟩, ?_, ?_⟩
    · exact fun event hevent => absurd hevent List.not_mem_nil
    · exact fun answer hanswer => absurd hanswer List.not_mem_nil
    · exact fun result hresult => by cases hresult
  refine Adds.bind Adds.emit fun _ front hfront => ?_
  rw [hfront]
  refine Adds.orFail (silent_requestPresignedUrls putVerb [path]) ?_ fun rows log hlog => ?_
  · rintro fault log rfl
    exact hfailed fault
  · rw [hlog]
    split
    · exact Adds.pure (hfailed _)
    · rename_i replacement _
      have hnothing (error : TransferBoundaryError) (_ : error.isExpired = true) :
          Adds PushDisk.persisted (Pure.pure (.error (.boundary error)) :
              PushCall (Except TransferFault PutResult)) fun outcome log =>
            log = [] ∧ ∀ result, outcome ≠ .ok result :=
        Adds.pure ⟨rfl, fun result h => by cases h⟩
      refine Adds.weaken (adds_putBudget hnothing (putMaxAttempts - 1) replacement) ?_
      rintro outcome back (hended | ⟨sent, none, rfl, hexpired, rfl, hfault⟩)
      · exact ⟨back, rfl, hended.uploads, hended.rewrites, hended.written⟩
      · rw [List.append_nil]
        refine ⟨sent, rfl, hexpired.uploads, ?_, ?_⟩
        · exact fun answer hanswer => hexpired.notWritten answer (List.dropLast_subset _ hanswer)
        · exact fun result hresult => absurd hresult (hfault result)

theorem Uploads.noRemint {bound : Nat} {log : List PushEvent}
    (h : Uploads path payload bound log) : ∀ event ∈ log, event.isRemint = false := by
  intro event hevent
  obtain ⟨url, answer, rfl⟩ := h.puts event hevent
  rfl

theorem Uploads.keepAll {bound : Nat} {log : List PushEvent}
    (h : Uploads path payload bound log) : log.filter (fun event => !event.isFetched) = log := by
  rw [List.filter_eq_self]
  intro event hevent
  obtain ⟨url, answer, rfl⟩ := h.puts event hevent
  rfl

theorem Uploads.samePath {bound : Nat} {log : List PushEvent}
    (h : Uploads path payload bound log) : ∀ event ∈ log, event.path = path := by
  intro event hevent
  obtain ⟨url, answer, rfl⟩ := h.puts event hevent
  rfl

theorem Uploads.countP_isRemint {bound : Nat} {log : List PushEvent}
    (h : Uploads path payload bound log) : log.countP PushEvent.isRemint = 0 :=
  List.countP_eq_zero.mpr fun event hevent => by
    rw [h.noRemint event hevent]
    exact Bool.false_ne_true

/-- One budget of uploads. -/
theorem pathLog_uploads {log : List PushEvent} (h : Uploads path payload putMaxAttempts log)
    (hrewrites : ∀ answer ∈ (uploadAnswers log).dropLast, NotWritten answer) : PathLog log := by
  have hbudgets : budgets log = [log.length] := by
    rw [budgets, h.keepAll, List.splitOnP_eq_singleton h.noRemint]
    rfl
  refine ⟨hrewrites, ?_, ?_, ?_⟩
  · rw [h.countP_isRemint]
    exact Nat.zero_le 1
  · rw [hbudgets]
    exact Nat.le_succ 1
  · rw [hbudgets]
    intro attempts hattempts
    rw [List.mem_singleton.mp hattempts]
    exact h.length

/-- Two budgets, the first of them without an upload that may have been written. -/
theorem pathLog_reminted {front back : List PushEvent}
    (hfront : Uploads path payload putMaxAttempts front)
    (hnot : ∀ answer ∈ uploadAnswers front, NotWritten answer)
    (hback : Uploads path payload putMaxAttempts back)
    (hrewrites : ∀ answer ∈ (uploadAnswers back).dropLast, NotWritten answer) :
    PathLog (front ++ .remint path :: back) := by
  have hbudgets : budgets (front ++ .remint path :: back) = [front.length, back.length] := by
    have hremint : (PushEvent.remint path).isRemint = true := rfl
    have hkept : (PushEvent.remint path :: back).filter (fun event => !event.isFetched) =
        .remint path :: back := by
      rw [List.filter_cons_of_pos rfl, hback.keepAll]
    rw [budgets, List.filter_append, hfront.keepAll, hkept,
      List.splitOnP_append_cons front back hremint,
      List.splitOnP_eq_singleton hfront.noRemint, List.splitOnP_eq_singleton hback.noRemint]
    rfl
  refine ⟨?_, ?_, ?_, ?_⟩
  · intro answer hanswer
    rw [uploadAnswers_append] at hanswer
    change answer ∈ (uploadAnswers front ++ uploadAnswers back).dropLast at hanswer
    cases hlater : uploadAnswers back with
    | nil =>
        rw [hlater, List.append_nil] at hanswer
        exact hnot answer (List.dropLast_subset _ hanswer)
    | cons next more =>
        rw [hlater, List.dropLast_append_of_ne_nil (List.cons_ne_nil _ _), ← hlater] at hanswer
        rcases List.mem_append.mp hanswer with hin | hin
        · exact hnot answer hin
        · exact hrewrites answer hin
  · rw [List.countP_append, List.countP_cons_of_pos rfl, hfront.countP_isRemint,
      hback.countP_isRemint]
  · rw [hbudgets]
    exact Nat.le_refl 2
  · rw [hbudgets]
    intro attempts hattempts
    rcases List.mem_cons.mp hattempts with rfl | hlast
    · exact hfront.length
    · rw [List.mem_singleton.mp hlast]
      exact hback.length

/-- The uploads of one path: at most two budgets, and none repeated that may have been written. -/
theorem adds_putFrozen (path initialUrl : Text) (payload : Bytes) :
    Adds PushDisk.persisted (putFrozen rules answers path initialUrl payload)
      (FrozenLog path payload) := by
  refine Adds.weaken (adds_putBudget (fun error _ => adds_putReminted error)
    (putMaxAttempts - 1) initialUrl) ?_
  rintro outcome log (hended | ⟨front, back, rfl, hexpired, later, rfl, hback, hrewrites, hwritten⟩)
  · exact ⟨hended.uploads.samePath, pathLog_uploads hended.uploads hended.rewrites,
      hended.written, hended.ambiguous⟩
  · refine ⟨?_, pathLog_reminted hexpired.uploads hexpired.notWritten hback hrewrites, ?_, ?_⟩
    · intro event hevent
      rcases List.mem_append.mp hevent with hin | hin
      · exact hexpired.uploads.samePath event hin
      · rcases List.mem_cons.mp hin with rfl | hlast
        · rfl
        · exact hback.samePath event hlast
    · intro result hresult
      obtain ⟨url, status, header, hin, hstatus⟩ := hwritten result hresult
      exact ⟨url, status, header,
        List.mem_append_right _ (List.mem_cons_of_mem _ hin), hstatus⟩
    · intro error herror hambiguous
      obtain ⟨url, answer, hin⟩ := hexpired.transmitted
      exact ⟨url, answer, List.mem_append_left _ hin⟩

/-! ## The look at the store -/

def OnlyFetched (path : Text) (log : List PushEvent) : Prop :=
  ∀ event ∈ log, ∃ found, event = .fetched path found

theorem onlyFetched_nil : OnlyFetched path [] :=
  fun _ h => absurd h List.not_mem_nil

theorem PathLog.append_fetched {log looked : List PushEvent} (h : PathLog log)
    (hlooked : OnlyFetched path looked) : PathLog (log ++ looked) := by
  have hanswers : uploadAnswers looked = [] := by
    refine List.filterMap_eq_nil_iff.mpr fun event hevent => ?_
    obtain ⟨found, rfl⟩ := hlooked event hevent
    rfl
  have hremints : looked.countP PushEvent.isRemint = 0 := by
    refine List.countP_eq_zero.mpr fun event hevent => ?_
    obtain ⟨found, rfl⟩ := hlooked event hevent
    exact Bool.false_ne_true
  have hdropped : looked.filter (fun event => !event.isFetched) = [] := by
    refine List.filter_eq_nil_iff.mpr fun event hevent => ?_
    obtain ⟨found, rfl⟩ := hlooked event hevent
    exact Bool.false_ne_true
  have hbudgets : budgets (log ++ looked) = budgets log := by
    rw [budgets, List.filter_append, hdropped, List.append_nil]
    rfl
  refine ⟨?_, ?_, ?_, ?_⟩
  · rw [uploadAnswers_append, hanswers, List.append_nil]
    exact h.rewrites
  · rw [List.countP_append, hremints]
    exact h.oneRemint
  · rw [hbudgets]
    exact h.twoBudgets
  · rw [hbudgets]
    exact h.attempts

/-- What was found is what was fetched. -/
theorem adds_lookUp (path : Text) :
    Adds PushDisk.persisted (lookUp rules answers path) fun outcome log =>
      OnlyFetched path log ∧ ∀ found, outcome = .ok (some found) → .fetched path found ∈ log := by
  refine Adds.orFail silent_fetchManifest ?_ fun manifest log hlog => ?_
  · rintro fault log rfl
    exact ⟨onlyFetched_nil, fun found h => by cases h⟩
  rw [hlog]
  split
  · exact Adds.pure ⟨onlyFetched_nil, fun found h => by cases h⟩
  refine Adds.orFail (silent_requestPresignedUrls getVerb [path]) ?_ fun rows log hlog => ?_
  · rintro fault log rfl
    exact ⟨onlyFetched_nil, fun found h => by cases h⟩
  rw [hlog]
  split
  · exact Adds.pure ⟨onlyFetched_nil, fun found h => by cases h⟩
  refine Adds.orFail (adds_fetchViaPresignedUrl path _) ?_ fun found log hlog => ?_
  · rintro fault log hlog
    have hempty : log = [] := hlog
    rw [hempty]
    exact ⟨onlyFetched_nil, fun found h => by cases h⟩
  · have hfetched : log = [.fetched path found] := hlog
    rw [hfetched]
    refine Adds.pure ⟨?_, ?_⟩
    · exact fun event hevent => ⟨found, List.mem_singleton.mp hevent⟩
    · intro other hother
      have heq : found = other := Option.some.inj (Except.ok.inj hother)
      rw [heq]
      exact List.mem_singleton_self _

/-- A verified look found bytes of the digest under the etag. -/
theorem adds_reconcile (path payloadSha : Text) :
    Adds PushDisk.persisted (reconcile rules answers path payloadSha) fun outcome log =>
      OnlyFetched path log ∧ ∀ etag, outcome = .verified etag → etag ≠ [] ∧
        ∃ body, .fetched path ⟨body, etag⟩ ∈ log ∧ rules.sha256Hex body = payloadSha := by
  refine Adds.bind (adds_lookUp path) fun outcome log hlog => ?_
  obtain ⟨honly, hfound⟩ := hlog
  split
  · exact Adds.pure ⟨by rwa [List.append_nil], fun etag h => by cases h⟩
  · exact Adds.pure ⟨by rwa [List.append_nil], fun etag h => by cases h⟩
  · rename_i found
    split
    · exact Adds.pure ⟨by rwa [List.append_nil], fun etag h => by cases h⟩
    · rename_i hetag
      split
      · exact Adds.pure ⟨by rwa [List.append_nil], fun etag h => by cases h⟩
      · rename_i hsha
        refine Adds.pure ⟨by rwa [List.append_nil], ?_⟩
        rintro etag heq
        injection heq with heq
        rw [← heq, List.append_nil]
        exact ⟨hetag, found.body, hfound found rfl, not_not.mp hsha⟩

/-! ## One path -/

/-- The sync state after a path was settled: it says of a verified path what the log backs. -/
def Settled (rules : PushRules) (state : SyncState) (path : Text) (log : List PushEvent)
    (outcome : PathOutcome) (persisted : SyncState) : Prop :=
  match outcome with
  | .verified next => persisted = next ∧ ∃ payload etag now,
      next = state.updateFile path (rules.sha256Hex payload) etag now ∧
        Backed rules path payload etag log
  | _ => persisted = state

variable {state : SyncState}

theorem holds_recordVerified {etag : Text} {log : List PushEvent} (front : List PushEvent)
    {R : PushDisk → List PushEvent → Prop} (h : Backed rules path payload etag log) :
    Holds (fun disk trace => disk.persisted = state ∧ trace = front)
      (recordVerified answers state path (rules.sha256Hex payload) etag)
      (fun outcome disk trace => trace = front ∧ Settled rules state path log outcome disk.persisted)
      R := by
  have hcheckpoint : Holds (fun disk trace => disk.persisted = state ∧ trace = front)
      (checkpoint answers state path (rules.sha256Hex payload) etag)
      (fun saved disk trace => trace = front ∧
        match saved with
        | none => disk.persisted = state
        | some next => disk.persisted = next ∧
            ∃ now, next = state.updateFile path (rules.sha256Hex payload) etag now) R := by
    refine Holds.bind (Holds.ask answers.now) fun now => Holds.bind (Holds.ask answers.saved)
      fun saved => ?_
    cases saved with
    | false => exact Holds.pure fun disk trace h => ⟨h.1.1.2, h.1.1.1⟩
    | true =>
        refine Holds.bind Holds.readDisk fun disk => ?_
        refine Holds.bind (Holds.replaceDisk (S := fun after trace => trace = front ∧
          after.persisted = state.updateFile path (rules.sha256Hex payload) etag now) ?_)
          fun _ => ?_
        · rintro current trace ⟨⟨⟨⟨-, htrace⟩, -⟩, -⟩, -⟩
          exact ⟨htrace, rfl⟩
        · exact Holds.pure fun after trace h => ⟨h.1, h.2, now, rfl⟩
  refine Holds.bind hcheckpoint fun saved => ?_
  cases saved with
  | none => exact Holds.pure fun disk trace h => h
  | some next =>
      refine Holds.pure ?_
      rintro disk trace ⟨htrace, hpersisted, now, hnext⟩
      exact ⟨htrace, hpersisted, payload, etag, now, hnext, ‹_›⟩

/-- The upload was looked up; the path is recorded if the look verifies it. -/
theorem holds_recordReconciled {sent front : List PushEvent}
    {R : PushDisk → List PushEvent → Prop} (hsent : Transmitted path payload sent) :
    Holds (fun disk trace => disk.persisted = state ∧ trace = front)
      (recordReconciled rules answers state path (rules.sha256Hex payload))
      (fun outcome disk trace => ∃ looked, trace = front ++ looked ∧ OnlyFetched path looked ∧
        Settled rules state path (sent ++ looked) outcome disk.persisted) R := by
  refine Holds.bind (adds_reconcile path (rules.sha256Hex payload) state front R) fun outcome => ?_
  refine Holds.of_state fun disk trace hstate => ?_
  obtain ⟨hpersisted, looked, htrace, honly, hverified⟩ := hstate
  cases outcome with
  | divergent =>
      refine Holds.pure ?_
      rintro _ _ ⟨rfl, rfl⟩
      exact ⟨looked, htrace, honly, hpersisted⟩
  | pending =>
      refine Holds.pure ?_
      rintro _ _ ⟨rfl, rfl⟩
      exact ⟨looked, htrace, honly, hpersisted⟩
  | verified etag =>
      obtain ⟨hetag, body, hfetched, hsha⟩ := hverified etag rfl
      have hbacked : Backed rules path payload etag (sent ++ looked) := by
        obtain ⟨url, answer, hin⟩ := hsent
        exact ⟨hetag, ⟨url, answer, List.mem_append_left _ hin⟩,
          Or.inr ⟨body, List.mem_append_right _ hfetched, hsha⟩⟩
      refine Holds.weaken (holds_recordVerified trace hbacked) ?_ ?_
      · rintro _ _ ⟨rfl, rfl⟩
        exact ⟨hpersisted, rfl⟩
      · rintro result after later ⟨hlater, hsettled⟩
        exact ⟨looked, by rw [hlater, htrace], honly, hsettled⟩

theorem strip_ne_nil_of_verified {header : Text}
    (h : (putResult header).outcome ≠ .writtenUnverified) : strip header ≠ [] := by
  intro hempty
  apply h
  rw [putResult, hempty]
  rfl

/-- What is done about an upload that has ended. -/
theorem holds_settlePut {outcome : Except TransferFault PutResult} {sent : List PushEvent}
    (front : List PushEvent) (h : FrozenLog path payload outcome sent) :
    Holds (fun disk trace => disk.persisted = state ∧ trace = front)
      (settlePut rules answers state path (rules.sha256Hex payload) outcome)
      (fun result disk trace => ∃ looked, trace = front ++ looked ∧ OnlyFetched path looked ∧
        Settled rules state path (sent ++ looked) result disk.persisted)
      (fun disk trace => disk.persisted = state ∧ trace = front) := by
  have hnothing (result : PathOutcome) (hresult : ∀ next, result ≠ .verified next) :
      Holds (fun disk trace => disk.persisted = state ∧ trace = front)
        (Pure.pure result : PushCall PathOutcome)
        (fun result disk trace => ∃ looked, trace = front ++ looked ∧ OnlyFetched path looked ∧
          Settled rules state path (sent ++ looked) result disk.persisted)
        (fun disk trace => disk.persisted = state ∧ trace = front) := by
    refine Holds.pure ?_
    rintro disk trace ⟨hpersisted, htrace⟩
    refine ⟨[], by rw [htrace, List.append_nil], onlyFetched_nil, ?_⟩
    cases result with
    | verified next => exact absurd rfl (hresult next)
    | missingUrl | failed | ambiguous | originAborted | checkpointFailed => exact hpersisted
  cases outcome with
  | error fault =>
      cases fault with
      | objectTooLarge => exact Holds.throw fun _ _ hp => hp
      | writerCredential => exact Holds.throw fun _ _ hp => hp
      | authRefresh => exact hnothing .failed fun next heq => by cases heq
      | boundary error =>
          rw [settlePut]
          split
          · exact hnothing .originAborted fun next heq => by cases heq
          · split
            · rename_i hambiguous
              exact holds_recordReconciled (h.ambiguous error rfl hambiguous)
            · exact hnothing .failed fun next heq => by cases heq
  | ok result =>
      obtain ⟨url, status, header, hin, hlow, hhigh, hresult⟩ := h.written result rfl
      have hsent : Transmitted path payload sent := ⟨url, .response status header, hin⟩
      rw [settlePut]
      split
      · exact holds_recordReconciled hsent
      · rename_i hverified
        have hbacked : Backed rules path payload result.etag sent := by
          rw [hresult] at hverified ⊢
          exact ⟨strip_ne_nil_of_verified hverified, hsent,
            Or.inl ⟨url, status, header, hin, hlow, hhigh, rfl⟩⟩
        refine Holds.weaken (holds_recordVerified front hbacked) (fun _ _ hp => hp) ?_
        rintro outcome disk trace ⟨htrace, hsettled⟩
        refine ⟨[], by rw [htrace, List.append_nil], onlyFetched_nil, ?_⟩
        rw [List.append_nil]
        exact hsettled

/-- What a push does for one path. -/
structure OneLog (path : Text) (log : List PushEvent) : Prop where
  samePath : ∀ event ∈ log, event.path = path
  pathLog : PathLog log

theorem oneLog_nil (path : Text) : OneLog path [] where
  samePath _ h := absurd h List.not_mem_nil
  pathLog := by
    refine ⟨?_, Nat.zero_le 1, Nat.le_succ 1, ?_⟩
    · exact fun answer h => absurd h List.not_mem_nil
    · intro attempts hattempts
      rw [List.mem_singleton.mp hattempts]
      exact Nat.zero_le _

theorem FrozenLog.looked {outcome : Except TransferFault PutResult}
    {sent looked : List PushEvent} (h : FrozenLog path payload outcome sent)
    (hlooked : OnlyFetched path looked) : OneLog path (sent ++ looked) where
  samePath event hevent := by
    rcases List.mem_append.mp hevent with hin | hin
    · exact h.samePath event hin
    · obtain ⟨found, rfl⟩ := hlooked event hin
      rfl
  pathLog := h.pathLog.append_fetched hlooked

/-- One round of the loop: what it adds to the log is about its path, and the sync state changes
only if the path is verified. -/
theorem holds_pushOne (urls : Table Text Text) (candidate : PushCandidate)
    (front : List PushEvent) :
    Holds (fun disk trace => disk.persisted = state ∧ trace = front)
      (pushOne rules answers urls state candidate)
      (fun outcome disk trace => ∃ log, trace = front ++ log ∧
        OneLog candidate.relativePath log ∧
        Settled rules state candidate.relativePath log outcome disk.persisted)
      (fun disk trace => disk.persisted = state ∧
        ∃ log, trace = front ++ log ∧ OneLog candidate.relativePath log) := by
  have hnothing (result : PathOutcome) (hresult : ∀ next, result ≠ .verified next) (disk : PushDisk)
      (trace : List PushEvent) (h : disk.persisted = state ∧ trace = front) :
      ∃ log, trace = front ++ log ∧ OneLog candidate.relativePath log ∧
        Settled rules state candidate.relativePath log result disk.persisted := by
    refine ⟨[], by rw [h.2, List.append_nil], oneLog_nil _, ?_⟩
    cases result with
    | verified next => exact absurd rfl (hresult next)
    | missingUrl | failed | ambiguous | originAborted | checkpointFailed => exact h.1
  unfold pushOne
  dsimp only
  split
  · exact Holds.pure (hnothing .missingUrl fun next heq => by cases heq)
  · exact Holds.pure (hnothing .missingUrl fun next heq => by cases heq)
  rename_i url _ _
  refine Holds.bind (Holds.ask answers.readFile) fun read => ?_
  cases read with
  | none =>
      exact Holds.pure fun disk trace h => hnothing .failed (fun next heq => by cases heq) disk trace h.1
  | some payload =>
      refine Holds.bind (Holds.weaken
        (adds_putFrozen candidate.relativePath url payload state front _) (fun _ _ h => h.1)
        fun _ _ _ h => h) fun outcome => ?_
      refine Holds.of_state fun disk trace hstate => ?_
      obtain ⟨hpersisted, sent, htrace, hsent⟩ := hstate
      refine Holds.weaken_stop (Holds.weaken (holds_settlePut trace hsent) ?_ ?_) ?_
      · rintro _ _ ⟨rfl, rfl⟩
        exact ⟨hpersisted, rfl⟩
      · rintro result after later ⟨looked, hlater, hlooked, hsettled⟩
        refine ⟨sent ++ looked, ?_, hsent.looked hlooked, hsettled⟩
        rw [hlater, htrace, List.append_assoc]
      · rintro after later ⟨hafter, rfl⟩
        refine ⟨hafter, sent ++ [], ?_, hsent.looked onlyFetched_nil⟩
        rw [htrace, List.append_nil]

end Sync
end Nauro
