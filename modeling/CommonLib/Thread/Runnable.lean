import CommonLib.Thread.Worker

/-!
# Runnable

`common::Runnable` (Runnable.hpp:44-163): `run()` starts a thread whose body is
`while(_running.load()) { __work(); }` (:76-78), and `stop()` is `_running.store(false)` with
no lock (:91). `run()` is the `Core.call` it shares with `ActiveRunnable`.

`__work()` is the user's code: each call returns or raises (`Action.work`). Its doc comment
(:153-161) says that `run()` catches an exception and sets the future it returned to it; no
code catches it, so it leaves the body `ThreadDetail::start` gives `std::thread` and
`std::terminate` ends the process (`raise_terminates`). The future is `ThreadDetail`'s
`_promise`, set only after the body returns, that is after the loop has read `_running`
clear (`OneRun.done`).

`stop()` takes no lock, but the loop reads `_running` before each `__work()` call and, once the
only `run()` call has stored it, nothing sets it again: after `stop()` at most one more
`__work()` call happens, the one the thread had already started (`stop_bounds_work`).

With one `run()` call the worker's own threads make progress on their own: while the flag is
set they complete another `__work()` call within four steps (`works_again`), and once it is
clear they end the thread within three (`ends_after_stop`). Unlike in `ActiveRunnable`, the
thread never waits on anything, so no `stop()` can be lost.
-/

namespace Common.Runnable

open Thread

/-- Where the thread `run()` starts is. -/
inductive Pc (E : Type) where
  /-- `while(_running.load())` -/
  | head
  /-- `__work();` -/
  | work
  /-- the loop has left and `ThreadDetail` has set its `_promise` -/
  | done
  /-- `__work` raised `e`; nothing catches it, so `std::terminate` -/
  | raised (e : E)
  deriving DecidableEq, Repr

variable {E : Type}

/-- The thread body has returned. -/
def Pc.finished : Pc E → Bool
  | .done => true
  | _ => false

/-- A `Runnable` and the threads using it. -/
structure State (E : Type) extends Core (Pc E) where
  /-- every `__work()` call, and the exception it raised if it did -/
  worked : List (Except E Unit)

/-- What the threads can do next. -/
inductive Action (E : Type) where
  /-- another thread calls `run()` -/
  | run
  /-- the `i`-th `run()` call takes its next step -/
  | call (i : Nat)
  /-- `stop()` -/
  | stop
  /-- the thread `run()` started tests `_running` -/
  | loop
  /-- `__work()` returns or raises -/
  | work (r : Except E Unit)

namespace State

/-- A `Runnable` as constructed. -/
def init : State E := ⟨Core.init, []⟩

/-- Where the thread is, once `_t` has been started. -/
def loopPc (s : State E) : Option (Pc E) :=
  match s.t with
  | some (.started pc) => some pc
  | _ => none

/-- Move the thread to `pc`. -/
def setPc (s : State E) (pc : Pc E) : State E := { s with t := some (.started pc) }

/-- The future the last `run()` returned: `ThreadDetail`'s `_promise`, which `start` sets
once `work()` has returned. -/
def future (s : State E) : Promise Unit E := (s.t.map (Handle.future Pc.finished)).getD .pending

/-- `__work()` returned, or raised `e`. -/
def work (s : State E) : Except E Unit → State E
  | .ok () => ({ s with worked := s.worked ++ [.ok ()] } : State E).setPc .head
  | .error e =>
    ({ s with worked := s.worked ++ [.error e], aborted := true } : State E).setPc (.raised e)

/-- One action of a live process. -/
def live (s : State E) : Action E → Option (State E)
  | .run => some { s with calls := s.calls ++ [.check] }
  | .call i => (s.toCore.call .head Pc.finished i).map fun c => { s with toCore := c }
  | .stop => some { s with running := false }
  | .loop =>
    match s.loopPc with
    | some .head => some (s.setPc (if s.running then .work else .done))
    | _ => none
  | .work r =>
    match s.loopPc with
    | some .work => some (s.work r)
    | _ => none

/-- One action; nothing happens once `std::terminate` has ended the process. -/
def step (s : State E) (a : Action E) : Option (State E) :=
  if s.aborted then none else s.live a

/-- The actions in turn, stopping at the first that cannot happen. -/
def exec (s : State E) (as : List (Action E)) : Option (State E) := runSteps step s as

/-- `s'` is one action after `s`. -/
def Next (s s' : State E) : Prop := ∃ a, s.step a = some s'

/-- The states some interleaving reaches from a new `Runnable`. -/
def Reachable (s : State E) : Prop := Relation.ReflTransGen Next init s

variable {s s' : State E} {a : Action E}

theorem exec_reaches {as : List (Action E)} (h : exec s as = some s') :
    Relation.ReflTransGen Next s s' :=
  runSteps_reachable step h

/-! ## What one step can do -/

theorem step_cases (h : s.step a = some s') :
    (a = .run ∧ s' = { s with calls := s.calls ++ [.check] }) ∨
    (∃ i c, a = .call i ∧ s.toCore.call .head Pc.finished i = some c ∧ s' = { s with toCore := c }) ∨
    (a = .stop ∧ s' = { s with running := false }) ∨
    (a = .loop ∧ s.loopPc = some .head ∧ s' = s.setPc (if s.running then .work else .done)) ∨
    (∃ r, a = .work r ∧ s.loopPc = some .work ∧ s' = s.work r) := by
  unfold step at h
  split at h
  · cases h
  cases a with
  | run => exact .inl ⟨rfl, (Option.some.inj h).symm⟩
  | call i =>
    obtain ⟨c, hc, rfl⟩ := Option.map_eq_some'.mp h
    exact .inr (.inl ⟨i, c, rfl, hc, rfl⟩)
  | stop => exact .inr (.inr (.inl ⟨rfl, (Option.some.inj h).symm⟩))
  | loop =>
    simp only [live] at h
    split at h
    · exact .inr (.inr (.inr (.inl ⟨rfl, ‹_›, (Option.some.inj h).symm⟩)))
    · cases h
  | work r =>
    simp only [live] at h
    split at h
    · exact .inr (.inr (.inr (.inr ⟨r, rfl, ‹_›, (Option.some.inj h).symm⟩)))
    · cases h

@[simp] theorem work_calls (r : Except E Unit) : (s.work r).calls = s.calls := by
  cases r <;> rfl

@[simp] theorem work_running (r : Except E Unit) : (s.work r).running = s.running := by
  cases r <;> rfl

@[simp] theorem work_worked (r : Except E Unit) : (s.work r).worked = s.worked ++ [r] := by
  cases r <;> rfl

theorem t_of_loopPc {pc : Pc E} (h : s.loopPc = some pc) : s.t = some (.started pc) := by
  unfold loopPc at h; split at h <;> simp_all

/-- Every step, as the state both workers share sees it, with what it does to `_t`. -/
theorem step_move (h : s.step a = some s') : Core.Move .head Pc.finished s.toCore s'.toCore := by
  rcases step_cases h with ⟨-, rfl⟩ | ⟨i, c, -, hc, rfl⟩ | ⟨-, rfl⟩ | ⟨-, hpc, rfl⟩ |
    ⟨r, -, hpc, rfl⟩
  · exact .inl rfl
  · exact .inr (.inl ⟨i, hc⟩)
  · exact .inr (.inr ⟨rfl, fun h => (by cases h), .inl rfl⟩)
  · exact .inr (.inr ⟨rfl, id, .inr ⟨_, _, t_of_loopPc hpc, rfl⟩⟩)
  · obtain ⟨pc', ht⟩ : ∃ pc', (s.work r).t = some (.started pc') := by
      cases r <;> exact ⟨_, rfl⟩
    exact .inr (.inr ⟨by simp, fun h => by simpa using h, .inr ⟨_, _, t_of_loopPc hpc, ht⟩⟩)

/-- Every step, as the state both workers share sees it. -/
theorem step_core (h : s.step a = some s') : Core.Step .head Pc.finished s.toCore s'.toCore :=
  (step_move h).step

theorem steps_core (h : Relation.ReflTransGen Next s s') :
    Relation.ReflTransGen (Core.Step .head Pc.finished) s.toCore s'.toCore :=
  h.lift _ fun _ _ ⟨_, ha⟩ => step_core ha

/-! ## An exception from `__work()` -/

theorem step_work_error {e : E} (h : s.step (.work (.error e)) = some s') :
    s.loopPc = some .work ∧ s' = s.work (.error e) := by
  unfold step at h
  split at h
  · cases h
  · simp only [live] at h
    split at h
    · exact ⟨‹_›, (Option.some.inj h).symm⟩
    · cases h

/-- `__work()` raising: the process ends, the future `run()` returned is never set, and the
loop makes no further `__work()` call. -/
theorem raise_terminates {e : E} (h : s.step (.work (.error e)) = some s') :
    s'.future = .pending ∧ s'.worked = s.worked ++ [.error e] ∧ ∀ a, s'.step a = none := by
  obtain ⟨-, rfl⟩ := step_work_error h
  exact ⟨rfl, rfl, fun _ => rfl⟩

/-- A `Runnable` started once whose first `__work()` raises: its future stays unset and
nothing more happens. -/
theorem raise_leaves_future_pending :
    ∃ s : State Unit, init.exec [.run, .call 0, .call 0, .call 0, .call 0, .loop,
      .work (.error ())] = some s ∧ s.future = .pending ∧ ∀ a, s.step a = none :=
  ⟨_, rfl, rfl, fun _ => rfl⟩

/-! ## After `stop()` -/

variable {s₀ s₁ : State E}

/-- From `stop()` (state `s₁`) on, with every `run()` call past its store: the flag stays
clear, and `__work()` has been called at most once more, only if the thread was already past
its test of the flag at `s₁`. -/
structure Quiet (s₁ s : State E) : Prop where
  running : s.running = false
  stored : s.toCore.AllStored
  nonempty : s.calls ≠ []
  worked : s.worked = s₁.worked ∨ ∃ r, s.worked = s₁.worked ++ [r] ∧ s₁.loopPc = some .work
  working : s.loopPc = some .work → s.worked = s₁.worked ∧ s₁.loopPc = some .work

theorem Quiet.step (hq : Quiet s₁ s) (h : s.step a = some s') (hone : s'.calls.length ≤ 1) :
    Quiet s₁ s' := by
  obtain ⟨h1, h2, h3, h4, h5⟩ := hq
  rcases step_cases h with ⟨-, rfl⟩ | ⟨i, c, -, hc, rfl⟩ | ⟨-, rfl⟩ | ⟨-, hpc, rfl⟩ |
    ⟨r, -, hpc, rfl⟩
  · exact absurd (Core.calls_nil_of_run hone) h3
  · rcases Core.call_cases hc with ⟨hi, rfl⟩ | ⟨hi, rfl⟩ | ⟨-, -, rfl⟩ | ⟨-, -, rfl⟩ |
      ⟨-, -, rfl⟩
    · cases h2 i _ hi
    · cases h2 i _ hi
    · exact ⟨h1, h2.set rfl rfl, by simpa using h3, h4, fun h => (by cases h)⟩
    · exact ⟨h1, h2.set rfl rfl, by simpa using h3, h4, fun h => (by cases h)⟩
    · exact ⟨h1, h2, h3, h4, h5⟩
  · exact ⟨rfl, h2, h3, h4, h5⟩
  · exact ⟨h1, h2, h3, h4, fun h => by simp [h1, setPc, loopPc] at h⟩
  · obtain ⟨hw, hw₁⟩ := h5 hpc
    refine ⟨by simpa using h1, fun j x hj => h2 j x (by simpa using hj), by simpa using h3,
      .inr ⟨r, by simp [hw], hw₁⟩, fun h => ?_⟩
    cases r <;> cases h

theorem Quiet.run (hq : Quiet s₁ s) (h : Relation.ReflTransGen Next s s')
    (hone : s'.calls.length ≤ 1) : Quiet s₁ s' := by
  induction h with
  | refl => exact hq
  | tail _ huv ih =>
    obtain ⟨a, ha⟩ := huv
    exact (ih (Nat.le_trans (step_core ha).calls_length hone)).step ha hone

/-- After `stop()`, made once the only `run()` call has stored the flag (`s₀` to `s₁`), in every
later state: `__work()` has been called at most once more, and only if the thread was already
past its test of `_running` when `stop()` ran. -/
theorem stop_bounds_work (h₀ : Reachable s₀) (hr : s₀.running = true)
    (h₁ : s₀.step .stop = some s₁) (h : Relation.ReflTransGen Next s₁ s)
    (hone : s.calls.length ≤ 1) :
    s.worked = s₀.worked ∨ ∃ r, s.worked = s₀.worked ++ [r] ∧ s₀.loopPc = some .work := by
  obtain rfl : s₁ = { s₀ with running := false } := by
    rcases step_cases h₁ with ⟨ha, -⟩ | ⟨_, _, ha, -⟩ | ⟨-, rfl⟩ | ⟨ha, -⟩ | ⟨_, ha, -⟩
    all_goals first | cases ha | rfl
  have hs := Core.running_stored (steps_core h₀) hr
  have hc := Core.steps_calls_length (steps_core h)
  replace hc : s₀.calls.length ≤ 1 := Nat.le_trans hc hone
  have hq : Quiet { s₀ with running := false } { s₀ with running := false } :=
    ⟨rfl, hs.allStored hc, hs.nonempty, .inl rfl, fun h => ⟨rfl, h⟩⟩
  exact (hq.run h hone).worked

/-- One `run()`, the thread inside `__work()`. -/
def working : State Unit := ⟨⟨true, some (.started .work), [.returned], false⟩, []⟩

/-- `working` after `stop()`, `__work()` returning and the loop's exit. -/
def workedOnce : State Unit := ⟨⟨false, some (.started .done), [.returned], false⟩, [.ok ()]⟩

theorem stop_bounds_work_working :
    workedOnce.worked = working.worked ∨
      ∃ r, workedOnce.worked = working.worked ++ [r] ∧ working.loopPc = some .work :=
  stop_bounds_work (exec_reaches (show init.exec [.run, .call 0, .call 0, .call 0, .call 0, .loop]
    = some working from rfl)) rfl rfl
    (exec_reaches (show ({ working with running := false } : State Unit).exec
      [.work (.ok ()), .loop] = some workedOnce from rfl)) (by decide)

/-! ## The loop keeps calling `__work()` -/

theorem aborted_of_step (h : s.step a = some s') : s.aborted = false := by
  unfold step at h
  split at h
  · cases h
  · exact Bool.eq_false_iff.mpr ‹_›

/-- With one `run()` call: where the call is says what `_running` and `_t` hold, the loop has
left only with the flag clear, which nothing sets again, and an exception from `__work()` has
ended the process. -/
structure OneRun (s : State E) : Prop where
  solo : s.toCore.Solo
  done : s.loopPc = some .done → s.running = false
  raised : ∀ e, s.loopPc = some (.raised e) → s.aborted = true

theorem OneRun.step (ho : s.OneRun) (h : s.step a = some s') (hone : s'.calls.length ≤ 1) :
    s'.OneRun := by
  have hnr (e : E) : s.loopPc ≠ some (.raised e) := fun he => by
    have h0 := aborted_of_step h
    rw [ho.raised e he] at h0; cases h0
  refine ⟨ho.solo.move (step_move h) hone, fun hd => ?_, fun e he => ?_⟩
  · -- the loop leaves only on reading the flag clear
    rcases step_cases h with ⟨-, rfl⟩ | ⟨i, c, -, hc, rfl⟩ | ⟨-, rfl⟩ | ⟨-, hpc, rfl⟩ |
      ⟨r, -, hpc, rfl⟩
    · exact ho.done hd
    · have hl : s.calls.length ≤ 1 := (Core.call_calls hc).1 ▸ hone
      rcases Core.call_cases hc with ⟨-, rfl⟩ | ⟨hx, rfl⟩ | ⟨-, -, rfl⟩ | ⟨-, -, rfl⟩ | ⟨-, -, rfl⟩
      · exact ho.done hd
      · -- the store: `_t` is still empty
        have hs := ho.solo
        rw [Core.Solo, (Core.eq_singleton_of_getElem? hx hl).2] at hs
        simp [loopPc, hs.2] at hd
      · cases hd
      · cases hd
      · exact ho.done hd
    · rfl
    · revert hd; split <;> simp_all [setPc, loopPc]
    · cases r <;> cases hd
  · -- only `__work()` raising moves the loop to `raised`, and it ends the process
    rcases step_cases h with ⟨-, rfl⟩ | ⟨i, c, -, hc, rfl⟩ | ⟨-, rfl⟩ | ⟨-, hpc, rfl⟩ |
      ⟨r, -, hpc, rfl⟩
    · exact absurd he (hnr e)
    · rcases Core.call_cases hc with ⟨-, rfl⟩ | ⟨-, rfl⟩ | ⟨-, -, rfl⟩ | ⟨-, -, rfl⟩ | ⟨-, -, rfl⟩
      · exact absurd he (hnr e)
      · exact absurd he (hnr e)
      · cases he
      · cases he
      · rfl
    · exact absurd he (hnr e)
    · revert he; split <;> simp [setPc, loopPc]
    · cases r with
      | ok u => cases he
      | error e => rfl

theorem reachable_oneRun (h : Reachable s) (hone : s.calls.length ≤ 1) : s.OneRun := by
  induction h with
  | refl => exact ⟨⟨rfl, rfl⟩, fun h => (by cases h), fun _ h => (by cases h)⟩
  | tail _ hs ih =>
    obtain ⟨a, ha⟩ := hs
    exact (ih (Nat.le_trans (step_core ha).calls_length hone)).step ha hone

/-- `while(_running.load()) { __work(); }` keeps calling `__work()`: with one `run()` call,
from every reachable state of a live process with `_running` set, at most four steps of the
worker's own threads (its `run()` call, the loop, `__work()` returning) complete one more
`__work()` call, with no help from other threads. -/
theorem works_again (h : Reachable s) (hone : s.calls.length ≤ 1) (hr : s.running = true)
    (hab : s.aborted = false) :
    ∃ as : List (Action E), as.length ≤ 4 ∧ (∀ a ∈ as, a = .call 0 ∨ a = .loop ∨ a = .work (.ok ())) ∧
      ∃ s', s.exec as = some s' ∧ s'.worked = s.worked ++ [.ok ()] := by
  have ho := reachable_oneRun h hone
  cases hpc : s.loopPc with
  | none =>
    have hs := ho.solo
    rcases hc : s.calls with _ | ⟨x, _ | ⟨y, l⟩⟩ <;> rw [Core.Solo, hc] at hs
    · simp [hs.1] at hr
    · cases x with
      | check => simp [hs.1] at hr
      | store => simp [hs.1] at hr
      | create => exact ⟨[.call 0, .call 0, .loop, .work (.ok ())], by simp, by simp, by
          simp [exec, runSteps, step, hab, live, Core.call, hc, Core.busy, hs, loopPc, setPc, hr,
            State.work]⟩
      | start => exact ⟨[.call 0, .loop, .work (.ok ())], by simp, by simp, by
          simp [exec, runSteps, step, hab, live, Core.call, hc, hs, loopPc, setPc, hr,
            State.work]⟩
      | returned => obtain ⟨pc, ht⟩ := hs; simp [loopPc, ht] at hpc
      | threw => exact hs.elim
    · simp [hc] at hone
  | some pc =>
    cases pc with
    | head => exact ⟨[.loop, .work (.ok ())], by simp, by simp, by
        simp [exec, runSteps, step, hab, live, t_of_loopPc hpc, setPc, hr, loopPc, State.work]⟩
    | work => exact ⟨[.work (.ok ())], by simp, by simp, by
        simp [exec, runSteps, step, hab, live, hpc, setPc, State.work]⟩
    | done => simp [ho.done hpc] at hr
    | raised e => simp [ho.raised e hpc] at hab

theorem works_again_working :
    ∃ as : List (Action Unit), as.length ≤ 4 ∧
      (∀ a ∈ as, a = .call 0 ∨ a = .loop ∨ a = .work (.ok ())) ∧
      ∃ s', working.exec as = some s' ∧ s'.worked = working.worked ++ [.ok ()] :=
  works_again (exec_reaches (show init.exec [.run, .call 0, .call 0, .call 0, .call 0, .loop]
    = some working from rfl)) (by decide) rfl rfl

/-- `stop()` is never lost: once `_running` is clear after the only `run()` call stored it, the
worker's own threads finish the thread `run()` started, setting the future it returned, within
three steps, from every reachable state of a live process. -/
theorem ends_after_stop (h : Reachable s) (hone : s.calls.length ≤ 1) (hs : s.toCore.HasStored)
    (hr : s.running = false) (hab : s.aborted = false) :
    ∃ as : List (Action E), as.length ≤ 3 ∧ (∀ a ∈ as, a = .call 0 ∨ a = .loop ∨ a = .work (.ok ())) ∧
      ∃ s', s.exec as = some s' ∧ s'.loopPc = some .done := by
  have ho := reachable_oneRun h hone
  cases hpc : s.loopPc with
  | none =>
    have hso := ho.solo
    obtain ⟨j, x, hj, hx⟩ := hs
    obtain ⟨rfl, hc⟩ := Core.eq_singleton_of_getElem? hj hone
    rw [Core.Solo, hc] at hso
    cases x with
    | create => exact ⟨[.call 0, .call 0, .loop], by simp, by simp, by
        simp [exec, runSteps, step, hab, live, Core.call, hc, Core.busy, hso, loopPc, setPc, hr]⟩
    | start => exact ⟨[.call 0, .loop], by simp, by simp, by
        simp [exec, runSteps, step, hab, live, Core.call, hc, hso, loopPc, setPc, hr]⟩
    | returned => obtain ⟨pc, ht⟩ := hso; simp [loopPc, ht] at hpc
    | _ => cases hx
  | some pc =>
    cases pc with
    | head => exact ⟨[.loop], by simp, by simp, by
        simp [exec, runSteps, step, hab, live, t_of_loopPc hpc, setPc, hr, loopPc]⟩
    | work => exact ⟨[.work (.ok ()), .loop], by simp, by simp, by
        simp [exec, runSteps, step, hab, live, t_of_loopPc hpc, setPc, hr, loopPc, State.work]⟩
    | done => exact ⟨[], by simp, by simp, s, rfl, hpc⟩
    | raised e => simp [ho.raised e hpc] at hab

/-- One `run()`, then `stop()` before the loop's next test. -/
def stopped : State Unit := ⟨⟨false, some (.started .head), [.returned], false⟩, []⟩

theorem ends_after_stop_stopped :
    ∃ as : List (Action Unit), as.length ≤ 3 ∧
      (∀ a ∈ as, a = .call 0 ∨ a = .loop ∨ a = .work (.ok ())) ∧
      ∃ s', stopped.exec as = some s' ∧ s'.loopPc = some .done :=
  ends_after_stop (exec_reaches (show init.exec [.run, .call 0, .call 0, .call 0, .call 0, .stop]
    = some stopped from rfl)) (by decide) ⟨0, .returned, rfl, rfl⟩ rfl rfl

end State

end Common.Runnable
