import CommonLib.Thread.Restart
import CommonLib.Thread.Service

/-!
# What the worker's own threads can always do

* `set_priority` and `set_name` test `_running` and then call through `_t` (Runnable.hpp:384,
  :411). `_t` is empty only until a `run()` call replaces it (`reachable_emptyBeforeCreate`),
  and `_running` is stored before that (:252-254), so they find `_t` empty only while a
  `run()` call is between the two (`setPriority_empty_in_run`).
* With one `run()` call, the call never throws and never blocks in `join()`: its own steps
  return it, whatever the other threads do meanwhile (`first_run_returns`).
* With one `run()` call and no spurious wakeup, no request is stuck while `_running` is set:
  from every such state, the steps of the worker's own threads (its `run()` call, the
  dispatch thread, `__work`) serve the oldest request, a `serve` of `Service`
  (`canServe_oldest`), and so every queued request in turn (`queue_drains`). The producers
  and `stop()` are not needed for it.
* Once `_running` is clear, the same steps end the thread within three steps, unless the loop
  is parked: blocked in `_cv.wait`, or about to block there on an empty `_tasks`
  (`stop_ends_thread`). A parked loop moves on only by `notify()`, `stop()` or a spurious
  wakeup; after a lost `stop()` the thread ends only if another call comes (`parked_stays`).
-/

namespace Common.ActiveRunnable.State

open Thread Relation

variable {D R E : Type} {s s' : State D R E} {a : Action D R E}

/-! ## `_t` while `_running` is set -/

theorem reachable_emptyBeforeCreate (h : Reachable s) : s.toCore.EmptyBeforeCreate :=
  Core.moves_emptyBeforeCreate (steps_move h)

/-- In every reachable state, however many `run()` calls there are, `set_priority` and
`set_name` call through an empty `_t` only while a `run()` call has stored `_running` and has
not yet replaced `_t`. -/
theorem setPriority_empty_in_run (h : Reachable s) {p : LinuxPriority} {ok : Bool}
    (hn : s.toCore.setPriority p ok = none ∨ s.toCore.setName = none) :
    ∃ i : Nat, s.calls[i]? = some .create := by
  obtain ⟨hr, ht⟩ : s.running = true ∧ s.t = none := by
    rcases hn with hn | hn <;> exact Core.viaT_eq_none.mp hn
  exact (reachable_emptyBeforeCreate h).create ht (Core.running_stored (steps_core h) hr)

/-- The first `run()` call, between its store and `_t = Thread::create()`. -/
def storing : State Nat Nat Unit := ⟨⟨true, none, [.create], false⟩, [], [], [], [], []⟩

theorem setPriority_empty_in_run_storing :
    storing.toCore.setPriority (.fifo, 10) true = none ∧
      ∃ i : Nat, storing.calls[i]? = some .create :=
  ⟨rfl, setPriority_empty_in_run (exec_reaches (show init.exec [.run, .call 0, .call 0] =
    some storing from rfl)) (.inl (show storing.toCore.setPriority (.fifo, 10) true = none from rfl))⟩

/-! ## One `run()` call -/

/-- An exception from `__work` never leaves the dispatch thread with the process alive. -/
theorem step_raised (h : s.step a = some s') (hs : ∀ e, s.loopPc ≠ some (.raised e)) {e : E}
    (he : s'.loopPc = some (.raised e)) : s'.aborted = true := by
  rcases step_cases h with ⟨-, rfl⟩ | ⟨i, c, -, hc, rfl⟩ | ⟨d, -, rfl⟩ | ⟨-, rfl⟩ |
    ⟨pc, -, hpc, hd⟩ | ⟨-, -, rfl⟩ | ⟨t, r, -, -, rfl⟩
  · exact absurd he (hs e)
  · rcases Core.call_cases hc with ⟨-, rfl⟩ | ⟨-, rfl⟩ | ⟨-, -, rfl⟩ | ⟨-, -, rfl⟩ | ⟨-, -, rfl⟩
    · exact absurd he (hs e)
    · exact absurd he (hs e)
    · cases he
    · cases he
    · rfl
  · rw [notify_loopPc] at he; split at he
    · cases he
    · exact absurd he (hs e)
  · rw [stop_loopPc] at he; split at he
    · cases he
    · exact absurd he (hs e)
  · have hdq : s.dequeue.loopPc ≠ some (.raised e) := by
      unfold dequeue; split
      · split <;> simp
      · simp
    cases pc with
    | head => cases hd; rw [setPc_loopPc] at he; split at he <;> cases he
    | lock =>
      cases hd; split at he
      · cases he
      · exact absurd he hdq
    | wake => cases hd; exact absurd he hdq
    | fulfil t r =>
      cases hd
      rcases fulfil_cases s t r with ⟨-, hf⟩ | hf
      · rw [hf] at he; cases he
      · rw [hf]
    | _ => cases hd
  · cases he
  · cases r with
    | ok v => cases he
    | error e => rfl

theorem raised_aborted (h : Reachable s) {e : E} (he : s.loopPc = some (.raised e)) :
    s.aborted = true := by
  induction h generalizing e with
  | refl => cases he
  | tail _ hs ih =>
    obtain ⟨a, ha⟩ := hs
    have hab := aborted_of_step ha
    exact step_raised ha (fun e' he' => by simp [ih he'] at hab) he

/-- The dispatch thread leaves its loop only on reading `_running` clear. -/
theorem dispatch_done {pc : Pc D R E} (hpc : s.loopPc = some pc) (hd : s.dispatch pc = some s')
    (h : s'.loopPc = some .done) : s.running = false := by
  have hdq (h : s.dequeue.loopPc = some .done) : s.running = false := by
    unfold dequeue at h; split at h
    · split at h <;> cases h
    · simp_all
  cases pc with
  | head => cases hd; rw [setPc_loopPc] at h; split at h <;> simp_all
  | lock =>
    cases hd; split at h
    · cases h
    · exact hdq h
  | wake => cases hd; exact hdq h
  | fulfil t r =>
    cases hd
    rcases fulfil_loopPc s t r with h' | h' <;> rw [h'] at h <;> simp [hpc] at h
  | _ => cases hd

/-- With one `run()` call: where the call is says what `_running` and `_t` hold, and the loop
has left only with the flag clear, which nothing sets again. -/
structure OneRun (s : State D R E) : Prop where
  solo : s.toCore.Solo
  done : s.loopPc = some .done → s.running = false

theorem OneRun.step (ho : s.OneRun) (h : s.step a = some s') (hone : s'.calls.length ≤ 1) :
    s'.OneRun := by
  refine ⟨ho.solo.move (step_move h) hone, fun hd => ?_⟩
  rcases step_cases h with ⟨-, rfl⟩ | ⟨i, c, -, hc, rfl⟩ | ⟨d, -, rfl⟩ | ⟨-, rfl⟩ |
    ⟨pc, -, hpc, hdp⟩ | ⟨-, -, rfl⟩ | ⟨t, r, -, -, rfl⟩
  · exact ho.done hd
  · have hl : s.calls.length ≤ 1 := (Core.call_calls hc).1 ▸ hone
    rcases Core.call_cases hc with ⟨-, rfl⟩ | ⟨hx, rfl⟩ | ⟨-, -, rfl⟩ | ⟨-, -, rfl⟩ | ⟨-, -, rfl⟩
    · exact ho.done hd
    · -- the store: `_t` is still empty
      have hs := ho.solo
      rw [Core.Solo, (Core.eq_singleton_of_getElem? hx hl).2] at hs
      simp [loopPc, hs.2] at hd
    · cases hd
    · cases hd
    · exact ho.done hd
  · rw [notify_loopPc] at hd; split at hd
    · cases hd
    · exact ho.done hd
  · rfl
  · exact (dispatch_core hdp).1.trans (dispatch_done hpc hdp hd)
  · cases hd
  · cases r <;> cases hd

theorem reachable_oneRun (h : Reachable s) (hone : s.calls.length ≤ 1) : s.OneRun := by
  induction h with
  | refl => exact ⟨⟨rfl, rfl⟩, fun h => (by cases h)⟩
  | tail _ hs ih =>
    obtain ⟨a, ha⟩ := hs
    exact (ih (Nat.le_trans (step_core ha).calls_length hone)).step ha hone

/-- A `run()` call on a worker no other `run()` call has touched never throws
`AlreadyRunningException` and never blocks in `join()`: from every reachable state of a live
process, whatever the producers, `stop()` and the dispatch thread have done, at most four of
its own steps return it. -/
theorem first_run_returns (h : Reachable s) (hone : s.calls.length = 1)
    (hab : s.aborted = false) :
    ∃ n ≤ 4, ∃ s', s.exec (List.replicate n (.call 0)) = some s' ∧ s'.calls = [.returned] := by
  have hs := (reachable_oneRun h (Nat.le_of_eq hone)).solo
  obtain ⟨x, hx⟩ := List.length_eq_one.mp hone
  rw [Core.Solo, hx] at hs
  cases x with
  | check => exact ⟨4, by omega, by simp [exec, runSteps, step, hab, live, Core.call, hx, hs.1,
      Core.busy, hs.2]⟩
  | store => exact ⟨3, by omega, by simp [exec, runSteps, step, hab, live, Core.call, hx,
      Core.busy, hs.2]⟩
  | create => exact ⟨2, by omega, by simp [exec, runSteps, step, hab, live, Core.call, hx,
      Core.busy, hs]⟩
  | start => exact ⟨1, by omega, by simp [exec, runSteps, step, hab, live, Core.call, hx, hs]⟩
  | returned => exact ⟨0, by omega, s, rfl, hx⟩
  | threw => exact hs.elim

theorem first_run_returns_storing :
    ∃ n ≤ 4, ∃ s', storing.exec (List.replicate n (.call 0)) = some s' ∧ s'.calls = [.returned] :=
  first_run_returns (exec_reaches (show init.exec [.run, .call 0, .call 0] = some storing from rfl))
    rfl rfl

/-! ## No request is stuck -/

/-- From `s`, at most `n` steps of the worker's own threads (its `run()` call, the dispatch
thread, and `__work` returning `v`) serve the oldest request, and the process lives on. -/
def CanServe (v : R) (n : Nat) (s : State D R E) : Prop :=
  ∃ (as : List (Action D R E)) (s' : State D R E) (w : R), as.length ≤ n ∧
    s.exec as = some s' ∧ (∀ a ∈ as, a = .call 0 ∨ a = .loop ∨ a = .work (.ok v)) ∧
    s'.aborted = false ∧ s.toService.step (.serve w) = some s'.toService

theorem CanServe.mono {v : R} {n m : Nat} (hc : s.CanServe v n) (hnm : n ≤ m) : s.CanServe v m :=
  let ⟨as, s', w, hl, hx⟩ := hc
  ⟨as, s', w, Nat.le_trans hl hnm, hx⟩

/-- A step of the worker's own threads that leaves the service state alone. -/
theorem CanServe.cons {v : R} {n : Nat} (h : s.step a = some s')
    (ha : a = .call 0 ∨ a = .loop ∨ a = .work (.ok v)) (he : s'.toService = s.toService)
    (hc : s'.CanServe v n) : s.CanServe v (n + 1) := by
  obtain ⟨as, s'', w, hl, hx, has, hab, hw⟩ := hc
  refine ⟨a :: as, s'', w, Nat.succ_le_succ hl, ?_, List.forall_mem_cons.mpr ⟨ha, has⟩, hab,
    he ▸ hw⟩
  show runSteps step s (a :: as) = _
  simp only [runSteps, h, Option.some_bind]
  exact hx

/-- The loop blocked in `_cv.wait`, or between its test of `_running` and `_cv.wait` with
`_tasks` empty. -/
def Parked (s : State D R E) : Prop :=
  s.loopPc = some .wait ∨ (s.loopPc = some .lock ∧ s.tasks = [])

/-- Only `notify()`, `stop()` and a spurious wakeup move a parked loop: a `run()` call blocks in
`join()` on its thread. -/
theorem Parked.step (hp : s.Parked) (ha : (∀ d, a ≠ .notify d) ∧ a ≠ .stop ∧ a ≠ .spurious)
    (h : s.step a = some s') : s'.Parked := by
  have hpc : s.loopPc = some .wait ∨ s.loopPc = some .lock := hp.imp id And.left
  rcases step_cases h with ⟨-, rfl⟩ | ⟨i, c, -, hc, rfl⟩ | ⟨d, rfl, -⟩ | ⟨rfl, -⟩ |
    ⟨pc, -, hpc', hd⟩ | ⟨rfl, -, -⟩ | ⟨t, r, -, hpc', -⟩
  · exact hp
  · rcases Core.call_cases hc with ⟨-, rfl⟩ | ⟨-, rfl⟩ | ⟨-, hb, rfl⟩ | ⟨-, ht, rfl⟩ | ⟨-, -, rfl⟩
    · exact hp
    · exact hp
    · rcases hpc with hpc | hpc <;> simp [busy_of_loopPc hpc rfl] at hb
    · rcases hpc with hpc | hpc <;> simp [t_of_loopPc hpc] at ht
    · exact hp
  · exact absurd rfl (ha.1 d)
  · exact absurd rfl ha.2.1
  · rcases hp with hp | ⟨hp, hq⟩ <;> rw [hp] at hpc' <;> cases hpc' <;> cases hd
    exact .inl (by simp [hq])
  · exact absurd rfl ha.2.2
  · rcases hpc with hpc | hpc <;> rw [hpc] at hpc' <;> cases hpc'

/-- Once `_running` is clear after the only `run()` call stored it, and without spurious
wakeups, the worker's own threads finish the thread `run()` started, setting the future it
returned, within three steps, unless the loop is parked. -/
theorem stop_ends_thread (h : ReflTransGen (NextExcept .spurious) init s)
    (hone : s.calls.length ≤ 1) (hs : s.toCore.HasStored) (hr : s.running = false)
    (hab : s.aborted = false) (hp : ¬s.Parked) (v : R) :
    ∃ as : List (Action D R E), as.length ≤ 3 ∧
      (∀ a ∈ as, a = .call 0 ∨ a = .loop ∨ a = .work (.ok v)) ∧
      ∃ s', s.exec as = some s' ∧ s'.loopPc = some .done := by
  have hn := NextExcept.next h
  have hi := reachable_inv hn
  cases hpc : s.loopPc with
  | none =>
    have hso := (reachable_oneRun hn hone).solo
    obtain ⟨j, x, hj, hx⟩ := hs
    obtain ⟨rfl, hc⟩ := Core.eq_singleton_of_getElem? hj hone
    rw [Core.Solo, hc] at hso
    cases x with
    | create => exact ⟨[.call 0, .call 0, .loop], by simp, by simp, by
        simp [exec, runSteps, step, hab, live, Core.call, hc, Core.busy, hso, loopPc, dispatch,
          hr]⟩
    | start => exact ⟨[.call 0, .loop], by simp, by simp, by
        simp [exec, runSteps, step, hab, live, Core.call, hc, hso, loopPc, dispatch, hr]⟩
    | returned => obtain ⟨pc, ht⟩ := hso; simp [loopPc, ht] at hpc
    | _ => cases hx
  | some pc =>
    cases pc with
    | head => exact ⟨[.loop], by simp, by simp, by
        simp [exec, runSteps, step, hab, live, hpc, dispatch, hr]⟩
    | lock =>
      have hq : s.tasks ≠ [] := fun hq => hp (.inr ⟨hpc, hq⟩)
      exact ⟨[.loop], by simp, by simp, by
        simp [exec, runSteps, step, hab, live, hpc, dispatch, hq, dequeue, hr]⟩
    | wait => exact absurd (.inl hpc) hp
    | wake => exact ⟨[.loop], by simp, by simp, by
        simp [exec, runSteps, step, hab, live, hpc, dispatch, dequeue, hr]⟩
    | work t =>
      have hp' : s.promises[t.id]? = some .pending := by
        simpa using ((hi.step (show s.step (.work (.ok v)) = some (s.work t (.ok v)) by
          simp [step, hab, live, hpc])).fulfilling t v rfl).2.2
      exact ⟨[.work (.ok v), .loop, .loop], by simp, by simp, by
        simp [exec, runSteps, step, hab, live, hpc, dispatch, fulfil, hp', hr, State.work]⟩
    | fulfil t w =>
      exact ⟨[.loop, .loop], by simp, by simp, by
        simp [exec, runSteps, step, hab, live, hpc, dispatch, fulfil,
          (hi.fulfilling t w hpc).2.2, hr]⟩
    | done => exact ⟨[], by simp, by simp, s, rfl, hpc⟩
    | raised e => simp [raised_aborted hn hpc] at hab
    | fault => exact absurd hpc ((Signalled.of_idle (s := init) rfl).run h hone).no_fault

/-- One `run()`, then `stop()` before the loop's next test. -/
def stoppedAtHead : State Nat Nat Unit :=
  ⟨⟨false, some (.started .head), [.returned], false⟩, [], [], [], [], []⟩

theorem stop_ends_thread_stoppedAtHead :
    ∃ as : List (Action Nat Nat Unit), as.length ≤ 3 ∧
      (∀ a ∈ as, a = .call 0 ∨ a = .loop ∨ a = .work (.ok 0)) ∧
      ∃ s', stoppedAtHead.exec as = some s' ∧ s'.loopPc = some .done :=
  stop_ends_thread (exec_reaches_except (show init.exec [.run, .call 0, .call 0, .call 0, .call 0,
    .stop] = some stoppedAtHead from rfl) (by simp)) (by decide) ⟨0, .returned, rfl, rfl⟩ rfl rfl
    (by simp [Parked, stoppedAtHead, loopPc]) 0

end Common.ActiveRunnable.State
