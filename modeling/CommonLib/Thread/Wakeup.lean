import CommonLib.Thread.Shutdown

/-!
# `_cv.wait` behind a single `if`

The dispatch loop tests `_running` before taking `_notifyLock` (Runnable.hpp:258), waits with
`if(_tasks.empty()) _cv.wait(lock);` (:261) and reads `_tasks[0]` as soon as `_cv.wait` has
returned and `_running` is still set (:262-266), without testing `_tasks` again.

* A return from `_cv.wait` that no `notify()` caused, while `_running` is set, reads
  `_tasks[0]` of an empty vector (`spurious_wakeup_faults`); so does a wakeup by `stop()` that
  a new `run()` overtakes by setting the flag again.
* Without spurious wakeups and with one `run()` call the read is always on a non-empty vector
  (`Signalled`, `no_fault`): those two are the only ways to the fault.
* A `stop()` whose critical section falls between the loop's unlocked test of `_running` and
  its taking `_notifyLock` finds no waiter to notify, and the loop then blocks with `_running`
  clear (`stop_lost`).
-/

namespace Common.ActiveRunnable.State

open Thread Relation

variable {D R E : Type} {s s' : State D R E} {a : Action D R E}

/-! ## Reading `_tasks[0]` of an empty vector -/

/-- A return from `_cv.wait` that no `notify()` caused finds `_tasks` empty: with `_running`
set, the loop's next step reads `_tasks[0]`. -/
theorem spurious_wakeup_faults (h : Reachable s) (hr : s.running = true)
    (h₁ : s.step .spurious = some s') : s'.step .loop = some (s.setPc .fault) := by
  obtain ⟨hab, hw, rfl⟩ := step_spurious h₁
  have hq : s.tasks = [] := (reachable_inv h).waits_empty hw
  simp [step, live, dispatch, dequeue, hab, hr, hq]

/-- Both ways to the fault, from a new `ActiveRunnable`: a spurious wakeup of the parked loop,
and `stop()` waking the loop while a second `run()` sets `_running` again. -/
theorem empty_tasks_read :
    (∃ s : State Nat Nat Unit, init.exec [.run, .call 0, .call 0, .call 0, .call 0, .loop, .loop,
      .spurious, .loop] = some s ∧ s.loopPc = some .fault) ∧
    (∃ s : State Nat Nat Unit, init.exec [.run, .call 0, .call 0, .call 0, .call 0, .loop, .loop,
      .stop, .run, .call 1, .call 1, .loop] = some s ∧ s.loopPc = some .fault) :=
  ⟨⟨_, rfl, rfl⟩, ⟨_, rfl, rfl⟩⟩

/-! ## Without spurious wakeups, one `run()` -/

/-- What holds while every wakeup comes from `notify()` or `stop()` and `run()` is called once:
the loop is woken only with a task queued or the flag clear, and the thread exists only once
the call has stored the flag. -/
structure Signalled (s : State D R E) : Prop where
  wake : s.loopPc = some .wake → s.tasks ≠ [] ∨ s.running = false
  no_fault : s.loopPc ≠ some .fault
  stored : s.loopPc ≠ none → s.toCore.AllStored
  nonempty : s.loopPc ≠ none → s.calls ≠ []

/-- Before the thread exists there is nothing to check. -/
theorem Signalled.of_idle (h : s.loopPc = none) : s.Signalled :=
  ⟨fun h' => by simp [h] at h', by simp [h], fun h' => absurd h h', fun h' => absurd h h'⟩

/-- `notify()` and `stop()`: the calls are kept, and `_cv.notify_one()` wakes the loop with a
task queued or the flag clear. -/
theorem Signalled.of_wakeup (hs : s.Signalled) (hc : s'.calls = s.calls)
    (hpc : s'.loopPc = if s.waiting then some .wake else s.loopPc)
    (hw : s'.tasks ≠ [] ∨ s'.running = false) : s'.Signalled := by
  have hn : s'.loopPc ≠ none → s.loopPc ≠ none := fun h => by
    rw [hpc] at h; split at h
    · rw [waiting_loopPc ‹_›]; simp
    · exact h
  refine ⟨fun _ => hw, ?_, fun h j x => hc ▸ hs.stored (hn h) j x, fun h => hc ▸ hs.nonempty (hn h)⟩
  rw [hpc]; split
  · simp
  · exact hs.no_fault

/-- A step that keeps the calls and neither wakes nor faults the loop keeps `Signalled`. -/
theorem Signalled.frame (hs : s.Signalled) (hc : s'.calls = s.calls)
    (hpc : s'.loopPc ≠ none → s.loopPc ≠ none)
    (hw : s'.loopPc ≠ some .wake) (hf : s'.loopPc ≠ some .fault) : s'.Signalled :=
  ⟨fun h => absurd h hw, hf, fun h j x => hc ▸ hs.stored (hpc h) j x,
    fun h => hc ▸ hs.nonempty (hpc h)⟩

/-- The dispatch thread's own steps never wake it, and fault only on a wakeup with `_tasks`
empty and `_running` set. -/
theorem dispatch_signalled {pc : Pc D R E} (hpc : s.loopPc = some pc)
    (hw : pc = .wake → s.tasks ≠ [] ∨ s.running = false) (hd : s.dispatch pc = some s') :
    s'.loopPc ≠ some .wake ∧ s'.loopPc ≠ some .fault := by
  have hdeq (h : s.tasks ≠ [] ∨ s.running = false) :
      s.dequeue.loopPc ≠ some .wake ∧ s.dequeue.loopPc ≠ some .fault := by
    unfold dequeue
    split
    · split
      · simp_all
      · simp
    · simp
  cases pc with
  | head => cases hd; split <;> simp
  | lock =>
    cases hd
    split
    · simp
    · exact hdeq (.inl fun h => by simp_all)
  | wake => cases hd; exact hdeq (hw rfl)
  | fulfil t r =>
    cases hd
    rcases fulfil_loopPc s t r with h | h <;> rw [h] <;> simp [hpc]
  | _ => cases hd

/-- Every step but a spurious wakeup keeps `Signalled` while there is at most one `run()`
call. -/
theorem Signalled.step (hs : s.Signalled) (ha : a ≠ .spurious) (h : s.step a = some s')
    (hone : s'.calls.length ≤ 1) : s'.Signalled := by
  rcases step_cases h with ⟨-, rfl⟩ | ⟨i, c, -, hc, rfl⟩ | ⟨d, -, rfl⟩ | ⟨-, rfl⟩ |
    ⟨pc, -, hpc, hd⟩ | ⟨rfl, -, -⟩ | ⟨t, r, -, hpc, rfl⟩
  · -- `run()`: the first call, made before the thread exists
    exact .of_idle (by_contra fun hn => hs.nonempty hn (Core.calls_nil_of_run hone))
  · have hone' : c.calls.length ≤ 1 := hone
    rcases Core.call_cases hc with ⟨hi, rfl⟩ | ⟨hi, rfl⟩ | ⟨-, -, rfl⟩ | ⟨hi, -, hc'⟩ |
      ⟨-, -, rfl⟩
    · -- the load of `_running`, before the thread exists
      exact .of_idle (by_contra fun hn => by cases hs.stored hn i _ hi)
    · -- the store, before the thread exists
      exact .of_idle (by_contra fun hn => by cases hs.stored hn i _ hi)
    · exact .of_idle rfl
    · -- `start`: the thread begins at the loop head, and the only call has returned
      have hs' : c.HasStored := ⟨i, .returned, by simp [hc', List.getElem?_set', hi], rfl⟩
      subst hc'
      exact ⟨fun h => (by cases h), fun h => (by cases h), fun _ => hs'.allStored hone',
        fun _ => hs'.nonempty⟩
    · exact ⟨hs.wake, hs.no_fault, hs.stored, hs.nonempty⟩
  · exact hs.of_wakeup rfl (notify_loopPc s d) (.inl (by simp))
  · exact hs.of_wakeup rfl (stop_loopPc s) (.inr rfl)
  · obtain ⟨hw, hf⟩ := dispatch_signalled hpc (fun h => hs.wake (h ▸ hpc)) hd
    exact hs.frame (dispatch_core hd).2 (fun _ => by simp [hpc]) hw hf
  · exact absurd rfl ha
  · cases r <;> exact hs.frame rfl (fun _ => by simp [hpc]) (by simp [State.work])
      (by simp [State.work])

theorem Signalled.run (hs : s.Signalled) (h : ReflTransGen (NextExcept .spurious) s s')
    (hone : s'.calls.length ≤ 1) : s'.Signalled := by
  induction h with
  | refl => exact hs
  | tail _ huv ih =>
    obtain ⟨a, ha, hst⟩ := huv
    exact (ih (Nat.le_trans (step_core hst).calls_length hone)).step ha hst hone

/-- Without spurious wakeups and with `run()` called once, the loop reads `_tasks[0]` only of a
non-empty `_tasks`, whatever the producers and `stop()` do. -/
theorem no_fault (h : ReflTransGen (NextExcept .spurious) init s) (hone : s.calls.length ≤ 1) :
    s.loopPc ≠ some .fault :=
  ((Signalled.of_idle (s := init) rfl).run h hone).no_fault

theorem no_fault_afterStop :
    (⟨⟨false, some (.started .done), [.returned], false⟩, [], [.value 6], [⟨0, 5⟩], [⟨0, 5⟩],
      [(⟨0, 5⟩, .ok 6)]⟩ : State Nat Nat Unit).loopPc ≠ some .fault :=
  no_fault (exec_reaches_except (show init.exec [.run, .call 0, .call 0, .call 0, .call 0,
    .notify 5, .loop, .loop, .stop, .work (.ok 6), .loop, .loop] = some _ from rfl)
    (by simp)) (by decide)

/-! ## A lost `stop()` -/

/-- `stop()` between the loop's unlocked test of `_running` and its taking `_notifyLock`: no
thread waits, so `notify_one` wakes nobody, and the loop then blocks on an empty `_tasks` with
the flag clear. -/
theorem stop_lost (hab : s.aborted = false) (hpc : s.loopPc = some .lock) (hq : s.tasks = []) :
    ∃ s', s.exec [.stop, .loop] = some s' ∧ s'.waiting = true ∧ s'.running = false := by
  have hw : s.waiting = false := by simp [waiting, hpc]
  refine ⟨s.stop.setPc .wait, ?_, rfl, rfl⟩
  simp [exec, runSteps, step, live, hab, stop_loopPc, hw, hpc, dispatch, hq]

/-- From a new `ActiveRunnable` and one `run()`: the loop passes its test of `_running`,
`stop()` runs, and the loop blocks with the flag clear. -/
theorem stop_lost_after_run :
    ∃ s : State Nat Nat Unit, init.exec [.run, .call 0, .call 0, .call 0, .call 0, .loop, .stop,
      .loop] = some s ∧ s.waiting = true ∧ s.running = false :=
  ⟨_, rfl, rfl, rfl⟩

end Common.ActiveRunnable.State
