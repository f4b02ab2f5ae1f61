import CommonLib.Thread.Wakeup

/-!
# `run()` after `stop()`

`run()` guards itself with `if(_running.load()) throw AlreadyRunningException();` and then
`_running.store(true);` (Runnable.hpp:70-71 and :251-252), two separate accesses to a flag that
`stop()` clears:

* two calls that both load the flag before either stores it both pass the guard, and a call
  made after `stop()` passes it too (`rerun_returns`): the guard cannot tell a stopped worker
  from a new one;
* such a call stores the flag before `_t = Thread::create()` runs the old handle's deleter,
  whose `join()` waits for the old loop; a loop that has not yet read the cleared flag reads it
  set again and never leaves, so the call never returns until another `stop()` (`Joining`,
  `join_hangs`).

The other place the deleter joins is the worker's destruction, which calls no `stop()` either:
`Teardown` models it.
-/

namespace Common.ActiveRunnable.State

open Thread Relation

variable {D R E : Type} {s s' : State D R E} {a : Action D R E} {i : Nat}

/-! ## The guard -/

/-- The guard reads `_running` alone: with the flag clear, the old thread returned and the
process alive, a new `run()` call passes it, replaces `_t` and starts a second thread. -/
theorem rerun_returns (hab : s.aborted = false) (hr : s.running = false)
    (hb : s.toCore.busy Pc.finished = false) :
    s.exec (.run :: List.replicate 4 (.call s.calls.length)) =
      some { s with running := true, t := some (.started .head), calls := s.calls ++ [.returned] } := by
  simp only [Core.busy] at hb
  simp [exec, runSteps, List.replicate, step, live, hab, Core.call, hr, Core.busy, hb]

/-- Two `run()` calls on one `ActiveRunnable`, each returning normally: one after `stop()` and
the loop's exit, and two racing ones that both pass the guard, the second then starting the
`Thread` the first has already started. -/
theorem run_passes_guard_twice :
    (∃ s : State Nat Nat Unit, init.exec [.run, .call 0, .call 0, .call 0, .call 0, .stop, .loop,
      .run, .call 1, .call 1, .call 1, .call 1] = some s ∧ s.calls = [.returned, .returned]) ∧
    (∃ s : State Nat Nat Unit, init.exec [.run, .run, .call 0, .call 1, .call 0, .call 1, .call 0,
      .call 1, .call 0, .call 1] = some s ∧ s.calls = [.returned, .start] ∧ s.aborted = true) :=
  ⟨⟨_, rfl, rfl⟩, ⟨_, rfl, rfl, rfl⟩⟩

/-! ## `join()` with the flag set -/

/-- The `i`-th `run()` call is in the deleter's `join()`, the thread it joins has not
returned, and `_running` is set. -/
structure Joining (i : Nat) (s : State D R E) : Prop where
  create : s.calls[i]? = some .create
  running : s.running = true
  busy : s.toCore.busy Pc.finished = true

theorem busy_of_loopPc {pc : Pc D R E} (h : s.loopPc = some pc) (hf : pc.finished = false) :
    s.toCore.busy Pc.finished = true := by
  simp [busy_eq, h, hf]

/-- With `_running` set, the dispatch thread's own steps never return from its body. -/
theorem dispatch_busy (hr : s.running = true) {pc : Pc D R E} (hpc : s.loopPc = some pc)
    (hd : s.dispatch pc = some s') : s'.toCore.busy Pc.finished = true := by
  cases pc with
  | head => cases hd; simp [busy_eq, hr, Pc.finished]
  | lock =>
    cases hd
    split
    · rfl
    · simp [dequeue, hr]; split <;> rfl
  | wake => cases hd; simp [dequeue, hr]; split <;> rfl
  | fulfil t r =>
    cases hd
    rcases fulfil_loopPc s t r with h | h
    · exact busy_of_loopPc h rfl
    · exact busy_of_loopPc (h.trans hpc) rfl
  | _ => cases hd

/-- Every step but `stop()` keeps a `run()` call in `join()`: no other step clears the flag,
and the thread it joins leaves its loop only on reading the flag clear. -/
theorem Joining.step (hj : Joining i s) (ha : a ≠ .stop) (h : s.step a = some s') :
    Joining i s' := by
  rcases step_cases h with ⟨-, rfl⟩ | ⟨j, c, -, hc, rfl⟩ | ⟨d, -, rfl⟩ | ⟨rfl, -⟩ |
    ⟨pc, -, hpc, hd⟩ | ⟨-, -, rfl⟩ | ⟨t, r, -, hpc, rfl⟩
  · refine ⟨?_, hj.running, hj.busy⟩
    rw [List.getElem?_append_left (List.getElem?_eq_some_iff.mp hj.create).1]
    exact hj.create
  · have hne (x : Call) (hx : s.calls[j]? = some x) (hxc : x ≠ .create) : j ≠ i := by
      rintro rfl; exact hxc (Option.some.inj (hx.symm.trans hj.create))
    rcases Core.call_cases hc with ⟨hi, rfl⟩ | ⟨hi, rfl⟩ | ⟨-, hb, rfl⟩ | ⟨-, ht, rfl⟩ |
      ⟨-, -, rfl⟩
    · exact ⟨(List.getElem?_set_ne (hne _ hi (by decide))).trans hj.create, hj.running, hj.busy⟩
    · exact ⟨(List.getElem?_set_ne (hne _ hi (by decide))).trans hj.create, rfl, hj.busy⟩
    · cases hj.busy.symm.trans hb
    · have := hj.busy; simp [Core.busy, ht] at this
    · exact ⟨hj.create, hj.running, hj.busy⟩
  · refine ⟨hj.create, hj.running, ?_⟩
    rw [busy_eq, notify_loopPc]
    split
    · rfl
    · rw [← busy_eq]; exact hj.busy
  · exact absurd rfl ha
  · obtain ⟨h1, h2⟩ := dispatch_core hd
    exact ⟨h2 ▸ hj.create, h1 ▸ hj.running, dispatch_busy hj.running hpc hd⟩
  · exact ⟨hj.create, hj.running, rfl⟩
  · cases r <;> exact ⟨hj.create, hj.running, rfl⟩

/-- While nobody calls `stop()`, a `run()` call in `join()` stays there with `_running` set:
the thread it joins never leaves its loop. -/
theorem join_hangs (h : ReflTransGen (NextExcept .stop) s s') (hj : Joining i s) :
    Joining i s' := by
  induction h with
  | refl => exact hj
  | tail _ huv ih => obtain ⟨a, ha, hst⟩ := huv; exact ih.step ha hst

/-- `stop()` before the loop has read the flag, then `run()` again: the new call sets the flag
and joins the old loop, which reads it set and goes on; whatever follows short of another
`stop()`, the call never leaves `join()`. -/
theorem rerun_joins_running_loop :
    ∃ s : State Nat Nat Unit, init.exec [.run, .call 0, .call 0, .call 0, .call 0, .stop, .run,
      .call 1, .call 1] = some s ∧
      ∀ s', ReflTransGen (NextExcept .stop) s s' → s'.calls[1]? = some .create ∧ s'.running = true :=
  ⟨_, rfl, fun _ h => have hj := join_hangs (i := 1) h ⟨rfl, rfl, rfl⟩; ⟨hj.create, hj.running⟩⟩

end Common.ActiveRunnable.State
