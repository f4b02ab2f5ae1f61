import CommonLib.Thread.ActiveRunnable

/-!
# The dispatch loop: order, promises and wakeups

`State.Inv` holds in every reachable state of an `ActiveRunnable`, whatever the number of
producers and the interleaving, spurious wakeups and repeated `run()`/`stop()` included.
Over repeated `run()` calls the model has one dispatch thread at a time, as the source has on
its race-free executions (`Core.call`); a second `run()` racing the deleter's `join()` starts a
second one in the source, which these results do not cover:

* `_tasks` is what `notify()` appended less what the loop removed from its front, and the
  `k`-th task appended carries the `k`-th promise;
* the loop hands the tasks it removes to `__work` in the order it removed them;
* a promise holds a value only once `__work` has returned it on that promise's task, no
  promise ever holds an exception, and `set_value` only meets pending promises;
* the dispatch thread blocks in `_cv.wait` only while `_tasks` is empty.

`dispatch_fifo` and `wait_only_when_empty` read the contract of `notify()` and the
no-lost-notification property off it. The same invariant says what an exception from
`__work` leaves behind: nothing catches it, the process ends, and the promises of the task it
was raised on and of every task still queued stay pending (`work_raise_stalls`).
-/

namespace Common.ActiveRunnable.State

open Thread

variable {D R E : Type} {s s' : State D R E}

/-! ## List facts -/

theorem getElem?_concat_some {α : Type} {l : List α} {a x : α} {k : Nat}
    (h : (l ++ [a])[k]? = some x) : l[k]? = some x ∨ (k = l.length ∧ a = x) := by
  rw [List.getElem?_append] at h
  split at h
  · exact .inl h
  · rename_i hk
    have hk' : k - l.length = 0 := by
      have := (List.getElem?_eq_some_iff.mp h).1
      simp at this; omega
    rw [hk'] at h
    exact .inr ⟨by omega, by simpa using h⟩

theorem prefix_getElem? {α : Type} {l₁ l₂ : List α} {k : Nat} {x : α} (h : l₁ <+: l₂)
    (hk : l₁[k]? = some x) : l₂[k]? = some x := by
  obtain ⟨u, rfl⟩ := h
  rwa [List.getElem?_append_left (List.getElem?_eq_some_iff.mp hk).1]

/-! ## The invariant -/

/-- What every reachable state satisfies. -/
structure Inv (s : State D R E) : Prop where
  queue : s.popped ++ s.tasks = s.pushed
  ids : ∀ (k : Nat) (t : Task D), s.pushed[k]? = some t → t.id = k
  promises_length : s.promises.length = s.pushed.length
  dispatched : s.popped = s.worked.map Prod.fst ++ s.held
  unworked : ∀ (k : Nat) (p : Promise R E), s.worked.length ≤ k → s.promises[k]? = some p → p = .pending
  settled : ∀ (k : Nat) (v : R), s.promises[k]? = some (.value v) → ∃ t, s.worked[k]? = some (t, .ok v)
  no_error : ∀ (k : Nat) (e : E), s.promises[k]? ≠ some (.error e)
  fulfilling : ∀ (t : Task D) (v : R), s.loopPc = some (.fulfil t v) →
    t.id + 1 = s.worked.length ∧ s.worked[t.id]? = some (t, .ok v) ∧
      s.promises[t.id]? = some .pending
  waits_empty : s.waiting = true → s.tasks = []

theorem Inv.init : (init : State D R E).Inv :=
  ⟨rfl, by simp [State.init], rfl, rfl, by simp [State.init], by simp [State.init],
    by simp [State.init],
    fun _ _ h => (by cases h), fun _ => rfl⟩

/-- The task the loop holds is the next one `__work` gets. -/
theorem Inv.held_id (hi : s.Inv) {t : Task D} (h : s.held = [t]) : t.id = s.worked.length := by
  have hq := hi.queue
  rw [hi.dispatched, h, List.append_assoc] at hq
  apply hi.ids
  rw [← hq, List.getElem?_append_right (by simp)]
  simp

theorem Inv.length_le (hi : s.Inv) : s.worked.length + s.held.length ≤ s.promises.length := by
  have h1 := congrArg List.length hi.queue
  have h2 := congrArg List.length hi.dispatched
  simp only [List.length_append, List.length_map] at h1 h2
  rw [hi.promises_length]; omega

/-- The invariant reads `_tasks`, the promises, the histories and the dispatch thread's place. -/
theorem Inv.frame (hi : s.Inv) (htasks : s'.tasks = s.tasks) (hprom : s'.promises = s.promises)
    (hpushed : s'.pushed = s.pushed) (hpopped : s'.popped = s.popped)
    (hworked : s'.worked = s.worked) (hheld : s'.held = s.held)
    (hful : ∀ (t : Task D) (v : R), s'.loopPc = some (.fulfil t v) → s.loopPc = some (.fulfil t v))
    (hwait : s'.waiting = true → s'.tasks = []) : s'.Inv := by
  obtain ⟨h1, h2, h3, h4, h5, h6, h7, h8, -⟩ := hi
  refine ⟨?_, ?_, ?_, ?_, ?_, ?_, ?_, fun t v h => ?_, hwait⟩ <;>
    simp only [htasks, hprom, hpushed, hpopped, hworked, hheld] <;> try assumption
  exact h8 t v (hful t v h)

theorem Inv.notify (hi : s.Inv) (d : D) : (s.notify d).Inv := by
  have hlen := hi.promises_length
  refine ⟨?_, fun k t h => ?_, by simp [hlen], by simpa using hi.dispatched,
    fun k p hk h => ?_, fun k v h => ?_, fun k e h => ?_, fun t v h => ?_, fun h => by simp at h⟩
  · simp [← hi.queue]
  · rcases getElem?_concat_some (by simpa using h) with h | ⟨rfl, rfl⟩
    · exact hi.ids k t h
    · exact hlen
  · rcases getElem?_concat_some (by simpa using h) with h | ⟨rfl, rfl⟩
    · exact hi.unworked k p (by simpa using hk) h
    · rfl
  · rcases getElem?_concat_some (by simpa using h) with h | ⟨-, h⟩
    · exact hi.settled k v h
    · cases h
  · rcases getElem?_concat_some (by simpa using h) with h | ⟨-, h⟩
    · exact hi.no_error k e h
    · cases h
  · rw [notify_loopPc] at h
    split at h
    · cases h
    · obtain ⟨h1, h2, h3⟩ := hi.fulfilling t v h
      refine ⟨h1, h2, ?_⟩
      simpa [List.getElem?_append_left (List.getElem?_eq_some_iff.mp h3).1] using h3

theorem Inv.notifyOne (hi : s.Inv) : s.notifyOne.Inv := by
  refine hi.frame rfl rfl rfl rfl rfl (notifyOne_held s) (fun t v h => ?_) (by simp)
  rw [notifyOne_loopPc] at h
  split at h
  · cases h
  · exact h

theorem Inv.stop (hi : s.Inv) : s.stop.Inv :=
  Inv.notifyOne (s := { s with running := false })
    (hi.frame rfl rfl rfl rfl rfl rfl (fun _ _ h => h) hi.waits_empty)

/-- Moving the dispatch thread between places where it holds no task. -/
theorem Inv.setPc (hi : s.Inv) (hh : s.held = []) {pc : Pc D R E} (hp : (s.setPc pc).held = [])
    (hf : ∀ t v, pc ≠ .fulfil t v) (hw : (s.setPc pc).waiting = true → s.tasks = []) :
    (s.setPc pc).Inv :=
  hi.frame rfl rfl rfl rfl rfl (by rw [hp, hh]) (fun t v h => absurd (Option.some.inj h) (hf t v)) hw

theorem Inv.dequeue (hi : s.Inv) (hh : s.held = []) : s.dequeue.Inv := by
  unfold State.dequeue
  split
  · split
    · exact hi.setPc hh rfl (fun _ _ h => by cases h) (fun h => by cases h)
    · rename_i t rest htasks
      refine ⟨?_, hi.ids, hi.promises_length, ?_, hi.unworked, hi.settled, hi.no_error,
        fun _ _ h => (by cases h), fun h => by cases h⟩
      · simp [← hi.queue, htasks]
      · simpa [hh] using congrArg (· ++ [t]) hi.dispatched
  · exact hi.setPc hh rfl (fun _ _ h => by cases h) (fun h => by cases h)

theorem Inv.fulfil (hi : s.Inv) {t : Task D} {r : R} (hpc : s.loopPc = some (.fulfil t r)) :
    (s.fulfil t r).Inv := by
  obtain ⟨h1, h2, h3⟩ := hi.fulfilling t r hpc
  have hh : s.held = [] := by simp [held, hpc]
  have hlt := (List.getElem?_eq_some_iff.mp h3).1
  unfold State.fulfil
  split
  · refine ⟨hi.queue, hi.ids, by simp [hi.promises_length], by simp [hi.dispatched, hh],
      fun k p hk h => ?_, fun k v h => ?_, fun k e h => ?_, fun _ _ h => (by cases h),
      fun h => (by cases h)⟩
    · rw [setPc_promises, List.getElem?_set_ne (by simp at hk; omega)] at h
      exact hi.unworked k p (by simpa using hk) h
    · by_cases hk : t.id = k
      · subst hk
        rw [setPc_promises, List.getElem?_set_self hlt] at h
        cases h
        exact ⟨t, h2⟩
      · rw [setPc_promises, List.getElem?_set_ne hk] at h
        exact hi.settled k v h
    · by_cases hk : t.id = k
      · subst hk
        rw [setPc_promises, List.getElem?_set_self hlt] at h
        cases h
      · rw [setPc_promises, List.getElem?_set_ne hk] at h
        exact hi.no_error k e h
  · exact hi.frame rfl rfl rfl rfl rfl rfl (fun _ _ h => h) hi.waits_empty

theorem Inv.work (hi : s.Inv) {t : Task D} (hpc : s.loopPc = some (.work t)) (r : Except E R) :
    (s.work t r).Inv := by
  have hh : s.held = [t] := by simp [held, hpc]
  have hid := hi.held_id hh
  have hlen := hi.length_le
  rw [hh, List.length_singleton] at hlen
  have hset : ∀ (k : Nat) (v : R), s.promises[k]? = some (.value v) →
      ∃ t', (s.worked ++ [(t, r)])[k]? = some (t', .ok v) := fun k v h => by
    obtain ⟨t', h'⟩ := hi.settled k v h
    exact ⟨t', by rwa [List.getElem?_append_left (List.getElem?_eq_some_iff.mp h').1]⟩
  have hdis : s.popped = (s.worked ++ [(t, r)]).map Prod.fst := by simp [hi.dispatched, hh]
  cases r with
  | ok v =>
    refine ⟨hi.queue, hi.ids, hi.promises_length, by simpa [State.work] using hdis,
      fun k p hk h => hi.unworked k p (by simp [State.work] at hk; omega) h,
      by simpa [State.work] using hset, hi.no_error, fun t' v' h => ?_, fun h => (by cases h)⟩
    simp only [State.work, setPc_loopPc, Option.some.injEq, Pc.fulfil.injEq] at h
    obtain ⟨rfl, rfl⟩ := h
    obtain ⟨p, hp⟩ : ∃ p, s.promises[t.id]? = some p := ⟨_, List.getElem?_eq_getElem (by omega)⟩
    obtain rfl := hi.unworked _ p (by omega) hp
    refine ⟨by simp [State.work, hid], ?_, hp⟩
    simp [State.work, hid, List.getElem?_concat_length]
  | error e =>
    exact ⟨hi.queue, hi.ids, hi.promises_length, by simpa [State.work] using hdis,
      fun k p hk h => hi.unworked k p (by simp [State.work] at hk; omega) h,
      by simpa [State.work] using hset, hi.no_error, fun _ _ h => (by cases h), fun h => (by cases h)⟩

theorem Inv.call (hi : s.Inv) {c : Core (Pc D R E)} {i : Nat}
    (h : s.toCore.call .head Pc.finished i = some c) : ({ s with toCore := c } : State D R E).Inv := by
  rcases Core.call_cases h with ⟨-, rfl⟩ | ⟨-, rfl⟩ | ⟨-, hb, rfl⟩ | ⟨-, ht, rfl⟩ | ⟨-, -, rfl⟩
  · exact hi.frame rfl rfl rfl rfl rfl rfl (fun _ _ h => h) hi.waits_empty
  · exact hi.frame rfl rfl rfl rfl rfl rfl (fun _ _ h => h) hi.waits_empty
  · exact hi.frame rfl rfl rfl rfl rfl (held_of_not_busy hb).symm (fun _ _ h => (by cases h))
      (fun h => (by cases h))
  · exact hi.frame rfl rfl rfl rfl rfl (by simp [held, loopPc, ht]) (fun _ _ h => (by cases h))
      (fun h => (by cases h))
  · exact hi.frame rfl rfl rfl rfl rfl rfl (fun _ _ h => h) hi.waits_empty

theorem Inv.dispatch (hi : s.Inv) {pc : Pc D R E} (hpc : s.loopPc = some pc)
    (h : s.dispatch pc = some s') : s'.Inv := by
  have hh := held_of_loopPc hpc
  cases pc with
  | head =>
    cases h
    exact hi.setPc (hh fun _ h => (by cases h)) (by split <;> rfl) (by split <;> simp)
      (by split <;> simp [waiting, loopPc])
  | lock =>
    cases h
    split
    · rename_i he
      exact hi.setPc (hh fun _ h => (by cases h)) rfl (by simp) (fun _ => by simpa using he)
    · exact hi.dequeue (hh fun _ h => (by cases h))
  | wake => cases h; exact hi.dequeue (hh fun _ h => (by cases h))
  | fulfil t r => cases h; exact hi.fulfil hpc
  | _ => cases h

theorem Inv.step (hi : s.Inv) {a : Action D R E} (h : s.step a = some s') : s'.Inv := by
  rcases step_cases h with ⟨-, rfl⟩ | ⟨i, c, -, hc, rfl⟩ | ⟨d, -, rfl⟩ | ⟨-, rfl⟩ |
    ⟨pc, -, hpc, hd⟩ | ⟨-, hw, rfl⟩ | ⟨t, r, -, hpc, rfl⟩
  · exact hi.frame rfl rfl rfl rfl rfl rfl (fun _ _ h => h) hi.waits_empty
  · exact hi.call hc
  · exact hi.notify d
  · exact hi.stop
  · exact hi.dispatch hpc hd
  · exact hi.setPc (held_of_waiting hw) rfl (fun _ _ h => (by cases h)) (fun h => (by cases h))
  · exact hi.work hpc r

theorem reachable_inv (h : Reachable s) : s.Inv := by
  induction h with
  | refl => exact Inv.init
  | tail _ hs ih => obtain ⟨a, ha⟩ := hs; exact ih.step ha

/-! ## The contract of `notify()` -/

/-- Over every interleaving of `notify()` calls from any number of producers with the dispatch
loop: the tasks the loop removes are, in order, a prefix of the tasks `notify()` appended, the
`k`-th removal being the `k`-th task appended, so none is removed twice and each producer's
tasks leave in the order it appended them; `__work` gets them in removal order; the `k`-th
promise holds a value only once the `k`-th task has been removed and the `k`-th `__work` call
has returned that value on it; and `set_value` only meets a pending promise. -/
theorem dispatch_fifo (h : Reachable s) :
    s.popped <+: s.pushed ∧ s.popped.map Task.id = List.range s.popped.length ∧
    s.worked.map Prod.fst <+: s.popped ∧
    (∀ (k : Nat) (v : R), s.promises[k]? = some (.value v) →
      ∃ t, s.pushed[k]? = some t ∧ s.popped[k]? = some t ∧ s.worked[k]? = some (t, .ok v)) ∧
    (∀ t v, s.loopPc = some (.fulfil t v) → s.promises[t.id]? = some .pending) := by
  have hi := reachable_inv h
  have hpre : s.popped <+: s.pushed := ⟨s.tasks, hi.queue⟩
  have hwp : s.worked.map Prod.fst <+: s.popped := ⟨s.held, hi.dispatched.symm⟩
  refine ⟨hpre, List.ext_getElem? fun k => ?_, hwp, fun k v hv => ?_,
    fun t v hf => (hi.fulfilling t v hf).2.2⟩
  · rw [List.getElem?_map]
    by_cases hk : k < s.popped.length
    · rw [List.getElem?_range hk, List.getElem?_eq_getElem hk]
      simp [hi.ids k _ (prefix_getElem? hpre (List.getElem?_eq_getElem hk))]
    · rw [List.getElem?_eq_none (by omega), List.getElem?_eq_none (by simp; omega)]
      rfl
  · obtain ⟨t, ht⟩ := hi.settled k v hv
    have hp : s.popped[k]? = some t := prefix_getElem? hwp (by simp [ht])
    exact ⟨t, prefix_getElem? hpre hp, hp, ht⟩

/-- One `run()`, one `notify(7)`, and `__work` returning `8` on it. -/
def afterOneTask : State Nat Nat Unit :=
  ⟨⟨true, some (.started .head), [.returned], false⟩, [], [.value 8], [⟨0, 7⟩], [⟨0, 7⟩],
    [(⟨0, 7⟩, .ok 8)]⟩

theorem dispatch_fifo_afterOneTask :
    afterOneTask.popped <+: afterOneTask.pushed ∧
    afterOneTask.popped.map Task.id = List.range afterOneTask.popped.length ∧
    afterOneTask.worked.map Prod.fst <+: afterOneTask.popped ∧
    (∀ (k v : Nat), afterOneTask.promises[k]? = some (.value v) →
      ∃ t, afterOneTask.pushed[k]? = some t ∧ afterOneTask.popped[k]? = some t ∧
        afterOneTask.worked[k]? = some (t, .ok v)) ∧
    (∀ t v, afterOneTask.loopPc = some (.fulfil t v) →
      afterOneTask.promises[t.id]? = some .pending) :=
  dispatch_fifo (exec_reaches (show init.exec [.run, .call 0, .call 0, .call 0, .call 0,
    .notify 7, .loop, .loop, .work (.ok 8), .loop] = some afterOneTask from rfl))

/-! ## No lost notification -/

/-- The dispatch thread is blocked in `_cv.wait`, not yet notified, only while `_tasks` is
empty: `notify()` appends and signals under the lock the loop tested `_tasks.empty()` under. -/
theorem wait_only_when_empty (h : Reachable s) (hw : s.waiting = true) : s.tasks = [] :=
  (reachable_inv h).waits_empty hw

/-- One `run()` and `notify(5)`, served with `50`: the dispatch thread is blocked again, on
the queue it has emptied. -/
def parked : State Nat Nat Unit :=
  ⟨⟨true, some (.started .wait), [.returned], false⟩, [], [.value 50], [⟨0, 5⟩], [⟨0, 5⟩],
    [(⟨0, 5⟩, .ok 50)]⟩

theorem wait_only_when_empty_parked : parked.tasks = [] :=
  wait_only_when_empty (exec_reaches (show init.exec [.run, .call 0, .call 0, .call 0, .call 0,
    .notify 5, .loop, .loop, .work (.ok 50), .loop, .loop, .loop] = some parked from rfl)) rfl

/-! ## An exception from `__work` -/

/-- A promise past those `__work` has returned on is pending. -/
theorem Inv.pending (hi : s.Inv) {k : Nat} (hk : s.worked.length ≤ k)
    (hlt : k < s.promises.length) : s.promises[k]? = some .pending := by
  obtain ⟨p, hp⟩ : ∃ p, s.promises[k]? = some p := ⟨_, List.getElem?_eq_getElem hlt⟩
  rw [hp, hi.unworked k p hk hp]

/-- The promise of every task still in `_tasks` is pending. -/
theorem Inv.queued_pending (hi : s.Inv) {u : Task D} (hu : u ∈ s.tasks) :
    s.promises[u.id]? = some .pending := by
  obtain ⟨m, hm⟩ := List.mem_iff_getElem?.mp hu
  have hp : s.pushed[s.popped.length + m]? = some u := by
    rw [← hi.queue, List.getElem?_append_right (by omega), Nat.add_sub_cancel_left]; exact hm
  have hlt := (List.getElem?_eq_some_iff.mp hp).1
  have hd := congrArg List.length hi.dispatched
  simp only [List.length_append, List.length_map] at hd
  rw [hi.ids _ u hp]
  exact hi.pending (by omega) (by rw [hi.promises_length]; omega)

/-- `__work` raising on the task the loop holds: nothing catches the exception, the thread
body ends in `std::terminate`, and from then on no thread takes a step; that task's promise
and the promise of every task still queued stay pending. -/
theorem work_raise_stalls (h : Reachable s) {t : Task D} (hpc : s.loopPc = some (.work t))
    {e : E} (h₁ : s.step (.work (.error e)) = some s') :
    (∀ a, s'.step a = none) ∧ s'.promises[t.id]? = some .pending ∧
      ∀ u ∈ s'.tasks, s'.promises[u.id]? = some .pending := by
  have hi := reachable_inv h
  have hs' : s' = s.work t (.error e) := by
    simpa [step, live, aborted_of_step h₁, hpc] using h₁.symm
  subst hs'
  have hh : s.held = [t] := by simp [held, hpc]
  have hlen := hi.length_le
  rw [hh, List.length_singleton] at hlen
  refine ⟨fun _ => rfl, ?_, fun u hu => ?_⟩
  · simpa using hi.pending (Nat.le_of_eq (hi.held_id hh).symm) (by rw [hi.held_id hh]; omega)
  · simpa using hi.queued_pending (by simpa using hu)

/-- One `run()`, `notify(1)` and `notify(2)`, the loop holding the first task. -/
def holdingFirst : State Nat Nat Unit :=
  ⟨⟨true, some (.started (.work ⟨0, 1⟩)), [.returned], false⟩, [⟨1, 2⟩], [.pending, .pending],
    [⟨0, 1⟩, ⟨1, 2⟩], [⟨0, 1⟩], []⟩

theorem work_raise_stalls_holdingFirst :
    (∀ a, (holdingFirst.work ⟨0, 1⟩ (.error ())).step a = none) ∧
    (holdingFirst.work ⟨0, 1⟩ (.error ())).promises[0]? = some .pending ∧
    ∀ u ∈ (holdingFirst.work ⟨0, 1⟩ (.error ())).tasks,
      (holdingFirst.work ⟨0, 1⟩ (.error ())).promises[u.id]? = some .pending :=
  work_raise_stalls (exec_reaches (show init.exec [.run, .call 0, .call 0, .call 0, .call 0,
    .notify 1, .notify 2, .loop, .loop] = some holdingFirst from rfl)) rfl rfl

/-- `__work` raising on the first of two queued tasks: both promises stay pending, the second
task stays in `_tasks`, and no thread takes another step. -/
theorem work_raise_terminates :
    ∃ s : State Nat Nat Unit, init.exec [.run, .call 0, .call 0, .call 0, .call 0, .notify 1,
      .notify 2, .loop, .loop, .work (.error ())] = some s ∧
      s.promises = [.pending, .pending] ∧ s.tasks = [⟨1, 2⟩] ∧ ∀ a, s.step a = none :=
  ⟨_, rfl, rfl, rfl, fun _ => rfl⟩

end Common.ActiveRunnable.State
