import CommonLib.Thread.Dispatch

/-!
# After `stop()`

`stop()` clears `_running` under `_notifyLock`. Once the only `run()` call has stored the
flag, nothing sets it again, and the dispatch loop reads it under the lock before every
removal: after `stop()` the loop removes no task and finishes at most the one `__work` call
it may already hold (`stop_ends_dispatch`). `Quiet` is what stays true from `stop()` on.
-/

namespace Common.ActiveRunnable.State

open Thread Relation

variable {D R E : Type} {s s' s₀ s₁ : State D R E} {a : Action D R E}

/-! ## From `stop()` on -/

/-- From `stop()` (state `s₁`) on, with every `run()` call past its store: the flag stays
clear, the loop removes nothing, and `__work` gets at most the task held at `s₁`. -/
structure Quiet (s₁ s : State D R E) : Prop where
  running : s.running = false
  stored : s.toCore.AllStored
  nonempty : s.calls ≠ []
  popped : s.popped = s₁.popped
  worked : ∃ X, s.worked = s₁.worked ++ X ∧ X.map Prod.fst ++ s.held = s₁.held

theorem Quiet.frame (hq : Quiet s₁ s) (hr : s'.running = false) (hc : s'.calls = s.calls)
    (hp : s'.popped = s.popped) (hw : s'.worked = s.worked) (hh : s'.held = s.held) :
    Quiet s₁ s' := by
  obtain ⟨-, h2, h3, h4, X, h5, h6⟩ := hq
  exact ⟨hr, fun j x => hc ▸ h2 j x, by rwa [hc], by rwa [hp], X, by rwa [hw], by rwa [hh]⟩

/-- With `_running` clear the loop's own steps remove nothing and call nothing. -/
theorem dispatch_quiet (hr : s.running = false) {pc : Pc D R E} (hpc : s.loopPc = some pc)
    (hd : s.dispatch pc = some s') :
    s'.popped = s.popped ∧ s'.worked = s.worked ∧ s'.held = s.held := by
  have hh := held_of_loopPc hpc
  cases pc with
  | head => cases hd; simp [hr, hh fun _ h => (by cases h)]
  | lock =>
    cases hd
    split
    · simp [hh fun _ h => (by cases h)]
    · simp [dequeue_of_not_running hr, hh fun _ h => (by cases h)]
  | wake => cases hd; simp [dequeue_of_not_running hr, hh fun _ h => (by cases h)]
  | fulfil t r =>
    cases hd
    refine ⟨by simp, by simp, ?_⟩
    rw [hh fun _ h => (by cases h)]
    rcases fulfil_loopPc s t r with h | h
    · exact held_of_loopPc h fun _ h => (by cases h)
    · exact held_of_loopPc (h.trans hpc) fun _ h => (by cases h)
  | _ => cases hd

theorem Quiet.step (hq : Quiet s₁ s) (h : s.step a = some s') (hone : s'.calls.length ≤ 1) :
    Quiet s₁ s' := by
  rcases step_cases h with ⟨-, rfl⟩ | ⟨i, c, -, hc, rfl⟩ | ⟨d, -, rfl⟩ | ⟨-, rfl⟩ |
    ⟨pc, -, hpc, hd⟩ | ⟨-, hw, rfl⟩ | ⟨t, r, -, hpc, rfl⟩
  · exact absurd (Core.calls_nil_of_run hone) hq.nonempty
  · rcases Core.call_cases hc with ⟨hi, rfl⟩ | ⟨hi, rfl⟩ | ⟨-, hb, rfl⟩ | ⟨-, ht, rfl⟩ | ⟨-, -, rfl⟩
    · cases hq.stored i _ hi
    · cases hq.stored i _ hi
    · obtain ⟨h1, h2, h3, h4, X, h5, h6⟩ := hq
      exact ⟨h1, h2.set rfl rfl, by simpa using h3, h4, X, h5,
        by rw [← h6, held_of_not_busy hb]; rfl⟩
    · obtain ⟨h1, h2, h3, h4, X, h5, h6⟩ := hq
      exact ⟨h1, h2.set rfl rfl, by simpa using h3, h4, X, h5,
        by rw [← h6]; simp [held, loopPc, ht]⟩
    · exact hq.frame hq.running rfl rfl rfl rfl
  · exact hq.frame (by simp [hq.running]) rfl rfl rfl (by simp)
  · exact hq.frame rfl rfl rfl rfl (by simp)
  · obtain ⟨hp, hw, hh⟩ := dispatch_quiet hq.running hpc hd
    exact hq.frame (by rw [(dispatch_core hd).1]; exact hq.running) (dispatch_core hd).2 hp hw hh
  · exact hq.frame hq.running rfl rfl rfl (by simp [held_of_waiting hw])
  · obtain ⟨h1, h2, h3, h4, X, h5, h6⟩ := hq
    have hh : s.held = [t] := by simp [held, hpc]
    exact ⟨by simpa using h1, fun j x hj => h2 j x (by simpa using hj), by simpa using h3,
      by simpa using h4, X ++ [(t, r)], by simp [h5], by simp [← h6, hh]⟩

theorem Quiet.run (hq : Quiet s₁ s) (h : ReflTransGen Next s s') (hone : s'.calls.length ≤ 1) :
    Quiet s₁ s' := by
  induction h with
  | refl => exact hq
  | tail _ huv ih =>
    obtain ⟨a, ha⟩ := huv
    exact (ih (Nat.le_trans (step_core ha).calls_length hone)).step ha hone

/-- `stop()` right after the only `run()` call stored the flag starts a quiet stretch. -/
theorem quiet_stop (h₀ : Reachable s₀) (hr : s₀.running = true) (hone : s₀.calls.length ≤ 1) :
    Quiet s₀.stop s₀.stop :=
  have hs := Core.running_stored (steps_core h₀) hr
  ⟨rfl, hs.allStored hone, hs.nonempty, rfl, [], by simp, by simp⟩

/-! ## Nothing is removed after `stop()` -/

theorem Inv.id_lt_of_mem_popped (hi : s.Inv) {t : Task D} (ht : t ∈ s.popped) :
    t.id < s.popped.length := by
  obtain ⟨k, hk⟩ := List.mem_iff_getElem?.mp ht
  have := hi.ids k t (prefix_getElem? ⟨s.tasks, hi.queue⟩ hk)
  have := (List.getElem?_eq_some_iff.mp hk).1
  omega

theorem Inv.le_id_of_mem_drop (hi : s.Inv) {t : Task D} {n : Nat} (ht : t ∈ s.pushed.drop n) :
    n ≤ t.id := by
  obtain ⟨k, hk⟩ := List.mem_iff_getElem?.mp ht
  rw [List.getElem?_drop] at hk
  have := hi.ids _ t hk
  omega

/-- After the critical section of a `stop()` made once the only `run()` call has set
`_running` (`s₀` to `s₁`), in every later state `s`: no task has been removed from `_tasks`
since, at most one `__work` call has begun since, on a task removed before `stop()` took the
lock, and no task appended after `stop()` is ever handed to `__work`. -/
theorem stop_ends_dispatch (h₀ : Reachable s₀) (hr : s₀.running = true)
    (h₁ : s₀.step .stop = some s₁) (h : ReflTransGen Next s₁ s) (hone : s.calls.length ≤ 1) :
    s.popped = s₀.popped ∧ (s.worked.drop s₀.worked.length).length ≤ 1 ∧
    (∀ w ∈ s.worked.drop s₀.worked.length, w.1 ∈ s₀.popped) ∧
    ∀ t ∈ s.pushed.drop s₀.pushed.length, ∀ r, (t, r) ∉ s.worked := by
  obtain rfl := step_stop h₁
  have hi₀ := reachable_inv h₀
  have hi := reachable_inv (h₀.tail ⟨_, h₁⟩ |>.trans h)
  have hc : s₀.calls.length ≤ 1 := by
    have := Core.steps_calls_length (steps_core h); simp only [stop_calls] at this; omega
  obtain ⟨-, -, -, hp, X, hX, hXh⟩ := (quiet_stop h₀ hr hc).run h hone
  simp only [stop_popped, stop_worked, stop_held] at hp hX hXh
  have hdrop : s.worked.drop s₀.worked.length = X := by simp [hX]
  refine ⟨hp, ?_, fun w hw => ?_, fun t ht r htr => ?_⟩
  · have h1 := congrArg List.length hXh
    have h2 := held_length_le s₀
    simp only [List.length_append, List.length_map] at h1
    rw [hdrop]; omega
  · rw [hdrop] at hw
    rw [hi₀.dispatched, ← hXh]
    simp only [List.mem_append, List.mem_map]
    exact .inr (.inl ⟨w, hw, rfl⟩)
  · have hmem : t ∈ s.popped := by
      rw [hi.dispatched]; exact List.mem_append_left _ (List.mem_map.mpr ⟨_, htr, rfl⟩)
    have h1 := hi.id_lt_of_mem_popped hmem
    have h2 := hi.le_id_of_mem_drop ht
    have h3 := congrArg List.length hi₀.queue
    simp only [List.length_append] at h3
    rw [hp] at h1
    omega

/-- The loop holds task `0` when `stop()` runs; task `1` is appended afterwards. -/
def holding : State Nat Nat Unit :=
  ⟨⟨true, some (.started (.work ⟨0, 5⟩)), [.returned], false⟩, [], [.pending], [⟨0, 5⟩],
    [⟨0, 5⟩], []⟩

def drained : State Nat Nat Unit :=
  ⟨⟨false, some (.started .done), [.returned], false⟩, [⟨1, 9⟩], [.value 6, .pending],
    [⟨0, 5⟩, ⟨1, 9⟩], [⟨0, 5⟩], [(⟨0, 5⟩, .ok 6)]⟩

theorem stop_ends_dispatch_holding :
    drained.popped = holding.popped ∧
    (drained.worked.drop holding.worked.length).length ≤ 1 ∧
    (∀ w ∈ drained.worked.drop holding.worked.length, w.1 ∈ holding.popped) ∧
    ∀ t ∈ drained.pushed.drop holding.pushed.length, ∀ r, (t, r) ∉ drained.worked :=
  stop_ends_dispatch
    (exec_reaches (show init.exec [.run, .call 0, .call 0, .call 0, .call 0, .notify 5, .loop,
      .loop] = some holding from rfl)) rfl rfl
    (exec_reaches (show holding.stop.exec [.notify 9, .work (.ok 6), .loop, .loop] = some drained
      from rfl)) (by decide)

end Common.ActiveRunnable.State
