import CommonLib.Thread.ActiveRunnable

/-!
# What an `ActiveRunnable` is for

`Service` is the purpose of an `ActiveRunnable`, apart from its threads and locks: requests are
submitted, served one at a time oldest first, and each request's result goes to the future its
submission returned. `Service.Inv` says the requests served are always the first ones
submitted, so futures complete in submission order.

`State.toService` reads a service state off the model of the code: the queue is the task the
dispatch loop holds, from its removal until `set_value`, followed by `_tasks`. Every step of a
process that does not end is a service step or leaves the service state alone
(`step_refines`), so every reachable state of a live process implements a reachable service
state (`reachable_service`), and the order of completion carries over (`futures_in_order`).
-/

namespace Common.ActiveRunnable

open Thread Relation

variable {D R E : Type}

/-! ## The service -/

/-- Requests not yet served, oldest first, and the future of every request submitted. -/
structure Service (D R E : Type) where
  queue : List (Task D)
  results : List (Promise R E)

/-- A request is submitted with its data, or the oldest is served with a result. -/
inductive Service.Op (D R : Type) where
  | submit (d : D)
  | serve (r : R)

namespace Service

/-- No request yet. -/
def init : Service D R E := ⟨[], []⟩

/-- One operation; serving needs a request waiting. -/
def step (σ : Service D R E) : Op D R → Option (Service D R E)
  | .submit d => some ⟨σ.queue ++ [⟨σ.results.length, d⟩], σ.results ++ [.pending]⟩
  | .serve r =>
    match σ.queue with
    | [] => none
    | t :: rest => some ⟨rest, σ.results.set t.id (.value r)⟩

def Next (σ σ' : Service D R E) : Prop := ∃ o, σ.step o = some σ'

def Reachable (σ : Service D R E) : Prop := ReflTransGen Next init σ

/-- The first `n` requests have been served, in order, and the queue holds the others. -/
structure Inv (σ : Service D R E) (n : Nat) : Prop where
  served : ∀ k < n, ∃ v, σ.results[k]? = some (.value v)
  pending : ∀ k, n ≤ k → k < σ.results.length → σ.results[k]? = some .pending
  queue : σ.queue.map Task.id = List.range' n (σ.results.length - n)
  le : n ≤ σ.results.length

theorem Inv.submit {σ : Service D R E} {n : Nat} (hi : σ.Inv n) (d : D) :
    Inv ⟨σ.queue ++ [⟨σ.results.length, d⟩], σ.results ++ [.pending]⟩ n := by
  have hle := hi.le
  refine ⟨fun k hk => ?_, fun k hk hlt => ?_, ?_, by simp; omega⟩
  · obtain ⟨v, hv⟩ := hi.served k hk
    exact ⟨v, by rw [List.getElem?_append_left (by omega)]; exact hv⟩
  · simp only [List.length_append, List.length_singleton] at hlt
    rcases Nat.lt_or_ge k σ.results.length with h | h
    · rw [List.getElem?_append_left h]; exact hi.pending k hk h
    · rw [List.getElem?_append_right h, show k - σ.results.length = 0 by omega]; rfl
  · simp only [List.map_append, hi.queue, List.length_append, List.length_singleton,
      List.map_cons, List.map_nil]
    rw [show σ.results.length + 1 - n = (σ.results.length - n) + 1 by omega,
      List.range'_1_concat, show n + (σ.results.length - n) = σ.results.length by omega]

theorem Inv.serve {σ : Service D R E} {n : Nat} (hi : σ.Inv n) {t : Task D}
    {rest : List (Task D)} (hq : σ.queue = t :: rest) (r : R) :
    Inv ⟨rest, σ.results.set t.id (.value r)⟩ (n + 1) := by
  have h := hi.queue
  rw [hq, List.map_cons] at h
  have hlen : 0 < σ.results.length - n := by
    rcases hm : σ.results.length - n with _ | m
    · rw [hm] at h; cases h
    · omega
  obtain ⟨m, hm⟩ : ∃ m, σ.results.length - n = m + 1 := ⟨_, (Nat.succ_pred_eq_of_pos hlen).symm⟩
  rw [hm, List.range'_succ] at h
  obtain ⟨ht, hrest⟩ := List.cons.inj h
  refine ⟨fun k hk => ?_, fun k hk hlt => ?_, ?_, by simp; omega⟩
  · rcases Nat.lt_or_ge k n with h' | h'
    · obtain ⟨v, hv⟩ := hi.served k h'
      exact ⟨v, by rw [List.getElem?_set_ne (by omega)]; exact hv⟩
    · exact ⟨r, by rw [show k = t.id by omega, List.getElem?_set_self (by omega)]⟩
  · simp only [List.length_set] at hlt
    rw [List.getElem?_set_ne (by omega)]; exact hi.pending k (by omega) hlt
  · simp only [List.length_set, hrest]
    congr 1; omega

theorem Inv.step {σ σ' : Service D R E} {n : Nat} (hi : σ.Inv n) {o : Op D R}
    (h : σ.step o = some σ') : ∃ n', σ'.Inv n' := by
  cases o with
  | submit d => cases h; exact ⟨n, hi.submit d⟩
  | serve r =>
    simp only [Service.step] at h
    split at h
    · cases h
    · cases h; exact ⟨n + 1, hi.serve ‹_› r⟩

theorem reachable_inv {σ : Service D R E} (h : σ.Reachable) : ∃ n, σ.Inv n := by
  induction h with
  | refl => exact ⟨0, fun _ h => absurd h (Nat.not_lt_zero _), fun _ _ h => absurd h (by simp [init]),
      by simp [init], Nat.le_refl _⟩
  | tail _ hs ih =>
    obtain ⟨n, hn⟩ := ih
    obtain ⟨o, ho⟩ := hs
    exact hn.step ho

/-- Results are delivered in submission order. -/
theorem Inv.in_order {σ : Service D R E} {n : Nat} (hi : σ.Inv n) {j k : Nat} {v : R}
    (hk : σ.results[k]? = some (.value v)) (hj : j < k) : ∃ w, σ.results[j]? = some (.value w) := by
  have hkn : k < n := by
    by_contra hkn
    have := hi.pending k (by omega) (List.getElem?_eq_some_iff.mp hk).1
    rw [hk] at this; cases this
  exact hi.served j (by omega)

end Service

/-! ## The code implements the service -/

namespace State

variable {s s' : State D R E} {a : Action D R E}

/-- The task the dispatch loop holds, from its removal until `set_value`. -/
def serving (s : State D R E) : List (Task D) :=
  match s.loopPc with
  | some (.work t) => [t]
  | some (.fulfil t _) => [t]
  | _ => []

/-- The service state a state of the code implements. -/
def toService (s : State D R E) : Service D R E := ⟨s.serving ++ s.tasks, s.promises⟩

theorem toService_eq (hq : s'.serving ++ s'.tasks = s.serving ++ s.tasks)
    (hp : s'.promises = s.promises) : s'.toService = s.toService := by
  unfold toService; rw [hq, hp]

@[simp] theorem setPc_serving (s : State D R E) (pc : Pc D R E) :
    (s.setPc pc).serving = match pc with | .work t => [t] | .fulfil t _ => [t] | _ => [] := by
  cases pc <;> rfl

theorem serving_of_loopPc {pc : Pc D R E} (h : s.loopPc = some pc)
    (ht : ∀ t, pc ≠ .work t) (hf : ∀ t r, pc ≠ .fulfil t r) : s.serving = [] := by
  unfold serving; rw [h]; split
  · exact absurd (Option.some.inj ‹_›) (ht _)
  · exact absurd (Option.some.inj ‹_›) (hf _ _)
  · rfl

theorem serving_of_not_busy (h : s.toCore.busy Pc.finished = false) : s.serving = [] := by
  rw [busy_eq] at h
  unfold serving
  split <;> simp_all [Pc.finished]

theorem notifyOne_serving (s : State D R E) : s.notifyOne.serving = s.serving := by
  unfold notifyOne; split
  · rename_i hw
    rw [serving_of_loopPc (waiting_loopPc hw) (fun _ h => (by cases h)) (fun _ _ h => (by cases h))]
    rfl
  · rfl

@[simp] theorem notify_serving (s : State D R E) (d : D) : (s.notify d).serving = s.serving :=
  notifyOne_serving _

@[simp] theorem stop_serving (s : State D R E) : s.stop.serving = s.serving :=
  notifyOne_serving _

/-- Taking the first task moves it from `_tasks` to the loop's hands. -/
theorem dequeue_toService (h : s.serving = []) : s.dequeue.toService = s.toService := by
  unfold dequeue toService
  split
  · split <;> simp_all
  · simp [h]

/-- The loop's own steps leave the service state alone, but for `set_value`, which serves the
oldest request. -/
theorem dispatch_refines {pc : Pc D R E} (hpc : s.loopPc = some pc)
    (hd : s.dispatch pc = some s') (hab : s'.aborted = false) :
    s'.toService = s.toService ∨ Service.Next s.toService s'.toService := by
  have hs := serving_of_loopPc hpc
  cases pc with
  | head =>
    cases hd
    exact .inl (toService_eq (by split <;> simp [hs (fun _ h => (by cases h))
      (fun _ _ h => (by cases h))]) rfl)
  | lock =>
    cases hd
    have hs' := hs (fun _ h => (by cases h)) (fun _ _ h => (by cases h))
    split
    · exact .inl (toService_eq (by simp [hs']) rfl)
    · exact .inl (dequeue_toService hs')
  | wake =>
    cases hd
    exact .inl (dequeue_toService (hs (fun _ h => (by cases h)) (fun _ _ h => (by cases h))))
  | fulfil t r =>
    cases hd
    rcases fulfil_cases s t r with ⟨-, hf⟩ | hf
    · rw [hf]
      refine .inr ⟨.serve r, ?_⟩
      simp [Service.step, toService, serving, hpc]
    · rw [hf] at hab; cases hab
  | _ => cases hd

/-- Every step that does not end the process serves the oldest request, submits one, or
leaves the service state alone. -/
theorem step_refines (h : s.step a = some s') (hab : s'.aborted = false) :
    s'.toService = s.toService ∨ Service.Next s.toService s'.toService := by
  rcases step_cases h with ⟨-, rfl⟩ | ⟨i, c, -, hc, rfl⟩ | ⟨d, -, rfl⟩ | ⟨-, rfl⟩ |
    ⟨pc, -, hpc, hd⟩ | ⟨-, hw, rfl⟩ | ⟨t, r, -, hpc, rfl⟩
  · exact .inl rfl
  · rcases Core.call_cases hc with ⟨-, rfl⟩ | ⟨-, rfl⟩ | ⟨-, hb, rfl⟩ | ⟨-, ht, rfl⟩ | ⟨-, -, rfl⟩
    · exact .inl rfl
    · exact .inl rfl
    · exact .inl (toService_eq (by rw [serving_of_not_busy hb]; rfl) rfl)
    · exact .inl (toService_eq (by simp [serving, loopPc, ht]) rfl)
    · cases hab
  · refine .inr ⟨.submit d, ?_⟩
    simp [Service.step, toService, List.append_assoc]
  · exact .inl (toService_eq (by simp) (by simp))
  · exact dispatch_refines hpc hd hab
  · exact .inl (toService_eq (by simp [serving_of_loopPc (waiting_loopPc hw)
      (fun _ h => (by cases h)) (fun _ _ h => (by cases h))]) rfl)
  · cases r with
    | ok v => exact .inl (toService_eq (by simp [State.work, serving, hpc]) rfl)
    | error e => cases hab

/-- A step that ends the process leaves the futures as they were. -/
theorem promises_of_abort (h : s.step a = some s') (hab : s'.aborted = true) :
    s'.promises = s.promises := by
  have h0 := aborted_of_step h
  rcases step_cases h with ⟨-, rfl⟩ | ⟨i, c, -, hc, rfl⟩ | ⟨d, -, rfl⟩ | ⟨-, rfl⟩ |
    ⟨pc, -, hpc, hd⟩ | ⟨-, -, rfl⟩ | ⟨t, r, -, -, rfl⟩
  · rfl
  · rfl
  · exact absurd (hab.symm.trans h0) (by decide)
  · simp
  · cases pc with
    | head => cases hd; rfl
    | lock => cases hd; split <;> simp
    | wake => cases hd; simp
    | fulfil t r =>
      cases hd
      rcases fulfil_cases s t r with ⟨-, hf⟩ | hf <;> rw [hf] at hab ⊢
      simp [h0] at hab
    | _ => cases hd
  · rfl
  · simp

theorem service_step {σ : Service D R E} (h : s.step a = some s') (hσ : σ.Reachable)
    (he : s.aborted = false → σ = s.toService) (hr : σ.results = s.promises) :
    ∃ σ' : Service D R E, σ'.Reachable ∧ (s'.aborted = false → σ' = s'.toService) ∧
      σ'.results = s'.promises := by
  obtain rfl := he (aborted_of_step h)
  cases hab : s'.aborted
  · rcases step_refines h hab with he' | hn
    · exact ⟨s.toService, hσ, fun _ => he'.symm, congrArg Service.results he'.symm⟩
    · exact ⟨s'.toService, hσ.tail hn, fun _ => rfl, rfl⟩
  · exact ⟨s.toService, hσ, fun h => (by cases h), (promises_of_abort h hab).symm⟩

/-- Every reachable state of a live process implements a reachable service state; once the
process has ended, the futures stay those of its last live state. -/
theorem reachable_service (h : Reachable s) :
    ∃ σ : Service D R E, σ.Reachable ∧ (s.aborted = false → σ = s.toService) ∧
      σ.results = s.promises := by
  induction h with
  | refl => exact ⟨Service.init, .refl, fun _ => rfl, rfl⟩
  | tail _ hs ih =>
    obtain ⟨σ, hσ, he, hr⟩ := ih
    obtain ⟨a, ha⟩ := hs
    exact service_step ha hσ he hr

/-- With `run()` called once, futures complete in the order `notify()` made them: once one
holds a value, every earlier one does, whatever the interleaving. The model has one dispatch
thread, so its proof does not use `_hone`; the source has one only while `run()` has been
called once (see `Core.call`), and two dispatch threads serve two tasks in either order. -/
theorem futures_in_order (h : Reachable s) (_hone : s.calls.length ≤ 1) {j k : Nat} {v : R}
    (hk : s.promises[k]? = some (.value v)) (hj : j < k) :
    ∃ w, s.promises[j]? = some (.value w) := by
  obtain ⟨σ, hσ, -, hr⟩ := reachable_service h
  obtain ⟨n, hn⟩ := Service.reachable_inv hσ
  rw [← hr] at hk ⊢
  exact hn.in_order hk hj

/-- One `run()`, `notify(7)` and `notify(8)`, both served. -/
def twoServed : State Nat Nat Unit :=
  ⟨⟨true, some (.started .head), [.returned], false⟩, [], [.value 70, .value 80],
    [⟨0, 7⟩, ⟨1, 8⟩], [⟨0, 7⟩, ⟨1, 8⟩], [(⟨0, 7⟩, .ok 70), (⟨1, 8⟩, .ok 80)]⟩

theorem futures_in_order_twoServed : ∃ w, twoServed.promises[0]? = some (.value w) :=
  futures_in_order (exec_reaches (show init.exec [.run, .call 0, .call 0, .call 0, .call 0,
    .notify 7, .notify 8, .loop, .loop, .work (.ok 70), .loop, .loop, .loop, .work (.ok 80),
    .loop] = some twoServed from rfl)) (by decide) (k := 1) (v := 80) rfl (by decide)

end State

end Common.ActiveRunnable
