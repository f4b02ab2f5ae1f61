import CommonLib.Thread.Worker

/-!
# ActiveRunnable

`common::ActiveRunnable<DataType, ReturnType>` (Runnable.hpp:214-425): a worker whose thread
takes tasks from `_tasks` and hands each to `__work`, fulfilling the promise `notify()`
made for it.

The four specialisations `{DataType, void} × {ReturnType, void}` are one model, `D` and `R`
being `Unit` for `void`. The threads of the program are interleaved by `step`, one action
at a time:

* every critical section under `_notifyLock` is one action (`notify`, `stop`, and the
  dispatch loop from taking the lock to `_cv.wait` or to `lock.unlock()`): the lock makes
  them atomic towards each other, and the only shared write outside the lock,
  `_running.store(true)` in `run()`, is read once in each of them;
* `_cv.wait(lock)` releases the lock and blocks (`Pc.wait`); `_cv.notify_one()` wakes the
  dispatch thread if it waits, and `_cv.wait` may also return on its own (`Action.spurious`),
  as `std::condition_variable` allows;
* `__work` is the user's code: each call returns any value or raises any exception
  (`Action.work`);
* `_tasks[0]` of an empty `_tasks` is undefined behaviour: the thread stops at `Pc.fault`.

`pushed`, `popped` and `worked` are history: what `notify()` appended, what the loop
removed, and every `__work` call with its outcome, each in order.
-/

namespace Common.ActiveRunnable

open Thread

/-- A `TaskType` of `_tasks`: the data `notify()` was given and the promise it made, named
by `id`, the number of `notify()` calls before it. -/
structure Task (D : Type) where
  id : Nat
  data : D
  deriving DecidableEq, Repr

/-- Where the dispatch thread (the lambda `run()` starts, :257-292) is. -/
inductive Pc (D R E : Type) where
  /-- `while(_running.load())` -/
  | head
  /-- `std::unique_lock<std::mutex> lock(_notifyLock); if(_tasks.empty()) _cv.wait(lock);` -/
  | lock
  /-- blocked in `_cv.wait(lock)`, not yet notified -/
  | wait
  /-- `_cv.wait` has returned: taking `_notifyLock` again -/
  | wake
  /-- `lock.unlock()` done: `__work(std::move(data))` next -/
  | work (t : Task D)
  /-- `promise->set_value(r)` next -/
  | fulfil (t : Task D) (r : R)
  /-- the loop has left and `ThreadDetail` has set its `_promise` -/
  | done
  /-- `__work` raised `e`; nothing catches it, so `std::terminate` -/
  | raised (e : E)
  /-- `_tasks[0]` read an empty `_tasks` -/
  | fault
  deriving Repr

variable {D R E : Type}

/-- The thread body has returned. -/
def Pc.finished : Pc D R E → Bool
  | .done => true
  | _ => false

/-- An `ActiveRunnable` and the threads using it. -/
structure State (D R E : Type) extends Core (Pc D R E) where
  /-- `_tasks` -/
  tasks : List (Task D)
  /-- the promise of each `notify()` call, by `Task.id` -/
  promises : List (Promise R E)
  /-- every task `notify()` appended to `_tasks`, in order -/
  pushed : List (Task D)
  /-- every task the dispatch loop removed from `_tasks`, in order -/
  popped : List (Task D)
  /-- every `__work` call: its task and what it returned or raised -/
  worked : List (Task D × Except E R)

/-- What the threads can do next. -/
inductive Action (D R E : Type) where
  /-- another thread calls `run()` -/
  | run
  /-- the `i`-th `run()` call takes its next step -/
  | call (i : Nat)
  /-- `notify(d)` (`notify()` when `D` is `Unit`) -/
  | notify (d : D)
  /-- `stop()` -/
  | stop
  /-- the dispatch thread takes its next step -/
  | loop
  /-- `_cv.wait` returns with no notification -/
  | spurious
  /-- `__work` returns `r` or raises -/
  | work (r : Except E R)

namespace State

/-- An `ActiveRunnable` as constructed. -/
def init : State D R E := ⟨Core.init, [], [], [], [], []⟩

/-- Where the dispatch thread is, once `_t` has been started. -/
def loopPc (s : State D R E) : Option (Pc D R E) :=
  match s.t with
  | some (.started pc) => some pc
  | _ => none

/-- The dispatch thread is blocked in `_cv.wait`. -/
def waiting (s : State D R E) : Bool :=
  match s.loopPc with
  | some .wait => true
  | _ => false

/-- The task the dispatch thread has removed and not yet handed to `__work`. -/
def held (s : State D R E) : List (Task D) :=
  match s.loopPc with
  | some (.work t) => [t]
  | _ => []

/-- Move the dispatch thread to `pc`. -/
def setPc (s : State D R E) (pc : Pc D R E) : State D R E := { s with t := some (.started pc) }

/-- `_cv.notify_one()`: wakes the dispatch thread, the only waiter, if it waits. -/
def notifyOne (s : State D R E) : State D R E :=
  { s with t := if s.waiting then some (.started .wake) else s.t }

/-- `notify(data)` (:300-347): a new promise, then under `_notifyLock`
`_tasks.push_back({data, promise})` and `_cv.notify_one()`. -/
def notify (s : State D R E) (d : D) : State D R E :=
  let t : Task D := ⟨s.promises.length, d⟩
  notifyOne { s with tasks := s.tasks ++ [t], promises := s.promises ++ [.pending],
                     pushed := s.pushed ++ [t] }

/-- `stop()` (:359-364): under `_notifyLock`, `_running.store(false)` and
`_cv.notify_one()`. -/
def stop (s : State D R E) : State D R E := notifyOne { s with running := false }

/-- `if(!_running.load()) break; auto task = _tasks[0]; _tasks.erase(_tasks.begin());
lock.unlock();` -/
def dequeue (s : State D R E) : State D R E :=
  if s.running then
    match s.tasks with
    | [] => s.setPc .fault
    | t :: rest => ({ s with tasks := rest, popped := s.popped ++ [t] } : State D R E).setPc (.work t)
  else s.setPc .done

/-- `promise->set_value(r)`; on a promise already satisfied it throws `std::future_error`,
which nothing catches. -/
def fulfil (s : State D R E) (t : Task D) (r : R) : State D R E :=
  match s.promises[t.id]? with
  | some .pending => ({ s with promises := s.promises.set t.id (.value r) } : State D R E).setPc .head
  | _ => { s with aborted := true }

/-- `__work(std::move(data))` on the task `t` returned or raised `r`. -/
def work (s : State D R E) (t : Task D) : Except E R → State D R E
  | .ok v => ({ s with worked := s.worked ++ [(t, .ok v)] } : State D R E).setPc (.fulfil t v)
  | .error e =>
    ({ s with worked := s.worked ++ [(t, .error e)], aborted := true } : State D R E).setPc (.raised e)

/-- The step of the dispatch thread at `pc` that needs no choice from outside. -/
def dispatch (s : State D R E) : Pc D R E → Option (State D R E)
  | .head => some (s.setPc (if s.running then .lock else .done))
  | .lock => some (if s.tasks.isEmpty then s.setPc .wait else s.dequeue)
  | .wake => some s.dequeue
  | .fulfil t r => some (s.fulfil t r)
  | _ => none

/-- One action of a live process. -/
def live (s : State D R E) : Action D R E → Option (State D R E)
  | .run => some { s with calls := s.calls ++ [.check] }
  | .call i => (s.toCore.call .head Pc.finished i).map fun c => { s with toCore := c }
  | .notify d => some (s.notify d)
  | .stop => some s.stop
  | .loop => s.loopPc.bind s.dispatch
  | .spurious => if s.waiting then some (s.setPc .wake) else none
  | .work r =>
    match s.loopPc with
    | some (.work t) => some (s.work t r)
    | _ => none

/-- One action; nothing happens once `std::terminate` has ended the process. -/
def step (s : State D R E) (a : Action D R E) : Option (State D R E) :=
  if s.aborted then none else s.live a

/-- The actions in turn, stopping at the first that cannot happen. -/
def exec (s : State D R E) (as : List (Action D R E)) : Option (State D R E) := runSteps step s as

/-- `s'` is one action after `s`. -/
def Next (s s' : State D R E) : Prop := ∃ a, s.step a = some s'

/-- `s'` is one action other than `b` after `s`. -/
def NextExcept (b : Action D R E) (s s' : State D R E) : Prop := ∃ a, a ≠ b ∧ s.step a = some s'

/-- The states some interleaving reaches from a new `ActiveRunnable`. -/
def Reachable (s : State D R E) : Prop := Relation.ReflTransGen Next init s

theorem exec_reaches {s s' : State D R E} {as : List (Action D R E)} (h : exec s as = some s') :
    Relation.ReflTransGen Next s s' :=
  runSteps_reachable step h

theorem exec_reaches_except {b : Action D R E} {s s' : State D R E} {as : List (Action D R E)}
    (h : exec s as = some s') (hb : ∀ a ∈ as, a ≠ b) : Relation.ReflTransGen (NextExcept b) s s' :=
  runSteps_reaches step h hb

theorem NextExcept.next {b : Action D R E} {s s' : State D R E}
    (h : Relation.ReflTransGen (NextExcept b) s s') : Relation.ReflTransGen Next s s' :=
  h.mono fun _ _ ⟨a, _, ha⟩ => ⟨a, ha⟩

/-! ## What each action changes -/

section setPc

variable (s : State D R E) (pc : Pc D R E)

@[simp] theorem setPc_t : (s.setPc pc).t = some (.started pc) := rfl
@[simp] theorem setPc_running : (s.setPc pc).running = s.running := rfl
@[simp] theorem setPc_calls : (s.setPc pc).calls = s.calls := rfl
@[simp] theorem setPc_aborted : (s.setPc pc).aborted = s.aborted := rfl
@[simp] theorem setPc_tasks : (s.setPc pc).tasks = s.tasks := rfl
@[simp] theorem setPc_promises : (s.setPc pc).promises = s.promises := rfl
@[simp] theorem setPc_pushed : (s.setPc pc).pushed = s.pushed := rfl
@[simp] theorem setPc_popped : (s.setPc pc).popped = s.popped := rfl
@[simp] theorem setPc_worked : (s.setPc pc).worked = s.worked := rfl

end setPc

@[simp] theorem setPc_loopPc (s : State D R E) (pc : Pc D R E) : (s.setPc pc).loopPc = some pc :=
  rfl

@[simp] theorem setPc_setPc (s : State D R E) (pc pc' : Pc D R E) :
    (s.setPc pc).setPc pc' = s.setPc pc' := rfl

/-- The deleter's `join()` blocks exactly while the dispatch thread has not returned. -/
theorem busy_eq (s : State D R E) :
    s.toCore.busy Pc.finished = (s.loopPc.map fun pc => !pc.finished).getD false := by
  unfold Core.busy loopPc
  rcases s.t with _ | _ | pc <;> rfl

@[simp] theorem setPc_held (s : State D R E) (pc : Pc D R E) :
    (s.setPc pc).held = match pc with | .work t => [t] | _ => [] := by
  cases pc <;> rfl

theorem waiting_loopPc {s : State D R E} (h : s.waiting = true) : s.loopPc = some .wait := by
  unfold waiting at h; split at h <;> simp_all

theorem held_of_waiting {s : State D R E} (h : s.waiting = true) : s.held = [] := by
  unfold waiting at h; unfold held; split <;> simp_all

/-- The loop holds a task only at `Pc.work`. -/
theorem held_of_loopPc {s : State D R E} {pc : Pc D R E} (hpc : s.loopPc = some pc)
    (ht : ∀ t, pc ≠ .work t) : s.held = [] := by
  unfold held; rw [hpc]; split
  · rename_i t' heq; exact absurd (Option.some.inj heq) (ht t')
  · rfl

theorem notifyOne_loopPc (s : State D R E) :
    (s.notifyOne).loopPc = if s.waiting then some .wake else s.loopPc := by
  unfold notifyOne; split <;> rfl

@[simp] theorem notifyOne_waiting (s : State D R E) : (s.notifyOne).waiting = false := by
  unfold notifyOne; split
  · rfl
  · exact Bool.eq_false_iff.mpr ‹_›

@[simp] theorem notifyOne_held (s : State D R E) : (s.notifyOne).held = s.held := by
  unfold notifyOne; split
  · exact (held_of_waiting ‹_›).symm
  · rfl

theorem held_of_not_busy {s : State D R E} (h : s.toCore.busy Pc.finished = false) :
    s.held = [] := by
  rw [busy_eq] at h
  unfold held
  split <;> simp_all [Pc.finished]

section notify

variable (s : State D R E) (d : D)

@[simp] theorem notify_tasks : (s.notify d).tasks = s.tasks ++ [⟨s.promises.length, d⟩] := rfl
@[simp] theorem notify_promises : (s.notify d).promises = s.promises ++ [.pending] := rfl
@[simp] theorem notify_pushed : (s.notify d).pushed = s.pushed ++ [⟨s.promises.length, d⟩] := rfl
@[simp] theorem notify_popped : (s.notify d).popped = s.popped := rfl
@[simp] theorem notify_worked : (s.notify d).worked = s.worked := rfl
@[simp] theorem notify_running : (s.notify d).running = s.running := rfl
@[simp] theorem notify_calls : (s.notify d).calls = s.calls := rfl
@[simp] theorem notify_held : (s.notify d).held = s.held := notifyOne_held _
@[simp] theorem notify_waiting : (s.notify d).waiting = false := notifyOne_waiting _

theorem notify_loopPc : (s.notify d).loopPc = if s.waiting then some .wake else s.loopPc :=
  notifyOne_loopPc _

end notify

section stop

variable (s : State D R E)

@[simp] theorem stop_running : s.stop.running = false := rfl
@[simp] theorem stop_calls : s.stop.calls = s.calls := rfl
@[simp] theorem stop_tasks : s.stop.tasks = s.tasks := rfl
@[simp] theorem stop_promises : s.stop.promises = s.promises := rfl
@[simp] theorem stop_pushed : s.stop.pushed = s.pushed := rfl
@[simp] theorem stop_popped : s.stop.popped = s.popped := rfl
@[simp] theorem stop_worked : s.stop.worked = s.worked := rfl
@[simp] theorem stop_aborted : s.stop.aborted = s.aborted := by unfold stop notifyOne; rfl

end stop

@[simp] theorem stop_waiting (s : State D R E) : s.stop.waiting = false := notifyOne_waiting _
@[simp] theorem stop_held (s : State D R E) : s.stop.held = s.held := notifyOne_held _

theorem stop_loopPc (s : State D R E) :
    s.stop.loopPc = if s.waiting then some .wake else s.loopPc :=
  notifyOne_loopPc _

/-! ## What one step can do -/

variable {s s' : State D R E} {a : Action D R E}

theorem step_cases (h : s.step a = some s') :
    (a = .run ∧ s' = { s with calls := s.calls ++ [.check] }) ∨
    (∃ i c, a = .call i ∧ s.toCore.call .head Pc.finished i = some c ∧ s' = { s with toCore := c }) ∨
    (∃ d, a = .notify d ∧ s' = s.notify d) ∨
    (a = .stop ∧ s' = s.stop) ∨
    (∃ pc, a = .loop ∧ s.loopPc = some pc ∧ s.dispatch pc = some s') ∨
    (a = .spurious ∧ s.waiting = true ∧ s' = s.setPc .wake) ∨
    (∃ t r, a = .work r ∧ s.loopPc = some (.work t) ∧ s' = s.work t r) := by
  unfold step at h
  split at h
  · cases h
  cases a with
  | run => exact .inl ⟨rfl, (Option.some.inj h).symm⟩
  | call i =>
    obtain ⟨c, hc, rfl⟩ := Option.map_eq_some'.mp h
    exact .inr (.inl ⟨i, c, rfl, hc, rfl⟩)
  | notify d => exact .inr (.inr (.inl ⟨d, rfl, (Option.some.inj h).symm⟩))
  | stop => exact .inr (.inr (.inr (.inl ⟨rfl, (Option.some.inj h).symm⟩)))
  | loop =>
    obtain ⟨pc, hpc, hd⟩ := Option.bind_eq_some.mp h
    exact .inr (.inr (.inr (.inr (.inl ⟨pc, rfl, hpc, hd⟩))))
  | spurious =>
    simp only [live] at h
    split at h
    · exact .inr (.inr (.inr (.inr (.inr (.inl ⟨rfl, ‹_›, (Option.some.inj h).symm⟩)))))
    · cases h
  | work r =>
    simp only [live] at h
    split at h
    · exact .inr (.inr (.inr (.inr (.inr (.inr ⟨_, r, rfl, ‹_›, (Option.some.inj h).symm⟩)))))
    · cases h

/-- No action is enabled once the process has ended. -/
theorem aborted_of_step (h : s.step a = some s') : s.aborted = false := by
  unfold step at h
  split at h
  · cases h
  · exact Bool.eq_false_iff.mpr ‹_›

theorem step_spurious (h : s.step .spurious = some s') :
    s.aborted = false ∧ s.waiting = true ∧ s' = s.setPc .wake := by
  have hab := aborted_of_step h
  rcases step_cases h with ⟨ha, -⟩ | ⟨_, _, ha, -⟩ | ⟨_, ha, -⟩ | ⟨ha, -⟩ | ⟨_, ha, -⟩ |
    ⟨-, hw, rfl⟩ | ⟨_, _, ha, -⟩
  all_goals first | cases ha | exact ⟨hab, hw, rfl⟩

theorem step_stop (h : s.step .stop = some s') : s' = s.stop := by
  rcases step_cases h with ⟨ha, -⟩ | ⟨_, _, ha, -⟩ | ⟨_, ha, -⟩ | ⟨-, rfl⟩ | ⟨_, ha, -⟩ | ⟨ha, -⟩ |
    ⟨_, _, ha, -⟩
  all_goals first | cases ha | rfl

@[simp] theorem dequeue_running (s : State D R E) : s.dequeue.running = s.running := by
  unfold dequeue; split <;> (try split) <;> rfl

@[simp] theorem dequeue_calls (s : State D R E) : s.dequeue.calls = s.calls := by
  unfold dequeue; split <;> (try split) <;> rfl

@[simp] theorem dequeue_promises (s : State D R E) : s.dequeue.promises = s.promises := by
  unfold dequeue; split <;> (try split) <;> rfl

@[simp] theorem dequeue_aborted (s : State D R E) : s.dequeue.aborted = s.aborted := by
  unfold dequeue; split <;> (try split) <;> rfl

@[simp] theorem fulfil_popped (s : State D R E) (t : Task D) (r : R) :
    (s.fulfil t r).popped = s.popped := by
  unfold fulfil; split <;> rfl

@[simp] theorem fulfil_worked (s : State D R E) (t : Task D) (r : R) :
    (s.fulfil t r).worked = s.worked := by
  unfold fulfil; split <;> rfl

@[simp] theorem fulfil_running (s : State D R E) (t : Task D) (r : R) :
    (s.fulfil t r).running = s.running := by
  unfold fulfil; split <;> rfl

@[simp] theorem fulfil_calls (s : State D R E) (t : Task D) (r : R) :
    (s.fulfil t r).calls = s.calls := by
  unfold fulfil; split <;> rfl

/-- `set_value` moves the loop back to its head, or ends the process where it is. -/
theorem fulfil_loopPc (s : State D R E) (t : Task D) (r : R) :
    (s.fulfil t r).loopPc = some .head ∨ (s.fulfil t r).loopPc = s.loopPc := by
  unfold fulfil; split
  · exact .inl rfl
  · exact .inr rfl

theorem fulfil_cases (s : State D R E) (t : Task D) (r : R) :
    (s.promises[t.id]? = some .pending ∧ s.fulfil t r =
      ({ s with promises := s.promises.set t.id (.value r) } : State D R E).setPc .head) ∨
    s.fulfil t r = { s with aborted := true } := by
  unfold fulfil; split
  · exact .inl ⟨‹_›, rfl⟩
  · exact .inr rfl

/-- The dispatch thread's own steps leave `_running` and the `run()` calls alone. -/
theorem dispatch_core {pc : Pc D R E} (h : s.dispatch pc = some s') :
    s'.running = s.running ∧ s'.calls = s.calls := by
  cases pc with
  | head => cases h; exact ⟨rfl, rfl⟩
  | lock => cases h; split <;> simp
  | wake => cases h; simp
  | fulfil t r => cases h; simp
  | _ => cases h

section work

variable (s : State D R E) (t : Task D) (r : Except E R)

@[simp] theorem work_running : (s.work t r).running = s.running := by cases r <;> rfl
@[simp] theorem work_calls : (s.work t r).calls = s.calls := by cases r <;> rfl
@[simp] theorem work_tasks : (s.work t r).tasks = s.tasks := by cases r <;> rfl
@[simp] theorem work_promises : (s.work t r).promises = s.promises := by cases r <;> rfl
@[simp] theorem work_pushed : (s.work t r).pushed = s.pushed := by cases r <;> rfl
@[simp] theorem work_popped : (s.work t r).popped = s.popped := by cases r <;> rfl
@[simp] theorem work_worked : (s.work t r).worked = s.worked ++ [(t, r)] := by cases r <;> rfl
@[simp] theorem work_held : (s.work t r).held = [] := by cases r <;> rfl

end work

theorem t_of_loopPc {pc : Pc D R E} (h : s.loopPc = some pc) : s.t = some (.started pc) := by
  unfold loopPc at h; split at h <;> simp_all

/-- `_cv.notify_one()` moves the thread `_t` owns at most. -/
theorem notifyOne_t (s : State D R E) :
    s.notifyOne.t = s.t ∨ ∃ pc pc', s.t = some (.started pc) ∧ s.notifyOne.t = some (.started pc') := by
  unfold notifyOne; split
  · exact .inr ⟨_, _, t_of_loopPc (waiting_loopPc ‹_›), rfl⟩
  · exact .inl rfl

theorem dequeue_t (s : State D R E) : ∃ pc, s.dequeue.t = some (.started pc) := by
  unfold dequeue; split
  · split <;> exact ⟨_, rfl⟩
  · exact ⟨_, rfl⟩

/-- The dispatch thread's own steps keep it started. -/
theorem dispatch_loopPc {pc : Pc D R E} (hpc : s.loopPc = some pc) (hd : s.dispatch pc = some s') :
    ∃ pc', s'.t = some (.started pc') := by
  cases pc with
  | head => cases hd; exact ⟨_, rfl⟩
  | lock => cases hd; split; exacts [⟨_, rfl⟩, dequeue_t s]
  | wake => cases hd; exact dequeue_t s
  | fulfil t r =>
    cases hd
    rcases fulfil_cases s t r with ⟨-, hf⟩ | hf <;> rw [hf]
    · exact ⟨_, rfl⟩
    · exact ⟨_, t_of_loopPc hpc⟩
  | _ => cases hd

/-- Every step, as the state both workers share sees it, with what it does to `_t`. -/
theorem step_move (h : s.step a = some s') : Core.Move .head Pc.finished s.toCore s'.toCore := by
  rcases step_cases h with ⟨-, rfl⟩ | ⟨i, c, -, hc, rfl⟩ | ⟨d, -, rfl⟩ | ⟨-, rfl⟩ |
    ⟨pc, -, hpc, hd⟩ | ⟨-, hw, rfl⟩ | ⟨t, r, -, hpc, rfl⟩
  · exact .inl rfl
  · exact .inr (.inl ⟨i, hc⟩)
  · exact .inr (.inr ⟨rfl, id, notifyOne_t _⟩)
  · exact .inr (.inr ⟨rfl, fun h => by simp at h, notifyOne_t _⟩)
  · obtain ⟨h1, h2⟩ := dispatch_core hd
    obtain ⟨pc', ht⟩ := dispatch_loopPc hpc hd
    exact .inr (.inr ⟨h2, fun h => h1 ▸ h, .inr ⟨_, _, t_of_loopPc hpc, ht⟩⟩)
  · exact .inr (.inr ⟨rfl, id, .inr ⟨_, _, t_of_loopPc (waiting_loopPc hw), rfl⟩⟩)
  · obtain ⟨pc', ht⟩ : ∃ pc', (s.work t r).t = some (.started pc') := by
      cases r <;> exact ⟨_, rfl⟩
    exact .inr (.inr ⟨by simp, fun h => by simpa using h, .inr ⟨_, _, t_of_loopPc hpc, ht⟩⟩)

/-- Every step, as the state both workers share sees it. -/
theorem step_core (h : s.step a = some s') : Core.Step .head Pc.finished s.toCore s'.toCore :=
  (step_move h).step

theorem steps_move (h : Relation.ReflTransGen Next s s') :
    Relation.ReflTransGen (Core.Move .head Pc.finished) s.toCore s'.toCore :=
  h.lift _ fun _ _ ⟨_, ha⟩ => step_move ha

theorem steps_core (h : Relation.ReflTransGen Next s s') :
    Relation.ReflTransGen (Core.Step .head Pc.finished) s.toCore s'.toCore :=
  h.lift _ fun _ _ ⟨_, ha⟩ => step_core ha

theorem held_length_le (s : State D R E) : s.held.length ≤ 1 := by
  unfold held; split <;> simp

theorem dequeue_of_not_running (h : s.running = false) : s.dequeue = s.setPc .done := by
  simp [dequeue, h]

end State

end Common.ActiveRunnable
