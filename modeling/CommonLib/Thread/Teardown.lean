import CommonLib.Thread.ActiveRunnable
import CommonLib.Thread.Runnable

/-!
# Destroying a worker

Neither `Runnable` nor `ActiveRunnable` declares a destructor, and none of their bases calls
`stop()`, so dropping a worker runs the implicit destructor: the derived object's, then the
members in reverse order of declaration (`ActiveRunnable`, Runnable.hpp:220-238: `_name`,
`_priority`, `_tasks`, `_cv`, `_notifyLock`, `_running`; `Runnable`, :49-56: `_name`,
`_priority`, `_running`), and last `_t`, whose deleter (`Thread::__create`, Thread.cpp:130-136)
joins the thread `run()` started.

`Teardown` follows one worker through this. `destroy` is the implicit destructor up to the
deleter, and `release` is `join()` returning and `delete obj`. Past `destroy` only the thread
`run()` started runs on: calling into a destroyed object is the caller's error, and a `run()`
call still inside the object, or the dispatch thread blocked on `_cv` (whose destructor requires
that no thread waits on it), makes `destroy` undefined by itself. A step of the thread that
reads a destroyed member (`_running`, `_notifyLock`, `_cv`, `_tasks`) is undefined behaviour;
`ub` records it, and the model says nothing past it.

The thread leaves its loop only through such a read, so a thread that has not returned stays
so until undefined behaviour (`Holds`): destroying a worker completes without undefined
behaviour exactly when its thread has returned or never started and no `run()` call is inside
it (`completes_iff`). A worker dropped while running, without `stop()`, is not joined safely
(`ActiveRunnable.State.destroy_completes_iff`, `Runnable.State.destroy_returns_iff`); the tests'
pattern, `stop()` and waiting on the future `run()` returned before the worker goes out of
scope, is (`Runnable.State.completes_of_future`).
-/

namespace Common

/-- The `run()` call is still executing inside the worker. -/
def Call.active : Call → Bool
  | .check | .store | .create | .start => true
  | .returned | .threw => false

/-- How far the destruction of a worker is. -/
inductive Phase where
  /-- not destroyed -/
  | live
  /-- every member but `_t` destroyed; `_t`'s deleter is in `join()` -/
  | joining
  /-- `join()` has returned and the deleter has deleted the `ThreadDetail` -/
  | freed
  deriving DecidableEq, Repr

/-- What the destruction of a worker needs of its model: states `W`, actions `A`. -/
structure Destruction (W A : Type) where
  /-- one action of the worker's threads -/
  step : W → A → Option W
  /-- the action is a step of the thread `run()` started -/
  byThread : A → Bool
  /-- the deleter's `join()` would block -/
  busy : W → Bool
  /-- the thread's next step reads a member the destructor destroys -/
  usesMembers : W → Bool
  /-- destroying the worker now is undefined by itself -/
  destroyUb : W → Bool
  /-- `std::terminate` has ended the process -/
  ended : W → Bool

/-- A worker, how far its destruction is, and whether undefined behaviour has happened. -/
structure Teardown (W : Type) where
  w : W
  phase : Phase
  ub : Bool

namespace Teardown

/-- What can happen next. -/
inductive Action (A : Type) where
  /-- an action of the worker's threads -/
  | worker (a : A)
  /-- the owner drops the worker: the implicit destructor, up to `_t`'s deleter -/
  | destroy
  /-- the deleter's `join()` returns, then `delete obj` -/
  | release

variable {W A : Type} (M : Destruction W A)

/-- The worker `w`, not destroyed. -/
def live (w : W) : Teardown W := ⟨w, .live, false⟩

/-- One action; nothing is modelled past undefined behaviour. -/
def step (τ : Teardown W) (x : Action A) : Option (Teardown W) :=
  if τ.ub then none else
  match x, τ.phase with
  | .worker a, .live => (M.step τ.w a).map fun w => ⟨w, .live, false⟩
  | .worker a, .joining =>
    if M.byThread a then (M.step τ.w a).map fun w => ⟨w, .joining, M.usesMembers τ.w⟩ else none
  | .destroy, .live => if M.ended τ.w then none else some ⟨τ.w, .joining, M.destroyUb τ.w⟩
  | .release, .joining => if M.busy τ.w then none else some ⟨τ.w, .freed, false⟩
  | _, _ => none

/-- The actions in turn, stopping at the first that cannot happen. -/
def exec (τ : Teardown W) (xs : List (Action A)) : Option (Teardown W) := runSteps (step M) τ xs

/-- `τ'` is one action after `τ`. -/
def Next (τ τ' : Teardown W) : Prop := ∃ x, τ.step M x = some τ'

/-- Destroying `w` now can complete, `join()` returning, without undefined behaviour. -/
def Completes (w : W) : Prop :=
  ∃ xs τ, (live w).exec M (.destroy :: xs) = some τ ∧ τ.phase = .freed ∧ τ.ub = false

/-- Past `destroy`, while nothing undefined has happened, the thread has not returned and the
deleter is still in `join()`. -/
def Holds (τ : Teardown W) : Prop :=
  τ.phase ≠ .live ∧ (τ.ub = false → M.busy τ.w = true ∧ τ.phase = .joining)

section Returns

/- The thread leaves its loop only by reading a member: a step of it that reads none does
not make it return. -/
variable (hret : ∀ w a w', M.byThread a = true → M.step w a = some w' → M.busy w = true →
  M.usesMembers w = false → M.busy w' = true)
include hret

theorem Holds.step {τ τ' : Teardown W} {x : Action A} (hh : Holds M τ)
    (h : τ.step M x = some τ') : Holds M τ' := by
  obtain ⟨w, ph, ub⟩ := τ
  cases ub
  case true => simp [Teardown.step] at h
  obtain ⟨hb, rfl⟩ := hh.2 rfl
  cases x with
  | worker a =>
    simp only [Teardown.step, Bool.false_eq_true, ite_false] at h
    split at h
    · obtain ⟨w', hw', rfl⟩ := Option.map_eq_some'.mp h
      exact ⟨nofun, fun hm => ⟨hret w a w' ‹_› hw' hb hm, rfl⟩⟩
    · cases h
  | destroy => simp [Teardown.step] at h
  | release => simp [Teardown.step, hb] at h

theorem Holds.run {τ τ' : Teardown W} (hh : Holds M τ)
    (h : Relation.ReflTransGen (Next M) τ τ') : Holds M τ' := by
  induction h with
  | refl => exact hh
  | tail _ hn ih => obtain ⟨x, hx⟩ := hn; exact ih.step M hret hx

/-- Destroying `w` completes without undefined behaviour exactly when the deleter's `join()`
would not block and destroying `w` is not undefined by itself. -/
theorem completes_iff {w : W} (he : M.ended w = false) :
    Completes M w ↔ M.busy w = false ∧ M.destroyUb w = false := by
  constructor
  · rintro ⟨xs, τ, h, hf, hu⟩
    simp only [exec, runSteps, Teardown.step, live, he, Bool.false_eq_true, ite_false,
      Option.some_bind] at h
    by_contra hc
    have h₁ : Holds M ⟨w, .joining, M.destroyUb w⟩ :=
      ⟨by simp, fun (hu₁ : M.destroyUb w = false) => ⟨by simpa [hu₁] using hc, rfl⟩⟩
    have hτ := (h₁.run M hret (runSteps_reachable _ h)).2 hu
    simp [hf] at hτ
  · rintro ⟨hb, hu⟩
    exact ⟨[.release], ⟨w, .freed, false⟩, by simp [exec, runSteps, Teardown.step, live, he, hu, hb],
      rfl, rfl⟩

end Returns

end Teardown

/-! ## `ActiveRunnable` -/

namespace ActiveRunnable

variable {D R E : Type}

/-- The dispatch thread's next step reads a member: `_running.load()` at the loop's head,
`_notifyLock` and `_tasks` at the lock and on waking, `_cv` while it waits. From `work` it
returns from `__work`, and from `fulfil` it calls `set_value` through the promise it copied
out of the task: neither reads a member. -/
def Pc.usesMembers : Pc D R E → Bool
  | .head | .lock | .wait | .wake => true
  | _ => false

/-- The action is a step of the dispatch thread. -/
def Action.byThread : Action D R E → Bool
  | .loop | .spurious | .work _ => true
  | _ => false

namespace State

variable {s s' : State D R E} {a : Action D R E}

/-- The dispatch thread's next step reads a member. -/
def usesMembers (s : State D R E) : Bool := (s.loopPc.map Pc.usesMembers).getD false

/-- Destroying now is undefined by itself: `~condition_variable` with the dispatch thread
waiting, or the object destroyed under a `run()` call. -/
def destroyUb (s : State D R E) : Bool := s.waiting || s.calls.any Call.active

/-- An `ActiveRunnable` as its destructor and `_t`'s deleter see it. -/
def destruction : Destruction (State D R E) (Action D R E) :=
  ⟨step, Action.byThread, fun s => s.toCore.busy Pc.finished, usesMembers, destroyUb,
    fun s => s.aborted⟩

/-- The dispatch thread returns only through a step that reads a member. -/
theorem busy_of_thread_step (ha : a.byThread = true) (h : s.step a = some s')
    (hb : s.toCore.busy Pc.finished = true) (hm : s.usesMembers = false) :
    s'.toCore.busy Pc.finished = true := by
  rcases step_cases h with ⟨rfl, -⟩ | ⟨i, c, rfl, -⟩ | ⟨d, rfl, -⟩ | ⟨rfl, -⟩ |
    ⟨pc, rfl, hpc, hd⟩ | ⟨rfl, hw, rfl⟩ | ⟨t, r, rfl, hpc, rfl⟩
  -- `run`, `call`, `notify` and `stop` are not the thread's
  all_goals try cases ha
  · cases pc with
    | fulfil t r =>
      cases hd
      rcases fulfil_cases s t r with ⟨-, hf⟩ | hf <;> rw [hf]
      · simp [Core.busy, Pc.finished]
      · simpa [Core.busy] using hb
    | head | lock | wake => simp [usesMembers, hpc, Pc.usesMembers] at hm
    | _ => cases hd
  · simp [usesMembers, waiting_loopPc hw, Pc.usesMembers] at hm
  · cases r <;> simp [busy_eq, work, Pc.finished]

theorem not_waiting_of_busy (hb : s.toCore.busy Pc.finished = false) : s.waiting = false := by
  cases hw : s.waiting
  · rfl
  · simp [busy_eq, waiting_loopPc hw, Pc.finished] at hb

/-- Destroying an `ActiveRunnable` completes without undefined behaviour exactly when the
dispatch thread has returned or was never started and no `run()` call is inside it. Dropped
while running, with no `stop()`, it is not: the loop reads `_running` only after the
destructor has destroyed it. -/
theorem destroy_completes_iff (hab : s.aborted = false) :
    Teardown.Completes destruction s ↔
      s.toCore.busy Pc.finished = false ∧ ∀ c ∈ s.calls, c.active = false := by
  rw [Teardown.completes_iff destruction (fun _ _ _ => busy_of_thread_step) hab]
  exact and_congr_right fun hb => by simp [destruction, destroyUb, not_waiting_of_busy hb]

/-- One `run()`, no task and no `stop()`: the dispatch thread blocked on the empty queue. -/
def idle : State Nat Nat Unit := ⟨⟨true, some (.started .wait), [.returned], false⟩, [], [], [], [], []⟩

theorem destroy_completes_iff_idle : ¬Teardown.Completes destruction idle :=
  fun h => absurd ((destroy_completes_iff (s := idle) rfl).mp h).1 (by decide)

end State

end ActiveRunnable

/-! ## `Runnable` -/

namespace Runnable

variable {E : Type}

/-- The thread's next step reads `_running`: only the loop's test does; from `work` it returns
from `__work()`. -/
def Pc.usesMembers : Pc E → Bool
  | .head => true
  | _ => false

/-- The action is a step of the thread `run()` started. -/
def Action.byThread : Action E → Bool
  | .loop | .work _ => true
  | _ => false

namespace State

variable {s s' : State E} {a : Action E}

/-- The thread's next step reads a member. -/
def usesMembers (s : State E) : Bool := (s.loopPc.map Pc.usesMembers).getD false

/-- Destroying now is undefined by itself: the object destroyed under a `run()` call. -/
def destroyUb (s : State E) : Bool := s.calls.any Call.active

/-- A `Runnable` as its destructor and `_t`'s deleter see it. -/
def destruction : Destruction (State E) (Action E) :=
  ⟨step, Action.byThread, fun s => s.toCore.busy Pc.finished, usesMembers, destroyUb,
    fun s => s.aborted⟩

/-- The thread returns only through the loop's test of `_running`. -/
theorem busy_of_thread_step (ha : a.byThread = true) (h : s.step a = some s')
    (_hb : s.toCore.busy Pc.finished = true) (hm : s.usesMembers = false) :
    s'.toCore.busy Pc.finished = true := by
  rcases step_cases h with ⟨rfl, -⟩ | ⟨i, c, rfl, -⟩ | ⟨rfl, -⟩ | ⟨rfl, hpc, rfl⟩ |
    ⟨r, rfl, hpc, rfl⟩
  -- `run`, `call` and `stop` are not the thread's
  all_goals try cases ha
  · simp [usesMembers, hpc, Pc.usesMembers] at hm
  · cases r <;> simp [Core.busy, work, setPc, Pc.finished]

/-- Destroying a `Runnable` completes without undefined behaviour exactly when its thread has
returned or was never started and no `run()` call is inside it. -/
theorem destroy_returns_iff (hab : s.aborted = false) :
    Teardown.Completes destruction s ↔
      s.toCore.busy Pc.finished = false ∧ ∀ c ∈ s.calls, c.active = false := by
  rw [Teardown.completes_iff destruction (fun _ _ _ => busy_of_thread_step) hab]
  simp [destruction, destroyUb]

theorem destroy_returns_iff_working : ¬Teardown.Completes destruction working :=
  fun h => absurd ((destroy_returns_iff (s := working) rfl).mp h).1 (by decide)

/-- The tests' pattern: once the future the only `run()` call returned is set (`stop()`, then
waiting on it), destroying the `Runnable` completes. -/
theorem completes_of_future (h : Reachable s) (hone : s.calls.length ≤ 1)
    (hf : s.future = .value ()) (hab : s.aborted = false) :
    Teardown.Completes destruction s := by
  have ht : s.t = some (.started .done) := by
    unfold future at hf
    rcases ht : s.t with _ | _ | pc <;> simp only [ht] at hf
    · cases hf
    · cases hf
    · cases pc <;> first | rfl | cases hf
  refine (Teardown.completes_iff destruction (fun _ _ _ => busy_of_thread_step) hab).mpr
    ⟨by simp [destruction, Core.busy, ht, Pc.finished], ?_⟩
  have hs := (reachable_oneRun h hone).solo
  rcases hc : s.calls with _ | ⟨x, _ | ⟨y, l⟩⟩ <;> rw [Core.Solo, hc] at hs
  · simp [destruction, destroyUb, hc]
  · cases x <;> simp_all [destruction, destroyUb, Call.active]
  · simp [hc] at hone

end State

end Runnable

end Common
