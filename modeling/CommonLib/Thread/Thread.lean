import Mathlib.Logic.Basic

/-!
# Thread

`common::Thread` and its only implementation `detail::ThreadDetail` (Thread.hpp,
Thread.cpp), as the workers of `Runnable.hpp` use them.

* `Promise` is the shared state of a `std::promise` and its `std::future`.
* `Thread.Handle` is one `ThreadDetail` as the worker's `_t` owns it: `start` not yet called,
  or its `std::thread` running a body that is now at some place `pc`. `ThreadDetail::start`
  runs `work(); _promise.set_value();`, so the handle's future holds a value exactly when the
  body has returned (`Handle.future`); nothing in the file ever calls `set_exception`.
* `Handle.busy` is when the deleter installed by `Thread::__create` blocks in `join()`.
* `setPriority` is `ThreadDetail::set_priority`, whose two platform branches differ only in
  the priority they compare with the default and in the OS call they test against `false`.
-/

namespace Common

/-- The shared state of a `std::promise` and of the `std::future` it hands out. -/
inductive Promise (R E : Type) where
  | pending
  | value (r : R)
  | error (e : E)
  deriving DecidableEq, Repr

namespace Thread

/-- A `detail::ThreadDetail` made by `Thread::__create()`: `start` not yet called, or its
`std::thread` started on a body now at `pc`. -/
inductive Handle (L : Type) where
  | fresh
  | started (pc : L)
  deriving DecidableEq, Repr

variable {L : Type}

/-- The deleter of `Thread::__create` runs `obj->join()`, which blocks while the thread is
joinable and its body has not returned. -/
def Handle.busy (finished : L → Bool) : Handle L → Bool
  | .fresh => false
  | .started pc => !finished pc

/-- The future `start` returned: `_promise.set_value()` runs once `work()` has returned. -/
def Handle.future {E : Type} (finished : L → Bool) : Handle L → Promise Unit E
  | .started pc => if finished pc then .value () else .pending
  | .fresh => .pending

/-- `_thread.joinable()`: the worker drops a handle before its deleter joins the thread. -/
def Handle.joinable : Handle L → Bool
  | .fresh => false
  | .started _ => true

@[simp] theorem Handle.busy_fresh (finished : L → Bool) : Handle.fresh.busy finished = false := rfl

@[simp] theorem Handle.busy_started (finished : L → Bool) (pc : L) :
    (Handle.started pc).busy finished = !finished pc := rfl

/-! ## `set_priority` -/

/-- `Thread::Policies::type` on LINUX; `DEFAULT` and `OTHER` are both `SCHED_OTHER`. -/
inductive Policy where
  | other
  | fifo
  | rr
  | batch
  | idle
  deriving DecidableEq, Repr

/-- `Thread::Priority` on LINUX: `std::tuple<Policies::type, Level::type>`. -/
def LinuxPriority : Type := Policy × UInt8

instance : DecidableEq LinuxPriority := inferInstanceAs (DecidableEq (Policy × UInt8))

/-- `{Policies::DEFAULT, Level::DEFAULT}`. -/
def LinuxPriority.DEFAULT : LinuxPriority := (.other, 0)

/-- `ThreadDetail::set_priority` (Thread.cpp:77-111), both branches: the result and the new
cached `_priority`. `joinable` is `_thread.joinable()`; `p ≠ dflt` is the branch's test
against the default; `os` is what the OS call returns, compared with `false`. -/
def setPriority {P : Type} [DecidableEq P] (dflt : P) (joinable : Bool) (cached p : P)
    (os : Int) : Bool × P :=
  if !joinable then (true, p)
  else if p ≠ dflt then
    if (0 : Int) = os then (false, cached) else (true, p)
  else (true, cached)

/-- The LINUX branch: `sched_setscheduler` returns `0` on success and `-1` on failure. -/
def setPriorityLinux (joinable : Bool) (cached p : LinuxPriority) (ok : Bool) :
    Bool × LinuxPriority :=
  setPriority LinuxPriority.DEFAULT joinable cached p (if ok then 0 else -1)

/-- The WIN32 branch, `Priority` being `Policies::type`; `normal` is
`THREAD_PRIORITY_NORMAL` (`Policies::DEFAULT`); `SetThreadPriority` returns a nonzero `BOOL`
on success and `0` on failure. -/
def setPriorityWin32 (normal : Int) (joinable : Bool) (cached p : Int) (ok : Bool) :
    Bool × Int :=
  setPriority normal joinable cached p (if ok then 1 else 0)

/-- On LINUX, for a started thread and a priority other than the default, `set_priority`
reports failure exactly when `sched_setscheduler` succeeded, and caches the new priority
exactly when it failed: `false == sched_setscheduler(...)` holds on `0`, its success value. -/
theorem setPriorityLinux_inverted (cached p : LinuxPriority) (hp : p ≠ LinuxPriority.DEFAULT)
    (ok : Bool) : setPriorityLinux true cached p ok = if ok then (false, cached) else (true, p) := by
  cases ok <;> simp [setPriorityLinux, setPriority, hp]

/-- `set_priority({FIFO, 10})` on a started thread, with `sched_setscheduler` succeeding. -/
example : setPriorityLinux true LinuxPriority.DEFAULT (.fifo, 10) true =
    (false, LinuxPriority.DEFAULT) := by decide

/-- On WIN32 the same test reports the OS call's outcome: `SetThreadPriority` returns a
nonzero `BOOL` on success. -/
theorem setPriorityWin32_reports (normal cached p : Int) (hp : p ≠ normal) (ok : Bool) :
    setPriorityWin32 normal true cached p ok = if ok then (true, p) else (false, cached) := by
  cases ok <;> simp [setPriorityWin32, setPriority, hp]

end Thread

end Common
