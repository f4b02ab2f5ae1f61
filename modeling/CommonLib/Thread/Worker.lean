import CommonLib.Thread.Thread
import Mathlib.Logic.Relation

/-!
# Worker

What `Runnable` and `ActiveRunnable` share (Runnable.hpp): the flag `_running`, the handle
`_t`, and `run()`, whose code is the same in both classes (:68-79 and :249-257).

A `run()` call is not atomic: it loads `_running`, stores it, replaces `_t` and starts the
new handle, and other threads run between these steps; `Core.call` is one step of one call.

`_t = Thread::create()` move-assigns the fresh handle into `_t` and then drops the old one,
whose deleter joins its thread. `Call.create` takes the two in the other order: it waits
until the old thread has returned, then stores the fresh handle. The orders differ only for
another thread's access to `_t` while the deleter joins, and no such access is ordered after
the store, since the joining call makes no release between the store and the end of the
join: it is a data race on `_t` (a second `run()` after `stop()` writing it, `set_priority`
or `set_name` reading it after `_running.load()`). An access ordered before the store reads
the old handle, as in the model. So the model is the source's race-free executions. With
`run()` called once `_t` is still empty when the call replaces it (`EmptyBeforeCreate`), and
the two orders agree outright; in the source a second `run()` racing the join replaces `_t`
unblocked and starts a second dispatch thread, which the model has no place for. What depends
on there being one dispatch thread is therefore stated for one `run()` call.

In the model a handle is dropped only once its thread has returned or if it was never
started, so `Core.t` is the one thread of the worker that can still be running.
-/

namespace Common

open Thread

/-- Where a `run()` call is. -/
inductive Call where
  /-- `if(_running.load()) throw AlreadyRunningException();` -/
  | check
  /-- `_running.store(true);` -/
  | store
  /-- `_t = Thread::create();`, taken as the old handle's deleter joining its thread and then
  the fresh handle stored (see the module docstring) -/
  | create
  /-- `_t->set_priority(_priority); _t->set_name(_name); return _t->start(...);` -/
  | start
  /-- returned the future of the thread it started -/
  | returned
  /-- raised `AlreadyRunningException` -/
  | threw
  deriving DecidableEq, Repr

/-- The call has passed `_running.store(true)`. -/
def Call.stored : Call → Bool
  | .create | .start | .returned => true
  | _ => false

/-- The call has passed `_t = Thread::create()`. -/
def Call.created : Call → Bool
  | .start | .returned => true
  | _ => false

/-- The state both workers have. `L` is where the body of a started thread is. -/
structure Core (L : Type) where
  /-- `_running` -/
  running : Bool
  /-- `_t` -/
  t : Option (Handle L)
  /-- the `run()` calls made so far, oldest first -/
  calls : List Call
  /-- `std::terminate` has ended the process -/
  aborted : Bool
  deriving DecidableEq, Repr

namespace Core

variable {L : Type}

/-- A worker as constructed: not running, `_t` empty. -/
def init : Core L := ⟨false, none, [], false⟩

/-- The deleter's `join()` of the thread `_t` owns would block. -/
def busy (finished : L → Bool) (c : Core L) : Bool := (c.t.map (Handle.busy finished)).getD false

/-- One step of the `i`-th `run()` call; a started thread begins at `body`, `finished` says
whether a body has returned. `none`: no such call, the call is over, or it blocks in `join()`.
`.create` stores the fresh handle once the old one's `join()` would no longer block. -/
def call (body : L) (finished : L → Bool) (c : Core L) (i : Nat) : Option (Core L) :=
  match c.calls[i]? with
  | some .check => some { c with calls := c.calls.set i (if c.running then .threw else .store) }
  | some .store => some { c with running := true, calls := c.calls.set i .create }
  | some .create =>
    if c.busy finished then none else some { c with t := some .fresh, calls := c.calls.set i .start }
  | some .start =>
    match c.t with
    | some .fresh => some { c with t := some (.started body), calls := c.calls.set i .returned }
    -- `start` on a handle already started: `_promise.get_future()` throws inside a
    -- `noexcept` function
    | _ => some { c with aborted := true }
  | _ => none

variable {body : L} {finished : L → Bool} {c c' : Core L} {i : Nat}

/-- Everything one step of a `run()` call can do. -/
theorem call_cases (h : c.call body finished i = some c') :
    (c.calls[i]? = some .check ∧
      c' = { c with calls := c.calls.set i (if c.running then .threw else .store) }) ∨
    (c.calls[i]? = some .store ∧ c' = { c with running := true, calls := c.calls.set i .create }) ∨
    (c.calls[i]? = some .create ∧ c.busy finished = false ∧
      c' = { c with t := some .fresh, calls := c.calls.set i .start }) ∨
    (c.calls[i]? = some .start ∧ c.t = some .fresh ∧
      c' = { c with t := some (.started body), calls := c.calls.set i .returned }) ∨
    (c.calls[i]? = some .start ∧ c.t ≠ some .fresh ∧ c' = { c with aborted := true }) := by
  unfold call at h
  split at h
  · exact .inl ⟨‹_›, (Option.some.inj h).symm⟩
  · exact .inr (.inl ⟨‹_›, (Option.some.inj h).symm⟩)
  · split at h
    · cases h
    · rename_i hc hb
      exact .inr (.inr (.inl ⟨hc, Bool.eq_false_iff.mpr hb, (Option.some.inj h).symm⟩))
  · split at h
    · exact .inr (.inr (.inr (.inl ⟨‹_›, ‹_›, (Option.some.inj h).symm⟩)))
    · exact .inr (.inr (.inr (.inr ⟨‹_›, ‹_›, (Option.some.inj h).symm⟩)))
  · cases h

/-- Only `_running.store(true)` writes the flag, and the call moves past its store. -/
theorem call_running (h : c.call body finished i = some c') :
    c'.running = c.running ∨
      (c.calls[i]? = some .store ∧ c'.calls[i]? = some .create ∧ c'.running = true) := by
  rcases call_cases h with ⟨-, rfl⟩ | ⟨hi, rfl⟩ | ⟨-, -, rfl⟩ | ⟨-, -, rfl⟩ | ⟨-, -, rfl⟩
  · exact .inl rfl
  · exact .inr ⟨hi, by simp [List.getElem?_set', hi], rfl⟩
  all_goals exact .inl rfl

/-- A call's steps keep the number of calls, and a call past its store stays past it. -/
theorem call_calls (h : c.call body finished i = some c') :
    c'.calls.length = c.calls.length ∧
      ∀ (j : Nat) (x : Call), c.calls[j]? = some x → x.stored →
        ∃ y : Call, c'.calls[j]? = some y ∧ y.stored := by
  rcases call_cases h with ⟨hi, rfl⟩ | ⟨hi, rfl⟩ | ⟨hi, -, rfl⟩ | ⟨hi, -, rfl⟩ | ⟨-, -, rfl⟩ <;>
    refine ⟨by simp, fun j x hj hx => ?_⟩
  all_goals
    first
    | exact ⟨x, hj, hx⟩
    | by_cases hij : i = j
      · subst hij; rw [hi] at hj; cases hj; simp_all [List.getElem?_set', Call.stored]
      · exact ⟨x, by rwa [List.getElem?_set_ne hij], hx⟩

/-! ## `_running` over a run -/

/-- Some `run()` call has passed `_running.store(true)`. -/
def HasStored (c : Core L) : Prop :=
  ∃ (j : Nat) (x : Call), c.calls[j]? = some x ∧ x.stored = true

/-- A step of any thread as the state both workers share sees it: a new `run()` call, one
step of a call, or a step that keeps the calls and can only clear `_running`. -/
def Step (body : L) (finished : L → Bool) (c c' : Core L) : Prop :=
  c' = { c with calls := c.calls ++ [.check] } ∨ (∃ i, c.call body finished i = some c') ∨
    (c'.calls = c.calls ∧ (c'.running = true → c.running = true))

theorem Step.calls_length (h : Step body finished c c') : c.calls.length ≤ c'.calls.length := by
  rcases h with rfl | ⟨i, hi⟩ | ⟨hc, -⟩
  · simp
  · exact Nat.le_of_eq (call_calls hi).1.symm
  · exact Nat.le_of_eq (congrArg List.length hc).symm

theorem Step.hasStored (h : Step body finished c c') (hc : c.running = true → c.HasStored) :
    c'.running = true → c'.HasStored := by
  intro hr
  rcases h with rfl | ⟨i, hi⟩ | ⟨hcalls, hrun⟩
  · obtain ⟨j, x, hj, hx⟩ := hc hr
    exact ⟨j, x, by rw [List.getElem?_append_left (List.getElem?_eq_some_iff.mp hj).1]; exact hj, hx⟩
  · rcases call_running hi with hrun | ⟨-, hi', -⟩
    · obtain ⟨j, x, hj, hx⟩ := hc (hrun ▸ hr)
      obtain ⟨y, hy, hys⟩ := (call_calls hi).2 j x hj hx
      exact ⟨j, y, hy, hys⟩
    · exact ⟨i, _, hi', rfl⟩
  · obtain ⟨j, x, hj, hx⟩ := hc (hrun hr)
    exact ⟨j, x, by rw [hcalls]; exact hj, hx⟩

theorem steps_calls_length (h : Relation.ReflTransGen (Step body finished) c c') :
    c.calls.length ≤ c'.calls.length := by
  induction h with
  | refl => exact Nat.le_refl _
  | tail _ hs ih => exact Nat.le_trans ih hs.calls_length

/-- `_running` is set only once a `run()` call has stored it. -/
theorem running_stored (h : Relation.ReflTransGen (Step body finished) init c) :
    c.running = true → c.HasStored := by
  induction h with
  | refl => intro hr; cases hr
  | tail _ hs ih => exact hs.hasStored ih

/-- A new `run()` call leaves at most one call only if there was none. -/
theorem calls_nil_of_run {l : List Call} (h : (l ++ [Call.check]).length ≤ 1) : l = [] :=
  List.length_eq_zero.mp (by rw [List.length_append, List.length_singleton] at h; omega)

/-- Every `run()` call has passed its store. -/
def AllStored (c : Core L) : Prop :=
  ∀ (j : Nat) (x : Call), c.calls[j]? = some x → x.stored = true

/-- Moving a call to a place past its store keeps every call past it. -/
theorem AllStored.set (h : c.AllStored) {i : Nat} {y : Call} (hc : c'.calls = c.calls.set i y)
    (hy : y.stored = true) : c'.AllStored := by
  intro j x hj
  rw [hc, List.getElem?_set'] at hj
  split at hj
  · obtain ⟨_, -, rfl⟩ := Option.map_eq_some'.mp hj; exact hy
  · exact h j x hj

theorem HasStored.nonempty (h : c.HasStored) : c.calls ≠ [] := by
  obtain ⟨j, x, hj, -⟩ := h
  rintro hc; simp [hc] at hj

/-- With one `run()` call, the call that has stored the flag is every call. -/
theorem HasStored.allStored (h : c.HasStored) (hone : c.calls.length ≤ 1) : c.AllStored := by
  obtain ⟨i, y, hi, hy⟩ := h
  intro j x hj
  have := (List.getElem?_eq_some_iff.mp hi).1
  have := (List.getElem?_eq_some_iff.mp hj).1
  obtain rfl : j = i := by omega
  rw [hi] at hj; cases hj; exact hy

/-! ## `_t` over a run -/

/-- A step of a thread other than the `run()` callers (the thread `_t` owns, `stop()`, the
producers): it keeps the calls, can only clear `_running`, and changes `_t` only by moving the
body of the thread it owns. -/
def Other (c c' : Core L) : Prop :=
  c'.calls = c.calls ∧ (c'.running = true → c.running = true) ∧
    (c'.t = c.t ∨ ∃ pc pc', c.t = some (.started pc) ∧ c'.t = some (.started pc'))

/-- `Step`, with what the steps of the other threads do to `_t`. -/
def Move (body : L) (finished : L → Bool) (c c' : Core L) : Prop :=
  c' = { c with calls := c.calls ++ [.check] } ∨ (∃ i, c.call body finished i = some c') ∨
    Other c c'

theorem Move.step (h : Move body finished c c') : Step body finished c c' := by
  rcases h with h | h | ⟨hc, hr, -⟩
  exacts [.inl h, .inr (.inl h), .inr (.inr ⟨hc, hr⟩)]

/-- `_t` is empty only while no `run()` call has passed `_t = Thread::create()`. -/
def EmptyBeforeCreate (c : Core L) : Prop := c.t = none → ∀ x ∈ c.calls, x.created = false

theorem EmptyBeforeCreate.move (he : c.EmptyBeforeCreate) (h : Move body finished c c') :
    c'.EmptyBeforeCreate := by
  intro ht x hx
  rcases h with rfl | ⟨i, hi⟩ | ⟨hc, -, htt | ⟨pc, pc', -, htt⟩⟩
  · rcases List.mem_append.mp hx with hx | hx
    · exact he ht x hx
    · rw [List.mem_singleton.mp hx]; rfl
  · rcases call_cases hi with ⟨-, rfl⟩ | ⟨-, rfl⟩ | ⟨-, -, rfl⟩ | ⟨-, -, rfl⟩ | ⟨-, -, rfl⟩
    · rcases List.mem_or_eq_of_mem_set hx with hx | rfl
      · exact he ht x hx
      · split <;> rfl
    · rcases List.mem_or_eq_of_mem_set hx with hx | rfl
      · exact he ht x hx
      · rfl
    · cases ht
    · cases ht
    · exact he ht x hx
  · rw [htt] at ht; exact he ht x (hc ▸ hx)
  · rw [htt] at ht; cases ht

theorem moves_emptyBeforeCreate (h : Relation.ReflTransGen (Move body finished) init c) :
    c.EmptyBeforeCreate := by
  induction h with
  | refl => intro _ x hx; cases hx
  | tail _ hs ih => exact ih.move hs

/-- With `_t` empty, a call past its store has not yet replaced `_t`. -/
theorem EmptyBeforeCreate.create (he : c.EmptyBeforeCreate) (ht : c.t = none)
    (hs : c.HasStored) : ∃ i : Nat, c.calls[i]? = some .create := by
  obtain ⟨i, x, hi, hx⟩ := hs
  have hc := he ht x (List.getElem?_mem hi)
  cases x <;> first | exact ⟨i, hi⟩ | exact absurd hx (by decide) | exact absurd hc (by decide)

/-! ## One `run()` call -/

theorem eq_singleton_of_getElem? {l : List Call} {i : Nat} {x : Call} (h : l[i]? = some x)
    (hl : l.length ≤ 1) : i = 0 ∧ l = [x] := by
  have hi := (List.getElem?_eq_some_iff.mp h).1
  have hl1 : l.length = 1 := by omega
  obtain ⟨y, rfl⟩ := List.length_eq_one.mp hl1
  obtain rfl : i = 0 := by simp at hi; omega
  simp at h
  exact ⟨rfl, by rw [h]⟩

/-- Where the only `run()` call is says what `_running` and `_t` hold: the flag is set by its
store, `_t` holds a handle once it has made one, and the call never throws. -/
def Solo (c : Core L) : Prop :=
  match c.calls with
  | [] | [.check] | [.store] => c.running = false ∧ c.t = none
  | [.create] => c.t = none
  | [.start] => c.t = some .fresh
  | [.returned] => ∃ pc, c.t = some (.started pc)
  | _ => False

theorem Solo.move (hs : c.Solo) (h : Move body finished c c') (hone : c'.calls.length ≤ 1) :
    c'.Solo := by
  rcases h with rfl | ⟨i, hi⟩ | ⟨hc, hr, ht⟩
  · simp only [Solo, calls_nil_of_run hone] at hs ⊢
    exact hs
  · have hl : c.calls.length ≤ 1 := (call_calls hi).1 ▸ hone
    rcases call_cases hi with ⟨hx, rfl⟩ | ⟨hx, rfl⟩ | ⟨hx, -, rfl⟩ | ⟨hx, -, rfl⟩ | ⟨hx, hf, rfl⟩ <;>
      obtain ⟨rfl, hcl⟩ := eq_singleton_of_getElem? hx hl <;> simp_all [Solo]
  · rw [Solo, hc]
    rw [Solo] at hs
    rcases ht with ht | ⟨pc, pc', hpc, ht⟩ <;> split at hs <;> simp_all

theorem Solo.run (hs : c.Solo) (h : Relation.ReflTransGen (Move body finished) c c')
    (hone : c'.calls.length ≤ 1) : c'.Solo := by
  induction h with
  | refl => exact hs
  | tail _ hm ih => exact (ih (Nat.le_trans hm.step.calls_length hone)).move hm hone

/-! ## `set_priority` and `set_name` -/

/-- What `set_priority` and `set_name` of either worker do once they have kept their argument
(Runnable.hpp:111, :138, :384, :411): `idle` while `_running` is clear, else `f` of the handle
`_t` owns; `none` is a call through an empty `_t`. -/
def viaT {β : Type} (c : Core L) (idle : β) (f : Handle L → β) : Option β :=
  if c.running then c.t.map f else some idle

/-- `set_priority(priority)` on LINUX (Runnable.hpp:108-113, :381-386): `false` while
`_running` is clear, else what `_t->set_priority(priority)` returns, `ok` being the outcome of
`sched_setscheduler`. The result depends on neither the worker's `_priority` nor the cached one
of the handle, so neither is kept. -/
def setPriority (c : Core L) (p : LinuxPriority) (ok : Bool) : Option Bool :=
  c.viaT false fun h => (setPriorityLinux h.joinable LinuxPriority.DEFAULT p ok).1

/-- `set_name(name)` (Runnable.hpp:135-139, :408-412): `_t->set_name(name)` while `_running`
is set. -/
def setName (c : Core L) : Option Unit := c.viaT () fun _ => ()

theorem viaT_eq_none {β : Type} {idle : β} {f : Handle L → β} :
    c.viaT idle f = none ↔ c.running = true ∧ c.t = none := by
  unfold viaT; split <;> simp_all

end Core

/-! ## Runs of a step function -/

section Run

variable {S A : Type} (step : S → A → Option S)

/-- The actions in turn, stopping at the first that cannot happen. -/
def runSteps : S → List A → Option S
  | s, [] => some s
  | s, a :: as => (step s a).bind (runSteps · as)

/-- A run whose actions all satisfy `P` is a path of steps by such actions. -/
theorem runSteps_reaches {P : A → Prop} {s s' : S} {as : List A}
    (h : runSteps step s as = some s') (hp : ∀ a ∈ as, P a) :
    Relation.ReflTransGen (fun u v => ∃ a, P a ∧ step u a = some v) s s' := by
  induction as generalizing s with
  | nil => cases h; exact .refl
  | cons a as ih =>
    obtain ⟨u, hu, hr⟩ := Option.bind_eq_some.mp h
    exact .head ⟨a, hp a (.head _), hu⟩ (ih hr fun b hb => hp b (.tail _ hb))

theorem runSteps_reachable {s s' : S} {as : List A} (h : runSteps step s as = some s') :
    Relation.ReflTransGen (fun u v => ∃ a, step u a = some v) s s' :=
  (runSteps_reaches step (P := fun _ => True) h fun _ _ => trivial).mono fun _ _ ⟨a, _, ha⟩ =>
    ⟨a, ha⟩

end Run

end Common
