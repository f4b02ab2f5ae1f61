import Mathlib.Data.List.DropRight

/-!
# SizedQueue

`common::SizedQueue<_tp, _size>` (SizedQueue.hpp): a `std::queue` that drops its oldest
element when a push finds it full. The queue is the list of `_q`'s elements, front first.

* `SizedQueue α cap` carries `_q.size() ≤ _size` as a field, so no operation can build a
  queue over its capacity, and the `static_assert(_size != 0)` as another.
* `front`, `back` and `popFront` on an empty queue are undefined behaviour in the source
  (`std::queue` on an empty `std::deque`); they return `none` here.
* `specRun` is the list model a caller reasons with: a push keeps the last `cap` elements
  of `l ++ [x]`, a pop drops the head. `runOps_q` says the queue computes exactly it.
-/

namespace Common

/-- `SizedQueue<_tp, _size>`: the elements of `_q`, front first, with `cap = _size`. -/
structure SizedQueue (α : Type) (cap : Nat) where
  q : List α
  bound : q.length ≤ cap
  cap_pos : 0 < cap

namespace SizedQueue

variable {α : Type}

/-- The operations a caller applies to a queue. -/
inductive Op (α : Type) where
  | pushBack (x : α)
  | emplaceBack (x : α)
  | popFront
  deriving DecidableEq, Repr

/-! ## The list model -/

/-- A push of `x` keeps the last `cap` elements of `l ++ [x]`; `pop_front` takes the tail. -/
def specApply (cap : Nat) (l : List α) : Op α → Option (List α)
  | .pushBack x => some ((l ++ [x]).rtake cap)
  | .emplaceBack x => some ((l ++ [x]).rtake cap)
  | .popFront => l.tail?

/-- The list model run over a sequence of operations. -/
def specRun (cap : Nat) : List α → List (Op α) → Option (List α)
  | l, [] => some l
  | l, o :: ops => (specApply cap l o).bind (specRun cap · ops)

/-- Keeping the last `n` elements twice is keeping them once. -/
theorem rtake_append_rtake (l xs : List α) (n : Nat) :
    (l.rtake n ++ xs).rtake n = (l ++ xs).rtake n := by
  simp only [List.rtake_eq_reverse_take_reverse, List.reverse_append, List.reverse_reverse,
    List.take_append_eq_append_take, List.take_take, List.length_reverse]
  congr 3
  omega

/-- Pushes alone keep the last `cap` elements pushed. -/
theorem specRun_pushBack {cap : Nat} (l xs : List α) (hl : l.length ≤ cap) :
    specRun cap l (xs.map .pushBack) = some ((l ++ xs).rtake cap) := by
  induction xs generalizing l with
  | nil => simp [specRun, List.rtake, Nat.sub_eq_zero_of_le hl]
  | cons x xs ih =>
    simp only [List.map_cons, specRun, specApply, Option.some_bind]
    rw [ih _ (by simp [List.rtake]; omega), rtake_append_rtake]
    simp

/-! ## The queue -/

variable {cap : Nat}

/-- A default-constructed queue; `h` is the `static_assert`. -/
def init (h : 0 < cap) : SizedQueue α cap := ⟨[], Nat.zero_le _, h⟩

/-- `front()`: `_q.front()`. -/
def front (s : SizedQueue α cap) : Option α := s.q.head?

/-- `back()`: `_q.back()`. -/
def back (s : SizedQueue α cap) : Option α := s.q.getLast?

/-- `empty()`: `_q.empty()`. -/
def empty (s : SizedQueue α cap) : Bool := s.q.isEmpty

/-- `size()`: `_q.size()`. -/
def size (s : SizedQueue α cap) : Nat := s.q.length

/-- `emplace_back(args...)`: `if(_q.size() == _size) { _q.pop(); } _q.emplace(args...);`.
The element `x` is the one `args...` construct. -/
def emplaceBack (s : SizedQueue α cap) (x : α) : SizedQueue α cap :=
  ⟨if s.q.length = cap then s.q.tail ++ [x] else s.q ++ [x], by
    have := s.bound
    have := s.cap_pos
    split <;> simp <;> omega, s.cap_pos⟩

/-- `push_back(x)`: every overload is `emplace_back(x)`. -/
def pushBack (s : SizedQueue α cap) (x : α) : SizedQueue α cap := s.emplaceBack x

/-- `pop_front()`: `_q.pop()`. -/
def popFront : SizedQueue α cap → Option (SizedQueue α cap)
  | ⟨[], _, _⟩ => none
  | ⟨_ :: q, h, hc⟩ => some ⟨q, by simp at h; omega, hc⟩

/-- One operation; `none` is a `pop_front` on an empty queue. -/
def apply (s : SizedQueue α cap) : Op α → Option (SizedQueue α cap)
  | .pushBack x => some (s.pushBack x)
  | .emplaceBack x => some (s.emplaceBack x)
  | .popFront => s.popFront

/-- A sequence of operations, stopping at the first undefined one. -/
def runOps : SizedQueue α cap → List (Op α) → Option (SizedQueue α cap)
  | s, [] => some s
  | s, o :: ops => (s.apply o).bind (runOps · ops)

/-! ## The queue computes the list model -/

theorem emplaceBack_q (s : SizedQueue α cap) (x : α) :
    (s.emplaceBack x).q = (s.q ++ [x]).rtake cap := by
  have hb := s.bound
  have hc := s.cap_pos
  simp only [emplaceBack, List.rtake, List.length_append, List.length_singleton]
  split
  · rw [show s.q.length + 1 - cap = 1 by omega, List.drop_one,
      List.tail_append_of_ne_nil (List.ne_nil_of_length_pos (by omega))]
  · rw [show s.q.length + 1 - cap = 0 by omega, List.drop_zero]

theorem popFront_q (s : SizedQueue α cap) : (s.popFront).map q = s.q.tail? := by
  obtain ⟨_ | ⟨x, l⟩, h, hc⟩ := s <;> rfl

theorem apply_q (s : SizedQueue α cap) (o : Op α) : (s.apply o).map q = specApply cap s.q o := by
  cases o with
  | pushBack x => simp [apply, specApply, pushBack, emplaceBack_q]
  | emplaceBack x => simp [apply, specApply, emplaceBack_q]
  | popFront => exact popFront_q s

/-- The refinement: on every sequence of operations the queue and the list model agree,
including on where a `pop_front` meets an empty queue. -/
theorem runOps_q (s : SizedQueue α cap) (ops : List (Op α)) :
    (s.runOps ops).map q = specRun cap s.q ops := by
  induction ops generalizing s with
  | nil => rfl
  | cons o ops ih =>
    simp only [runOps, specRun, ← apply_q]
    cases s.apply o <;> simp [ih]

/-- For every capacity and every sequence of pushes, emplaces and pops applied to an empty
queue: its contents, front to back, are the list model's (a pop on an empty queue being
where both stop), its size never passes `cap`, and `M` pushes alone leave the last
`min M cap` elements pushed, oldest first. -/
theorem sizedQueue_matches_spec (h : 0 < cap) (ops : List (Op α)) :
    ((init h : SizedQueue α cap).runOps ops).map q = specRun cap [] ops ∧
    (∀ s, (init h : SizedQueue α cap).runOps ops = some s → s.size ≤ cap) ∧
    ∀ xs : List α, ((init h : SizedQueue α cap).runOps (xs.map .pushBack)).map q =
      some (xs.rtake cap) ∧ (xs.rtake cap).length = min xs.length cap := by
  refine ⟨runOps_q _ ops, fun s _ => s.bound, fun xs => ⟨?_, ?_⟩⟩
  · rw [runOps_q]
    exact specRun_pushBack [] xs (Nat.zero_le _)
  · simp only [List.rtake, List.length_drop]
    omega

theorem sizedQueue_matches_spec_cap_three :
    ((init (by decide) : SizedQueue Nat 3).runOps [.pushBack 1, .emplaceBack 2, .popFront]).map q =
        specRun 3 [] [.pushBack 1, .emplaceBack 2, .popFront] ∧
      (∀ s, (init (by decide) : SizedQueue Nat 3).runOps [.pushBack 1, .emplaceBack 2, .popFront] =
        some s → s.size ≤ 3) ∧
      ∀ xs : List Nat, ((init (by decide) : SizedQueue Nat 3).runOps (xs.map .pushBack)).map q =
        some (xs.rtake 3) ∧ (xs.rtake 3).length = min xs.length 3 :=
  sizedQueue_matches_spec (by decide) _

/-- Capacity 3 and pushes `1, …, 5`: the last three remain, oldest first. -/
example : ((init (by decide) : SizedQueue Nat 3).runOps ([1, 2, 3, 4, 5].map .pushBack)).map q =
    some [3, 4, 5] := by
  decide

end SizedQueue

end Common
