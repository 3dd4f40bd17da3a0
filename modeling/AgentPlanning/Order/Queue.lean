import AgentPlanning.Order.Basic

/-!
# Order Queues

Orders wait in a queue of fixed capacity until the game drains it. A full queue refuses an
order and stays as it is.
-/

namespace AgentPlanning

/-- Orders waiting to be carried out, oldest first. -/
structure OrderQueue where
  /-- The largest number of orders that may wait. -/
  capacity : Nat
  /-- The waiting orders. -/
  orders : List Order
  /-- The orders fit the capacity. -/
  length_le : orders.length ≤ capacity
deriving DecidableEq

namespace OrderQueue

/-- The empty queue of the given capacity. -/
def ofCapacity (capacity : Nat) : OrderQueue := ⟨capacity, [], Nat.zero_le capacity⟩

/-- The queue with `order` at its end; `none` if the queue is full. -/
def enqueue? (q : OrderQueue) (order : Order) : Option OrderQueue :=
  if h : q.orders.length < q.capacity then
    some { q with orders := q.orders ++ [order], length_le := by simpa using Nat.succ_le_of_lt h }
  else none

/-- Takes all waiting orders out of the queue. -/
def drain (q : OrderQueue) : List Order × OrderQueue :=
  (q.orders, { q with orders := [], length_le := Nat.zero_le _ })

theorem orders_of_enqueue? {q next : OrderQueue} {order : Order}
    (h : q.enqueue? order = some next) :
    next.orders = q.orders ++ [order] ∧ next.capacity = q.capacity := by
  rw [enqueue?] at h
  split at h
  · simp only [Option.some.injEq] at h
    simp [← h]
  · simp at h

theorem enqueue?_eq_none_iff {q : OrderQueue} {order : Order} :
    q.enqueue? order = none ↔ q.orders.length = q.capacity := by
  have := q.length_le
  simp only [enqueue?, dite_eq_right_iff, reduceCtorEq, imp_false]
  omega

end OrderQueue

end AgentPlanning
