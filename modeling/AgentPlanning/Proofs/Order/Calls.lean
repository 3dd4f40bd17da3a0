import AgentPlanning.Action.Execution
import AgentPlanning.Proofs.Domain.Closed
import Mathlib.Data.List.DropRight

/-!
# Calls of an Order Queue

A queue is filled by the execution of actions and drained by the game, in any order. What is in the
queue can be read off the answers that the callers got: no order is lost, none is there twice, and a
call that fails leaves no trace. Main statements:

* `ActionLibrary.execute_cases`, `ActionLibrary.execute_eq_error_iff`: all that one execution can
  do, and why it fails;
* `OrderQueue.drained_append_waiting`: the orders that were accepted are those that were drained
  and those that wait;
* `OrderQueue.orders_of_calls`: after any calls the queue holds what was accepted since it was last
  drained, and the next execution fails for an unknown action or a full queue only.
-/

namespace AgentPlanning

/-! ## One execution -/

namespace ActionLibrary

/-- An action that is not in the library is unknown, the order of any other action joins a queue
that has room for it, and a full queue drops it. -/
theorem execute_cases (library : ActionLibrary) (action : ActionId) (actor : EntityRef)
    (view : BlackboardView) (queue : OrderQueue) :
    (library.contains action = false ∧
      library.execute action actor view queue = (.error (.unknownAction action), queue)) ∨
    (library.contains action = true ∧ queue.orders.length = queue.capacity ∧
      library.execute action actor view queue = (.error (.queueFull action), queue)) ∨
    (library.contains action = true ∧ queue.orders.length < queue.capacity ∧
      ∃ order next, library.execute action actor view queue = (.ok order, next) ∧
        next.orders = queue.orders ++ [order] ∧ next.capacity = queue.capacity) := by
  rw [← isSome_get?, execute]
  cases hplanned : library.get? action with
  | none => exact .inl ⟨rfl, rfl⟩
  | some planned =>
    refine .inr ?_
    dsimp only
    cases hnext : queue.enqueue? (planned.orderFor actor view) with
    | none => exact .inl ⟨rfl, OrderQueue.enqueue?_eq_none_iff.1 hnext, rfl⟩
    | some next =>
      -- A full queue would not have taken the order.
      have hroom : queue.orders.length ≠ queue.capacity := by
        intro hfull
        rw [OrderQueue.enqueue?_eq_none_iff.2 hfull] at hnext
        cases hnext
      exact .inr ⟨rfl, queue.length_le.lt_of_ne hroom, _, next, rfl,
        OrderQueue.orders_of_enqueue? hnext⟩

variable {library : ActionLibrary} {action : ActionId} {actor : EntityRef} {view : BlackboardView}
  {queue next : OrderQueue} {result : Except ExecutionError Order} {reason : ExecutionError}

/-- The order that an execution returns, if it returns one, goes to the end of the queue. -/
theorem orders_of_execute (h : library.execute action actor view queue = (result, next)) :
    next.orders = queue.orders ++ result.toOption.toList ∧ next.capacity = queue.capacity := by
  obtain ⟨-, hcase⟩ | ⟨-, -, hcase⟩ | ⟨-, -, order, after, hcase, horders, hcapacity⟩ :=
    library.execute_cases action actor view queue
  all_goals
    rw [hcase] at h
    obtain ⟨rfl, rfl⟩ := Prod.mk.inj h
  · exact ⟨(List.append_nil _).symm, rfl⟩
  · exact ⟨(List.append_nil _).symm, rfl⟩
  · exact ⟨horders, hcapacity⟩

/-- The reasons for which an execution fails. -/
theorem execute_eq_error_iff :
    (library.execute action actor view queue).1 = .error reason ↔
      (library.contains action = false ∧ reason = .unknownAction action) ∨
      (library.contains action = true ∧ queue.orders.length = queue.capacity ∧
        reason = .queueFull action) := by
  obtain ⟨hunknown, hcase⟩ | ⟨hknown, hfull, hcase⟩ | ⟨hknown, hroom, order, next, hcase, -⟩ :=
    library.execute_cases action actor view queue
  all_goals rw [hcase]
  · simp only [hunknown, Except.error.injEq, true_and, Bool.false_eq_true, false_and, or_false]
    exact eq_comm
  · simp only [hknown, hfull, Except.error.injEq, Bool.true_eq_false, false_and, true_and,
      false_or]
    exact eq_comm
  · simp only [hknown, hroom.ne, reduceCtorEq, Bool.true_eq_false, false_and, and_false, or_self]

/-- A failed execution leaves the queue as it is. -/
theorem snd_execute_of_error (h : (library.execute action actor view queue).1.isOk = false) :
    (library.execute action actor view queue).2 = queue := by
  obtain ⟨-, hcase⟩ | ⟨-, -, hcase⟩ | ⟨-, -, order, after, hcase, -⟩ :=
    library.execute_cases action actor view queue
  · rw [hcase]
  · rw [hcase]
  · rw [hcase] at h
    cases h

end ActionLibrary

namespace OrderQueue

/-! ## Calls and their answers -/

/-- A call that changes a queue. -/
inductive Call where
  /-- The execution of an action. -/
  | execute (action : ActionId) (actor : EntityRef) (view : BlackboardView)
  /-- The removal of all waiting orders. -/
  | drain

/-- What a call returns. -/
inductive Answer where
  | executed (result : Except ExecutionError Order)
  | drained (orders : List Order)
deriving DecidableEq

namespace Answer

/-- The order of an execution that succeeded. -/
def accepted? : Answer → Option Order
  | executed result => result.toOption
  | drained _ => none

/-- The orders that left the queue. -/
def removed : Answer → List Order
  | executed _ => []
  | drained orders => orders

/-- Whether the queue was drained. -/
def isDrained : Answer → Bool
  | executed _ => false
  | drained _ => true

end Answer

/-- The orders that were accepted since the queue was last drained. -/
def acceptedSinceDrain (answers : List Answer) : List Order :=
  (answers.rtakeWhile (! ·.isDrained)).filterMap (·.accepted?)

variable (library : ActionLibrary)

/-- The answer to a call, and the queue after it. -/
def answer (queue : OrderQueue) : Call → Answer × OrderQueue
  | .execute action actor view =>
    let (result, next) := library.execute action actor view queue
    (.executed result, next)
  | .drain =>
    let (orders, next) := queue.drain
    (.drained orders, next)

/-- The answers to calls made one after another, and the queue after them. -/
def answerAll (capacity : Nat) (calls : List Call) : List Answer × OrderQueue :=
  calls.foldl (fun (answers, queue) call =>
    let (answer, next) := queue.answer library call
    (answers ++ [answer], next)) ([], .ofCapacity capacity)

variable {library}

/-! ## One call -/

theorem acceptedSinceDrain_concat (answers : List Answer) (reply : Answer) :
    acceptedSinceDrain (answers ++ [reply]) =
      if reply.isDrained then [] else acceptedSinceDrain answers ++ reply.accepted?.toList := by
  rw [acceptedSinceDrain, List.rtakeWhile_concat, acceptedSinceDrain]
  cases reply with
  | executed result =>
    -- Nothing was drained, so the answer is one more of those that count.
    show List.filterMap _ (_ ++ [_]) = _ ++ result.toOption.toList
    rw [List.filterMap_append]
    cases result <;> rfl
  | drained orders => rfl

variable (library) (queue : OrderQueue) (call : Call)

theorem capacity_answer : (queue.answer library call).2.capacity = queue.capacity := by
  cases call with
  | execute => exact (ActionLibrary.orders_of_execute rfl).2
  | drain => rfl

/-- An accepted order goes to the end of the queue, and a drain leaves none. -/
theorem orders_answer :
    (queue.answer library call).2.orders =
      if (queue.answer library call).1.isDrained then []
      else queue.orders ++ (queue.answer library call).1.accepted?.toList := by
  cases call with
  | execute => exact (ActionLibrary.orders_of_execute rfl).1
  | drain => rfl

/-- What a drain removes is what was waiting. -/
theorem removed_append_orders_answer :
    (queue.answer library call).1.removed ++ (queue.answer library call).2.orders =
      queue.orders ++ (queue.answer library call).1.accepted?.toList := by
  cases call with
  | execute => exact (ActionLibrary.orders_of_execute rfl).1
  | drain => rfl

/-! ## All calls -/

variable (capacity : Nat) (calls : List Call)

theorem answerAll_concat :
    answerAll library capacity (calls ++ [call]) =
      ((answerAll library capacity calls).1 ++
          [((answerAll library capacity calls).2.answer library call).1],
        ((answerAll library capacity calls).2.answer library call).2) := by
  rw [answerAll, List.foldl_append]
  rfl

theorem capacity_answerAll : (answerAll library capacity calls).2.capacity = capacity := by
  induction calls using List.reverseRecOn with
  | nil => rfl
  | append_singleton calls call ih =>
    rw [answerAll_concat]
    exact (capacity_answer ..).trans ih

theorem orders_answerAll :
    (answerAll library capacity calls).2.orders =
      acceptedSinceDrain (answerAll library capacity calls).1 := by
  induction calls using List.reverseRecOn with
  | nil => rfl
  | append_singleton calls call ih =>
    -- What the last call adds to the answers it adds to the queue.
    rw [answerAll_concat, acceptedSinceDrain_concat, ← ih]
    exact orders_answer ..

/-- The orders that were accepted are those that were drained, followed by those that wait: none is
lost, and none is there twice. -/
theorem drained_append_waiting :
    (answerAll library capacity calls).1.flatMap (·.removed) ++
        (answerAll library capacity calls).2.orders =
      (answerAll library capacity calls).1.filterMap (·.accepted?) := by
  induction calls using List.reverseRecOn with
  | nil => rfl
  | append_singleton calls call ih =>
    rw [answerAll_concat]
    dsimp only
    rw [List.flatMap_append, List.flatMap_singleton, List.append_assoc,
      removed_append_orders_answer, ← List.append_assoc, ih, List.filterMap_append]
    rfl

/-- After any calls the queue is within its capacity and holds the orders of the executions that
succeeded since it was last drained, in the order of the calls. A further execution fails for an
action that is not in the library and for a full queue, for no other reason, and leaves the queue as
it is if it fails. -/
theorem orders_of_calls {answers : List Answer} {queue : OrderQueue}
    (h : answerAll library capacity calls = (answers, queue)) :
    queue.orders.length ≤ capacity ∧ queue.orders = acceptedSinceDrain answers ∧
    ∀ action actor view,
      (∀ reason, (library.execute action actor view queue).1 = .error reason ↔
        (library.contains action = false ∧ reason = .unknownAction action) ∨
        (library.contains action = true ∧ queue.orders.length = capacity ∧
          reason = .queueFull action)) ∧
      ((library.execute action actor view queue).1.isOk = false →
        (library.execute action actor view queue).2 = queue) := by
  have hcapacity := capacity_answerAll library capacity calls
  have horders := orders_answerAll library capacity calls
  rw [h] at hcapacity horders
  dsimp only at hcapacity horders
  refine ⟨hcapacity ▸ queue.length_le, horders, fun action actor view => ⟨fun reason => ?_,
    ActionLibrary.snd_execute_of_error⟩⟩
  rw [ActionLibrary.execute_eq_error_iff, hcapacity]

/-- A single action, whose order takes an argument from the blackboard. -/
def marching : ActionLibrary :=
  .ofList [{ name := "march", pre := .free, post := .free, cost := 1,
             order := { tag := 9 }, bindings := [.intToArg 5 2] }]

/-- The integer of key 5 is the given one. -/
def facing (value : Int32) : BlackboardView :=
  ⟨fun key => if key = 5 then some value else none, fun _ => none⟩

/-- The order to march, given by entity 40. -/
def marchOrder (argument : Int32) : Order where
  tag := 9
  mode := .replace
  player := 0
  actor := 40
  target := none
  targetContext := none
  args := #v[0, 0, argument, 0]

/-- A queue for a single order that accepts an order, drops one, meets an unknown action, is drained
and accepts another order. -/
def busyDay : List Call :=
  [.execute 0 40 (facing 1), .execute 0 40 (facing 2), .execute 6 40 (facing 3), .drain,
    .execute 0 40 (facing 4)]

/-- The order that was accepted last waits, and it fills the queue. -/
theorem orders_of_busyDay :
    (answerAll marching 1 busyDay).2.orders = [marchOrder 4] ∧
    acceptedSinceDrain (answerAll marching 1 busyDay).1 = [marchOrder 4] ∧
    (marching.execute 0 40 (facing 5) (answerAll marching 1 busyDay).2).1 =
      .error (.queueFull 0) ∧
    (marching.execute 0 40 (facing 5) (answerAll marching 1 busyDay).2).2 =
      (answerAll marching 1 busyDay).2 := by
  obtain ⟨-, horders, hexecute⟩ := orders_of_calls marching 1 busyDay (Prod.eta _).symm
  have hwaiting : (answerAll marching 1 busyDay).2.orders = [marchOrder 4] := by decide +kernel
  have hlength : (answerAll marching 1 busyDay).2.orders.length = 1 := congrArg _ hwaiting
  have hfull : (marching.execute 0 40 (facing 5) (answerAll marching 1 busyDay).2).1 =
      .error (.queueFull 0) :=
    ((hexecute 0 40 (facing 5)).1 _).2 (.inr ⟨by decide +kernel, hlength, rfl⟩)
  exact ⟨hwaiting, horders.symm.trans hwaiting, hfull,
    (hexecute 0 40 (facing 5)).2 (by rw [hfull]; rfl)⟩

end OrderQueue

end AgentPlanning
