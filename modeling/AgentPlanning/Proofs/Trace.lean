import AgentPlanning.Trace
import Mathlib.Data.List.DropRight

/-!
# What a Trace Window Keeps

A window shows the end of the history of events: every event is added at its end, and a full window
gives up its oldest event for it. Main statements:

* `TraceWindow.keeps_receive`, `TraceWindow.keeps_foldl_receive`: a window that keeps the end of a
  history goes on to do so;
* `TraceWindow.foldl_receive`: a window without a limit keeps all that it receives;
* `TraceWindow.latest_events`: the events that a new window keeps.
-/

namespace AgentPlanning.TraceWindow

/-- How many of the events that it received a window with the given limit keeps. -/
def kept : Option Nat → Nat → Nat
  | none, received => received
  | some limit, received => min limit received

/-- The window keeps the latest events of a history, as many as its limit allows. -/
structure Keeps (window : TraceWindow) (history : List TraceEvent) : Prop where
  /-- The kept events are the end of the history, in the same order. -/
  isSuffix : window.events.toList <:+ history
  /-- They are as many as the limit allows. -/
  size_eq : window.events.size = kept window.limit history.length

theorem keeps_empty (limit : Option Nat) : Keeps ⟨#[], limit⟩ [] where
  isSuffix := List.nil_suffix
  size_eq := by cases limit <;> simp [kept]

/-- A window that keeps the end of a history is determined by the history. -/
theorem Keeps.toList_events {window : TraceWindow} {history : List TraceEvent}
    (h : window.Keeps history) :
    window.events.toList = history.rtake (kept window.limit history.length) := by
  rw [List.rtake, ← h.size_eq, ← Array.length_toList]
  exact List.suffix_iff_eq_drop.1 h.isSuffix

/-! ## One event -/

/-- A window without room for any event stays as it is, a window with room takes the event, and a
full window gives up its oldest event for it. -/
theorem receive_cases (window : TraceWindow) (event : TraceEvent) :
    (window.limit = some 0 ∧ window.receive event = window) ∨
    ((∀ limit ∈ window.limit, window.events.size < limit) ∧
      window.receive event = ⟨window.events.push event, window.limit⟩) ∨
    (∃ limit, window.limit = some (limit + 1) ∧ limit < window.events.size ∧
      window.receive event =
        ⟨(window.events.extract 1 window.events.size).push event, window.limit⟩) := by
  obtain ⟨events, limit⟩ := window
  cases limit with
  | none => exact .inr (.inl ⟨fun _ h => (Option.not_mem_none _ h).elim, rfl⟩)
  | some limit =>
    cases limit with
    | zero => exact .inl ⟨rfl, rfl⟩
    | succ limit =>
      refine .inr ?_
      simp only [receive]
      split
      next hfull => exact .inr ⟨limit, rfl, hfull, rfl⟩
      next hroom =>
        refine .inl ⟨fun bound hbound => ?_, rfl⟩
        obtain rfl := Option.mem_some_iff.1 hbound
        exact Nat.lt_succ_of_le (Nat.le_of_not_lt hroom)

theorem limit_receive (window : TraceWindow) (event : TraceEvent) :
    (window.receive event).limit = window.limit := by
  obtain ⟨-, h⟩ | ⟨-, h⟩ | ⟨_, -, -, h⟩ := window.receive_cases event
  all_goals rw [h]

/-- With the next event at its end, an end of the history is an end of the longer history. -/
theorem isSuffix_push {events : Array TraceEvent} {history : List TraceEvent}
    (h : events.toList <:+ history) (event : TraceEvent) :
    (events.push event).toList <:+ history ++ [event] := by
  obtain ⟨before, rfl⟩ := h
  exact ⟨before, by rw [Array.toList_push, List.append_assoc]⟩

theorem keeps_receive {window : TraceWindow} {history : List TraceEvent}
    (h : window.Keeps history) (event : TraceEvent) :
    (window.receive event).Keeps (history ++ [event]) := by
  obtain ⟨hsuffix, hsize⟩ := h
  have hnext : (history ++ [event]).length = history.length + 1 := List.length_append
  obtain ⟨hlimit, hcase⟩ | ⟨hroom, hcase⟩ | ⟨limit, hlimit, hfull, hcase⟩ :=
    window.receive_cases event
  all_goals rw [hcase]
  · -- There are no events, and the new one is not kept either.
    rw [hlimit, kept, Nat.zero_min] at hsize
    refine ⟨?_, by rw [hsize, hlimit, kept, Nat.zero_min]⟩
    rw [Array.eq_empty_of_size_eq_zero hsize]
    exact List.nil_suffix
  · refine ⟨isSuffix_push hsuffix event, ?_⟩
    rw [Array.size_push, hnext]
    cases hlimit : window.limit with
    | none => rw [hsize, hlimit, kept, kept]
    | some limit =>
      have := hroom limit hlimit
      rw [hlimit, kept] at hsize
      rw [kept]
      omega
  · have hrest : (window.events.extract 1 window.events.size).toList <:+ window.events.toList := by
      rw [Array.toList_extract, List.extract_eq_take_drop, List.take_of_length_le (by simp)]
      exact List.drop_suffix 1 _
    refine ⟨isSuffix_push (hrest.trans hsuffix) event, ?_⟩
    rw [hlimit, kept] at hsize ⊢
    rw [Array.size_push, Array.size_extract, hnext]
    omega

/-! ## All events -/

theorem limit_foldl_receive (events : List TraceEvent) (window : TraceWindow) :
    (events.foldl TraceSink.receive window).limit = window.limit :=
  List.foldlRecOn (motive := fun after : TraceWindow => after.limit = window.limit) events _ rfl
    fun after hafter event _ => (limit_receive after event).trans hafter

theorem keeps_foldl_receive {window : TraceWindow} {history : List TraceEvent}
    (h : window.Keeps history) (events : List TraceEvent) :
    (events.foldl TraceSink.receive window).Keeps (history ++ events) := by
  induction events generalizing window history with
  | nil => rwa [List.append_nil]
  | cons event rest ih =>
    rw [← List.singleton_append, ← List.append_assoc]
    exact ih (keeps_receive h event)

/-- A window without a limit keeps all that it receives. -/
theorem foldl_receive (earlier : Array TraceEvent) (events : List TraceEvent) :
    events.foldl TraceSink.receive (⟨earlier, none⟩ : TraceWindow) = ⟨earlier ++ events, none⟩ := by
  have hbefore : Keeps ⟨earlier, none⟩ earlier.toList :=
    ⟨List.suffix_refl _, Array.length_toList.symm⟩
  have hlimit := limit_foldl_receive events ⟨earlier, none⟩
  have hevents := (keeps_foldl_receive hbefore events).toList_events
  rw [hlimit, kept, List.rtake, Nat.sub_self, List.drop_zero, ← Array.toList_appendList,
    Array.toList_inj] at hevents
  generalize events.foldl TraceSink.receive (⟨earlier, none⟩ : TraceWindow) = after
    at hlimit hevents
  obtain ⟨kept, limit⟩ := after
  exact congrArg₂ TraceWindow.mk hevents hlimit

/-- After any number of events a new window with a limit keeps the latest of them, as many as the
limit allows, oldest first, and a window without a limit keeps all of them. -/
theorem latest_events (events : List TraceEvent) :
    (∀ limit, (events.foldl TraceSink.receive (ofLimit limit)).events.toList =
      events.rtake (min limit events.length)) ∧
    (events.foldl TraceSink.receive ({} : TraceWindow)).events.toList = events := by
  refine ⟨fun limit => ?_, ?_⟩
  · have hkept := (keeps_foldl_receive (keeps_empty (some limit)) events).toList_events
    rwa [limit_foldl_receive] at hkept
  · rw [foldl_receive, Array.toList_appendList]
    rfl

/-- Of three events the first is given up. -/
example :
    ([⟨7, "utility.none", 0, 0⟩, ⟨8, "exec.drop", 3, 0⟩, ⟨8, "exec.submit", 4, 9⟩].foldl
      TraceSink.receive (ofLimit 2)).events =
        #[⟨8, "exec.drop", 3, 0⟩, ⟨8, "exec.submit", 4, 9⟩] := by
  decide

end AgentPlanning.TraceWindow
