/-!
# Trace Events

Planning calls report what they did as small events. Where the events go is up to a sink: a
window keeps the latest ones, a log keeps all of them, and the null sink keeps none.
-/

namespace AgentPlanning

/-- One report. The meaning of the two numbers depends on the tag. -/
structure TraceEvent where
  tick : Nat
  /-- What happened. -/
  tag : String
  /-- The first number. -/
  a : Nat := 0
  /-- The second number. -/
  b : Nat := 0
deriving DecidableEq, Repr

/-- A receiver of trace events. -/
class TraceSink (σ : Type) where
  /-- The sink after it received an event. -/
  receive : σ → TraceEvent → σ

/-- The sink that forgets every event. -/
structure NullSink where
deriving DecidableEq, Inhabited

instance : TraceSink NullSink := ⟨fun sink _ => sink⟩

/-- The latest events, up to a limit if there is one. -/
structure TraceWindow where
  /-- The kept events, oldest first. -/
  events : Array TraceEvent := #[]
  /-- The largest number of kept events; `none` keeps all. -/
  limit : Option Nat := none
deriving DecidableEq, Inhabited

namespace TraceWindow

/-- The empty window that keeps up to `limit` events. -/
def ofLimit (limit : Nat) : TraceWindow := ⟨#[], some limit⟩

/-- The window after an event: a full window drops its oldest event, and a window of limit
zero keeps nothing. -/
def receive (window : TraceWindow) (event : TraceEvent) : TraceWindow :=
  match window.limit with
  | none => { window with events := window.events.push event }
  | some 0 => window
  | some (limit + 1) =>
    if limit < window.events.size then
      { window with events := (window.events.extract 1 window.events.size).push event }
    else
      { window with events := window.events.push event }

instance : TraceSink TraceWindow := ⟨receive⟩

/-- The tags of the kept events, oldest first. -/
def tags (window : TraceWindow) : List String :=
  window.events.toList.map (·.tag)

end TraceWindow

/-- Every event since the log was begun. -/
structure TraceLog where
  /-- The events, oldest first. -/
  events : Array TraceEvent := #[]
deriving DecidableEq, Inhabited

namespace TraceLog

/-- The log with an event at its end. -/
def push (log : TraceLog) (event : TraceEvent) : TraceLog :=
  ⟨log.events.push event⟩

instance : TraceSink TraceLog := ⟨push⟩

/-- The events of a tag, oldest first. -/
def tagged (log : TraceLog) (tag : String) : List TraceEvent :=
  log.events.toList.filter (·.tag == tag)

end TraceLog

end AgentPlanning
