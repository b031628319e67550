import Mathlib.Algebra.Order.Ring.Rat
import AdsHub.Lib.Board
import AdsHub.Clock

/-!
# AdsHub.TaskBus — the task bus of `app/main.py`

`publish_agent_state` is the only writer of the canonical agent states: it numbers
the payload, overwrites the slot of its agent and offers the event to every
subscriber. It contains no `await`, so a call is one step of the process.

The bus is a board in the sense of `AdsHub.Lib.Board` (`taskBoard`): one slot per
agent, whoever publishes.
-/

namespace AdsHub

/-- The dictionary handed to `publish_agent_state`. Missions and posted task
states fill the same keys, except for `room`, `destination` and `tool`, which only
a posted one has (`none`: no such key). -/
structure Payload where
  agentId : String
  operationalState : String
  taskId : Option String
  taskType : Option String
  progress : ℚ
  priority : String
  source : String
  room : Option (Option String) := none
  destination : Option (Option String) := none
  tool : Option (Option String) := none
deriving DecidableEq

/-- `{'event': ..., 'sequence': ..., 'occurred_at': ..., **payload}`. -/
structure Event extends Payload where
  event : String := "agent_state_changed"
  sequence : ℕ
  occurredAt : String
deriving DecidableEq

/-- `asyncio.Queue(maxsize=256)` of a connection to `/v1/autonomy/events`. -/
structure Subscriber where
  id : ℕ
  queue : List Event

def queueMaxsize : ℕ := 256

/-- `queue.put_nowait(event)`; `QueueFull` is passed over. -/
def Subscriber.putNowait (event : Event) (sub : Subscriber) : Subscriber :=
  if sub.queue.length < queueMaxsize then { sub with queue := sub.queue ++ [event] } else sub

/-- The module's globals. The dictionary of the slots is a partial function. -/
structure Bus where
  eventSequence : ℕ := 0
  eventSubscribers : List Subscriber := []
  agentTaskState : String → Option Event := fun _ => none

/-- `_next_event_sequence`. -/
def nextEventSequence (bus : Bus) : ℕ × Bus :=
  (bus.eventSequence + 1, { bus with eventSequence := bus.eventSequence + 1 })

/-- `publish_agent_state`: the event, and the bus after it. -/
def publishAgentState (bus : Bus) (now : Utc) (payload : Payload) : Event × Bus :=
  let (sequence, bus) := nextEventSequence bus
  let event : Event :=
    { payload with sequence := sequence, occurredAt := now.isoformat }
  (event,
    { bus with
      agentTaskState := Function.update bus.agentTaskState event.agentId (some event)
      eventSubscribers := bus.eventSubscribers.map (Subscriber.putNowait event) })

/-- The slot of the payload's agent holds the event that is returned. -/
theorem publish_slot_same (bus : Bus) (now : Utc) (payload : Payload) :
    (publishAgentState bus now payload).2.agentTaskState payload.agentId =
      some (publishAgentState bus now payload).1 := by
  simp [publishAgentState, nextEventSequence]

/-- The other slots stay as they are. -/
theorem publish_slot_other (bus : Bus) (now : Utc) (payload : Payload) {agentId : String}
    (h : agentId ≠ payload.agentId) :
    (publishAgentState bus now payload).2.agentTaskState agentId = bus.agentTaskState agentId := by
  simp [publishAgentState, nextEventSequence, h]

/-- The bus as a board of slots, one per agent. -/
def taskBoard : Board Bus Utc String Payload Event where
  key := Payload.agentId
  write := fun bus now payload => (publishAgentState bus now payload).2
  slot := fun bus agentId => bus.agentTaskState agentId
  content := Event.toPayload
  slot_write_same := fun bus now payload => ⟨_, publish_slot_same bus now payload, rfl⟩
  slot_write_other := fun bus now payload _ h => publish_slot_other bus now payload h

end AdsHub
