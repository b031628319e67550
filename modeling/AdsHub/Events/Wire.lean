import AdsHub.Lib.EventStream
import AdsHub.Lib.JsonText

/-!
# AdsHub.Events.Wire — frames as text

`_event_frame` writes a frame as a block of the event stream: the sequence number as its
`id`, the name of the event, and the payload as one line of compact JSON. The text of
the agents is somewhere inside that line. `sse_lossless` says that a reader of the
stream gets every frame back, whatever the payloads hold: `json.dumps` writes printable
ASCII only, so that nothing in a payload can end a line.

Strings are texts of Unicode characters; Python's unpaired surrogates are none.
-/

namespace AdsHub.Events

open JsonText

variable {num : NumText}

/-- The names of events. -/
inductive EventName where
  | snapshot
  | heartbeat
  | agentStateChanged
deriving DecidableEq

def EventName.text : EventName → String
  | .snapshot => "snapshot"
  | .heartbeat => "heartbeat"
  | .agentStateChanged => "agent_state_changed"

/-- `_event_frame`. -/
def eventFrame (num : NumText) (event : String) (payload : Json) (sequence : ℕ) : List Char :=
  "id: ".toList ++ Nat.toDigits 10 sequence ++ "\nevent: ".toList ++ event.toList ++
    "\ndata: ".toList ++ encode compactStyle num payload ++ "\n\n".toList

/-- What a frame is made of; the payload is one that JSON can hold. -/
structure WireFrame (num : NumText) where
  event : EventName
  payload : Json
  sequence : ℕ
  payload_writable : Writable num payload

/-- The text of a frame. -/
def WireFrame.text (frame : WireFrame num) : List Char :=
  eventFrame num frame.event.text frame.payload frame.sequence

/-- The message that a reader is to get. -/
def WireFrame.message (frame : WireFrame num) : EventStream.Message where
  id := Nat.toDigits 10 frame.sequence
  event := frame.event.text.toList
  data := encode compactStyle num frame.payload

/-- The fixed parts of a frame are those of a block. -/
theorem frame_shape (m : EventStream.Message) :
    "id: ".toList ++ m.id ++ "\nevent: ".toList ++ m.event ++ "\ndata: ".toList ++ m.data ++
      "\n\n".toList = EventStream.block m := by
  have hid : "id: ".toList = ['i', 'd', ':', ' '] := by decide
  have hevent : "\nevent: ".toList = ['\n', 'e', 'v', 'e', 'n', 't', ':', ' '] := by decide
  have hdata : "\ndata: ".toList = ['\n', 'd', 'a', 't', 'a', ':', ' '] := by decide
  have hend : "\n\n".toList = ['\n', '\n'] := by decide
  rw [hid, hevent, hdata, hend]
  simp [EventStream.block, EventStream.fieldLine]

/-- A frame's text is a block of the event-stream grammar. -/
theorem text_eq_block (frame : WireFrame num) : frame.text = EventStream.block frame.message :=
  frame_shape frame.message

theorem oneLine_of_printable {l : List Char} (h : ∀ c ∈ l, Printable c) : EventStream.OneLine l := by
  intro c hc
  have hlow := (h c hc).1
  constructor
  · rintro rfl
    exact absurd hlow (by decide)
  · rintro rfl
    exact absurd hlow (by decide)

theorem toDigits_printable (n : ℕ) : ∀ c ∈ Nat.toDigits 10 n, Printable c := by
  intro c hc
  have hdigit := Nat.isDigit_of_mem_toDigits (by decide) (Nat.le_refl 10) hc
  rcases Char.isDigit_iff_toNat.1 hdigit with ⟨hlow, hhigh⟩
  have hzero : '0'.toNat = 48 := rfl
  have hnine : '9'.toNat = 57 := rfl
  constructor
  · omega
  · omega

/-- Ids, event names and JSON texts have no line breaks, so the block carries them. -/
theorem message_carried (frame : WireFrame num) : EventStream.Carried frame.message where
  id_line := oneLine_of_printable (toDigits_printable frame.sequence)
  id_null := by
    intro hnull
    have hlow := (toDigits_printable frame.sequence _ hnull).1
    exact absurd hlow (by decide)
  event_line := by
    have hname : ∀ name : EventName, ∀ c ∈ name.text.toList, Printable c := by
      intro name
      cases name <;> simp [EventName.text, Printable]
    exact oneLine_of_printable (hname frame.event)
  event_ne := by
    have hname : ∀ name : EventName, name.text.toList ≠ [] := by
      intro name
      cases name <;> decide
    exact hname frame.event
  data_line := oneLine_of_printable (compact_printable frame.payload_writable)

/-- For every list of frames, a reader of the stream gets exactly their messages, in
order; the id of each is the sequence number in decimal, and its data is JSON for the
payload. -/
theorem sse_lossless (frames : List (WireFrame num)) :
    EventStream.parse (frames.flatMap WireFrame.text) = frames.map WireFrame.message ∧
    ∀ frame ∈ frames, Nat.ofDigitChars 10 frame.message.id 0 = frame.sequence ∧
      frame.message.event = frame.event.text.toList ∧
      loads num.read frame.message.data = some frame.payload := by
  constructor
  · have hblocks : frames.flatMap WireFrame.text =
        (frames.map WireFrame.message).flatMap EventStream.block := by
      rw [List.flatMap_map]
      congr 1
      funext frame
      exact text_eq_block frame
    rw [hblocks]
    apply EventStream.parse_blocks
    intro m hm
    obtain ⟨frame, -, rfl⟩ := List.mem_map.1 hm
    exact message_carried frame
  · intro frame _
    refine ⟨Nat.ofDigitChars_ten_toDigits, rfl, ?_⟩
    exact loads_encode compactStyle frame.payload_writable

end AdsHub.Events
