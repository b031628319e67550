import AdsHub.Agency3d.Office
import AdsHub.Events.CatchUp
import AdsHub.Events.Contents
import AdsHub.Events.Wire

/-!
# AdsHub.Events.Reader — from the text of a stream to the live state

Everything that lies between the task bus and someone who reads the response of
`/v1/autonomy/events`: the generator writes its frames as text, the reader cuts the text
into messages, decodes their JSON and lays the events over the entries that
`/v1/autonomy/visual-state` gives. It knows nothing of frames and their types.

* `read_body`: what is read is what the frames say, at every point of every run.
* `cut_stream`: a response that is cut off anywhere is read as an initial part of
  the frames; no frame is read in half.
* `stream_shows_live`: a reader that is up to date has what `_live_visual_state` returns.

How numbers are written is a parameter; the sequence numbers and the progress that is
published are to come back exactly.
-/

namespace AdsHub.Events

open JsonText

/-! ## The text of a response -/

/-- The name of the event of a frame. -/
def Frame.name : Frame → String
  | .snapshot _ _ _ => "snapshot"
  | .agentStateChanged event => event.event
  | .heartbeat _ _ => "heartbeat"

/-- The fields that a snapshot and a heartbeat start with. -/
def headFields (event : String) (sequence : ℕ) (occurredAt : String) : List (String × Json) :=
  [("event", .str event), ("sequence", .num sequence), ("occurred_at", .str occurredAt)]

/-- The payload of a frame. -/
def Frame.payload : Frame → Json
  | .snapshot number occurredAt visualState =>
    .obj (headFields "snapshot" number occurredAt ++
      [("visual_state", .obj (Agency3d.stateFields visualState))])
  | .agentStateChanged event => .obj (Agency3d.eventFields event)
  | .heartbeat number occurredAt => .obj (headFields "heartbeat" number occurredAt)

/-- What the generator yields for a frame. -/
def Frame.text (num : NumText) (frame : Frame) : List Char :=
  eventFrame num frame.name frame.payload frame.id

/-- The body of the response so far. -/
def Connection.body (num : NumText) (con : Connection) : List Char :=
  con.frames.flatMap (Frame.text num)

/-! ## The reader -/

/-- An entry of the view: the entry at rest with the event laid over it, if it is the one
of the event's agent. -/
def layOver (live : List (String × Json)) (base shown : Json) : Json :=
  match base with
  | .obj fields =>
    if Python.equal (Agency3d.field base "agent_id") (Agency3d.field (.obj live) "agent_id") then
      .obj (Agency3d.overlay fields live)
    else shown
  | _ => shown

/-- A changed state in the view; `rest` is the answer of `/v1/autonomy/visual-state`. -/
def applyChange (rest : Json) (live : List (String × Json)) (view : Json) : Json :=
  match view, Agency3d.field view "agents", Agency3d.field rest "agents" with
  | .obj fields, .arr shown, .arr bases =>
    .obj (Dict.set fields "agents" (.arr (List.zipWith (layOver live) bases shown)))
  | _, _, _ => view

/-- What the reader makes of the name and the payload of a message. -/
def receiveJson (rest : Json) (view : Option Json) (message : List Char × Json) : Option Json :=
  if message.1 = "snapshot".toList then some (Agency3d.field message.2 "visual_state")
  else if message.1 = "agent_state_changed".toList then
    match message.2 with
    | .obj live => view.map (applyChange rest live)
    | _ => view
  else view

/-- The data of a message; one that is no JSON is passed over. -/
def readMessage (num : NumText) (m : EventStream.Message) : Option (List Char × Json) :=
  (loads num.read m.data).map (fun payload => (m.event, payload))

/-- The view that the text of a response gives. -/
def readBody (num : NumText) (rest : Json) (text : List Char) : Option Json :=
  ((EventStream.parse text).filterMap (readMessage num)).foldl (receiveJson rest) none

/-! ## Messages -/

/-- An event whose text comes back: it has the name that the bus gives, and its progress
is a number that is written exactly. -/
structure EventOk (num : NumText) (event : Event) : Prop where
  name : event.event = "agent_state_changed"
  progress : num.Exact event.progress

/-- A frame whose text comes back. -/
def FrameOk (num : NumText) : Frame → Prop
  | .snapshot _ _ visualState => ∀ view ∈ visualState.agents, num.Exact view.progress
  | .agentStateChanged event => EventOk num event
  | .heartbeat _ _ => True

variable {num : NumText}

theorem writable_optText (s : Option String) : Writable num (Agency3d.optText s) := by
  cases s with
  | none => exact Writable.null
  | some s => exact Writable.str s

/-- An object of optional fields is written when its keys are distinct and the present
values can be. -/
theorem writable_optFields {fields : List (String × Option Json)}
    (hkeys : (fields.map Prod.fst).Nodup) (h : ∀ f ∈ fields, ∀ v, f.2 = some v → Writable num v) :
    Writable num (.obj (Agency3d.optFields fields)) := by
  rw [writable_obj]
  constructor
  · -- the keys that are there are some of the keys
    have hsub : ((Agency3d.optFields fields).map Prod.fst).Sublist (fields.map Prod.fst) := by
      clear hkeys h
      induction fields with
      | nil => exact List.Sublist.refl []
      | cons f fields ih =>
        rcases f with ⟨key, _ | v⟩
        · exact ih.cons key
        · exact ih.cons_cons key
    exact hkeys.sublist hsub
  · intro f hf
    rw [Agency3d.optFields, List.mem_filterMap] at hf
    obtain ⟨field, hfield, hsome⟩ := hf
    rw [Option.map_eq_some_iff] at hsome
    obtain ⟨v, hv, rfl⟩ := hsome
    exact h field hfield v hv

theorem writable_agent {view : AgentView} (h : num.Exact view.progress) :
    Writable num (.obj (Agency3d.agentFields view)) := by
  rw [writable_obj]
  constructor
  · simp [Agency3d.agentFields]
  · simp only [Agency3d.agentFields, List.forall_mem_cons, writable_optText, Writable.str,
      writable_num, h, true_and]
    exact fun f hf => absurd hf List.not_mem_nil

theorem writable_state {state : VisualState}
    (h : ∀ view ∈ state.agents, num.Exact view.progress) :
    Writable num (.obj (Agency3d.stateFields state)) := by
  have hagents : Writable num
      (.arr (state.agents.map (fun view => .obj (Agency3d.agentFields view)))) := by
    rw [writable_arr, List.forall_mem_map]
    exact fun view hview => writable_agent (h view hview)
  refine writable_optFields (by simp) ?_
  simp only [List.forall_mem_cons, Option.some.injEq, forall_eq', Option.map_eq_some_iff,
    forall_exists_index, and_imp, forall_apply_eq_imp_iff₂, writable_optText, Writable.str,
    Writable.bool, hagents, implies_true, true_and]
  exact fun f hf => absurd hf List.not_mem_nil

theorem writable_event {event : Event} (hnat : ∀ n : ℕ, num.Exact n)
    (h : num.Exact event.progress) : Writable num (.obj (Agency3d.eventFields event)) := by
  refine writable_optFields (by simp) ?_
  simp only [List.forall_mem_cons, Option.some.injEq, forall_eq', Option.map_eq_some_iff,
    forall_exists_index, and_imp, forall_apply_eq_imp_iff₂, writable_optText, Writable.str,
    writable_num, hnat, h, implies_true, true_and]
  exact fun f hf => absurd hf List.not_mem_nil

/-- Every frame of a run has a payload that is read back exactly. -/
theorem writable_payload (hnat : ∀ n : ℕ, num.Exact n) {frame : Frame} (h : FrameOk num frame) :
    Writable num frame.payload := by
  cases frame with
  | snapshot sequence occurredAt visualState =>
    rw [Frame.payload, writable_obj]
    constructor
    · simp [headFields]
    · simp only [headFields, List.cons_append, List.nil_append, List.forall_mem_cons, Writable.str,
        writable_num, hnat, writable_state h, true_and]
      exact fun f hf => absurd hf List.not_mem_nil
  | agentStateChanged event => exact writable_event hnat h.progress
  | heartbeat sequence occurredAt =>
    rw [Frame.payload, writable_obj]
    constructor
    · simp [headFields]
    · simp only [headFields, List.forall_mem_cons, Writable.str, writable_num, hnat, true_and]
      exact fun f hf => absurd hf List.not_mem_nil

/-- The message of a frame. -/
def Frame.message (num : NumText) (frame : Frame) : EventStream.Message where
  id := Nat.toDigits 10 frame.id
  event := frame.name.toList
  data := encode compactStyle num frame.payload

/-- A frame of a stream is one of the frames of `Events.Wire`. -/
theorem frame_wire (hnat : ∀ n : ℕ, num.Exact n) {frame : Frame} (h : FrameOk num frame) :
    ∃ wire : WireFrame num, wire.text = frame.text num ∧ wire.message = frame.message num ∧
      wire.payload = frame.payload := by
  have hname : ∃ name : EventName, name.text = frame.name := by
    cases frame with
    | snapshot => exact ⟨.snapshot, rfl⟩
    | agentStateChanged event => exact ⟨.agentStateChanged, h.name.symm⟩
    | heartbeat => exact ⟨.heartbeat, rfl⟩
  obtain ⟨name, hname⟩ := hname
  refine ⟨⟨name, frame.payload, frame.id, writable_payload hnat h⟩, ?_, ?_, rfl⟩
  · rw [WireFrame.text, hname]
    rfl
  · rw [WireFrame.message, hname]
    rfl

/-- The frames are read as their messages. -/
theorem parse_frames (hnat : ∀ n : ℕ, num.Exact n) {frames : List Frame}
    (h : ∀ f ∈ frames, FrameOk num f) :
    EventStream.parse (frames.flatMap (Frame.text num)) = frames.map (Frame.message num) := by
  have hblocks : frames.flatMap (Frame.text num) =
      (frames.map (Frame.message num)).flatMap EventStream.block := by
    rw [List.flatMap_map]
    refine List.flatMap_congr ?_
    intro f hf
    obtain ⟨wire, htext, hmessage, -⟩ := frame_wire hnat (h f hf)
    rw [← htext, ← hmessage]
    exact text_eq_block wire
  rw [hblocks]
  apply EventStream.parse_blocks
  intro m hm
  obtain ⟨f, hf, rfl⟩ := List.mem_map.1 hm
  obtain ⟨wire, -, hmessage, -⟩ := frame_wire hnat (h f hf)
  rw [← hmessage]
  exact message_carried wire

/-- The messages are decoded as the payloads. -/
theorem readMessages (hnat : ∀ n : ℕ, num.Exact n) {frames : List Frame}
    (h : ∀ f ∈ frames, FrameOk num f) :
    (frames.map (Frame.message num)).filterMap (readMessage num) =
      frames.map (fun f => (f.name.toList, f.payload)) := by
  induction frames with
  | nil => rfl
  | cons f frames ih =>
    rw [List.forall_mem_cons] at h
    have hread : readMessage num (f.message num) = some (f.name.toList, f.payload) := by
      rw [readMessage, Frame.message]
      dsimp only
      rw [loads_encode compactStyle (writable_payload hnat h.1)]
      rfl
    rw [List.map_cons, List.filterMap_cons_some hread, ih h.2, List.map_cons]

/-! ## Views -/

/-- The JSON of a visual state. -/
def stateJson (state : VisualState) : Json := .obj (Agency3d.stateFields state)

/-- The overlay on JSON agents is the overlay on records. -/
theorem layOver_eq (event : Event) (base shown : AgentView) :
    layOver (Agency3d.eventFields event) (.obj (Agency3d.agentFields base))
        (.obj (Agency3d.agentFields shown)) =
      .obj (Agency3d.agentFields
        (if base.agentId = event.agentId then overlay base event else shown)) := by
  have hequal : Python.equal (Agency3d.field (.obj (Agency3d.agentFields base)) "agent_id")
      (Agency3d.field (.obj (Agency3d.eventFields event)) "agent_id") =
      decide (base.agentId = event.agentId) := by
    have hsame := Agency3d.equal_optText (some base.agentId) (some event.agentId)
    simp only [Option.some.injEq] at hsame
    exact hsame
  rw [layOver, hequal, Agency3d.overlay_eq]
  by_cases hid : base.agentId = event.agentId
  · simp [hid]
  · simp [hid]

theorem set_agents (state : VisualState) (agents : List AgentView) :
    Dict.set (Agency3d.stateFields state) "agents"
        (.arr (agents.map (fun view => .obj (Agency3d.agentFields view)))) =
      Agency3d.stateFields { state with agents := agents } := by
  cases hsource : state.taskBusSource <;>
    simp [Agency3d.stateFields, Agency3d.optFields, Dict.set, hsource]

/-- Applying a change to the JSON state is applying the event to the record. -/
theorem applyChange_eq (visual view : VisualState) (event : Event) :
    applyChange (stateJson visual) (Agency3d.eventFields event) (stateJson view) =
      stateJson (applyEvent visual view event) := by
  have hfield : ∀ state : VisualState, Agency3d.field (stateJson state) "agents" =
      .arr (state.agents.map (fun view => .obj (Agency3d.agentFields view))) := fun _ => rfl
  have hagents : List.zipWith (layOver (Agency3d.eventFields event))
      (visual.agents.map (fun view => .obj (Agency3d.agentFields view)))
      (view.agents.map (fun view => .obj (Agency3d.agentFields view))) =
      (applyEvent visual view event).agents.map (fun view => .obj (Agency3d.agentFields view)) := by
    rw [List.zipWith_map, applyEvent, List.map_zipWith]
    simp only [layOver_eq]
  unfold applyChange
  rw [hfield, hfield]
  simp only [stateJson, hagents, set_agents]
  rfl

section

variable (rest : Json) (view : Option Json)

theorem receiveJson_snapshot (payload : Json) :
    receiveJson rest view ("snapshot".toList, payload) =
      some (Agency3d.field payload "visual_state") := if_pos rfl

theorem receiveJson_changed (live : List (String × Json)) :
    receiveJson rest view ("agent_state_changed".toList, .obj live) =
      view.map (applyChange rest live) := by
  have hne : "agent_state_changed".toList ≠ "snapshot".toList := by decide
  exact (if_neg hne).trans (if_pos rfl)

theorem receiveJson_heartbeat (payload : Json) :
    receiveJson rest view ("heartbeat".toList, payload) = view := by
  have hsnapshot : "heartbeat".toList ≠ "snapshot".toList := by decide
  have hchanged : "heartbeat".toList ≠ "agent_state_changed".toList := by decide
  exact (if_neg hsnapshot).trans (if_neg hchanged)

end

/-- The reader does with a payload what the client does with its frame. -/
theorem receiveJson_eq (visual : VisualState) (view : Option VisualState) {frame : Frame}
    (h : FrameOk num frame) :
    receiveJson (stateJson visual) (view.map stateJson) (frame.name.toList, frame.payload) =
      (receive visual view frame).map stateJson := by
  cases frame with
  | snapshot sequence occurredAt visualState => exact receiveJson_snapshot _ _ _
  | agentStateChanged event =>
    rw [Frame.name, h.name, Frame.payload, receiveJson_changed]
    cases view with
    | none => rfl
    | some view => exact congrArg some (applyChange_eq visual view event)
  | heartbeat sequence occurredAt => exact receiveJson_heartbeat _ _ _

/-- Reading the frames as JSON and as records gives the same view; by induction on the
frames. -/
theorem foldl_receiveJson (visual : VisualState) (view : Option VisualState) {frames : List Frame}
    (h : ∀ f ∈ frames, FrameOk num f) :
    (frames.map (fun f => (f.name.toList, f.payload))).foldl (receiveJson (stateJson visual))
        (view.map stateJson) =
      (frames.foldl (receive visual) view).map stateJson := by
  induction frames generalizing view with
  | nil => rfl
  | cons f frames ih =>
    rw [List.forall_mem_cons] at h
    rw [List.map_cons, List.foldl_cons, receiveJson_eq visual view h.1, ih _ h.2, List.foldl_cons]

/-- The text of the frames gives the view of the frames. -/
theorem readBody_frames (hnat : ∀ n : ℕ, num.Exact n) (visual : VisualState) {frames : List Frame}
    (h : ∀ f ∈ frames, FrameOk num f) :
    readBody num (stateJson visual) (frames.flatMap (Frame.text num)) =
      (clientView visual frames).map stateJson := by
  rw [readBody, parse_frames hnat h, readMessages hnat h]
  exact foldl_receiveJson visual none h

/-! ## Every run -/

/-- A frame that is made of events whose text comes back is such a frame. -/
theorem frameOk_of_madeOf {visual : VisualState}
    (hrest : ∀ view ∈ visual.agents, num.Exact view.progress) {f : Frame}
    (h : f.MadeOf visual (EventOk num)) : FrameOk num f := by
  cases f with
  | snapshot sequence occurredAt state =>
    obtain ⟨slots, hslots, rfl⟩ := h
    rw [FrameOk, liveVisualState, List.forall_mem_map]
    intro base hbase
    unfold liveAgent
    cases hslot : slots base.agentId with
    | none => exact hrest base hbase
    | some e => exact (hslots base.agentId e hslot).2.progress
  | agentStateChanged event => exact h
  | heartbeat sequence occurredAt => trivial

/-- If every progress that is published is written exactly, every frame comes back. -/
theorem frameOk_afterSteps {visual : VisualState}
    (hrest : ∀ view ∈ visual.agents, num.Exact view.progress) {ls : List Step}
    (hls : ∀ now payload, .publish now payload ∈ ls → num.Exact payload.progress) (c : ℕ) :
    ∀ f ∈ ((afterSteps visual ls).connections c).frames, FrameOk num f := by
  have hcontents : Contents visual (EventOk num) (afterSteps visual ls) :=
    contents_afterSteps (fun now payload hmem _ => ⟨rfl, hls now payload hmem⟩)
  exact fun f hf => frameOk_of_madeOf hrest (hcontents.frames c f hf)

/-- The entries at rest have no progress. -/
theorem exact_visualState (hnat : ∀ n : ℕ, num.Exact n) (manifest : Manifest)
    (posts : List AgentPost) :
    ∀ view ∈ (visualState manifest posts).agents, num.Exact view.progress := by
  rw [visualState, List.forall_mem_map]
  intro post _
  have hzero := hnat 0
  rw [Nat.cast_zero] at hzero
  exact hzero

section

variable (num : NumText) (hnat : ∀ n : ℕ, num.Exact n) (manifest : Manifest)
  (posts : List AgentPost)

include hnat

/-- At every point of every run, the text that was sent to a connection gives the view of
its frames. -/
theorem read_body (ls : List Step)
    (hls : ∀ now payload, .publish now payload ∈ ls → num.Exact payload.progress) (c : ℕ) :
    readBody num (stateJson (visualState manifest posts))
        (((afterSteps (visualState manifest posts) ls).connections c).body num) =
      (clientView (visualState manifest posts)
        ((afterSteps (visualState manifest posts) ls).connections c).frames).map stateJson :=
  readBody_frames hnat _
    (frameOk_afterSteps (exact_visualState hnat manifest posts) hls c)

/-- Wherever the response is cut off, what is read is the view of the first frames: no
part of a frame is taken for a message. -/
theorem cut_stream (ls : List Step)
    (hls : ∀ now payload, .publish now payload ∈ ls → num.Exact payload.progress) (c : ℕ)
    {cut : List Char}
    (hcut : cut <+: ((afterSteps (visualState manifest posts) ls).connections c).body num) :
    ∃ sent, sent <+: ((afterSteps (visualState manifest posts) ls).connections c).frames ∧
      readBody num (stateJson (visualState manifest posts)) cut =
        (clientView (visualState manifest posts) sent).map stateJson := by
  have hframes := frameOk_afterSteps (exact_visualState hnat manifest posts) hls c
  generalize (afterSteps (visualState manifest posts) ls).connections c = con at hcut hframes ⊢
  have hparse := EventStream.parse_cut hcut
  rw [Connection.body, parse_frames hnat hframes] at hparse
  -- the messages that are read are those of the first frames
  obtain ⟨n, hn⟩ : ∃ n, EventStream.parse cut = (con.frames.take n).map (Frame.message num) := by
    rw [List.prefix_iff_eq_take, ← List.map_take] at hparse
    exact ⟨_, hparse⟩
  refine ⟨con.frames.take n, List.take_prefix _ _, ?_⟩
  have htake : ∀ f ∈ con.frames.take n, FrameOk num f :=
    fun f hf => hframes f (List.mem_of_mem_take hf)
  rw [readBody, hn, readMessages hnat htake]
  exact foldl_receiveJson _ none htake

/-- A streaming connection whose queue is empty, and to which the latest event of no agent
of the registry was lost: the text of its response, read with the answer of
`/v1/autonomy/visual-state`, gives the value that `_live_visual_state` returns. -/
theorem stream_shows_live (ls : List Step)
    (hls : ∀ now payload, .publish now payload ∈ ls → num.Exact payload.progress) (c : ℕ)
    (hphase : ((afterSteps (visualState manifest posts) ls).connections c).phase = .streaming)
    (hdrained : (afterSteps (visualState manifest posts) ls).queue c = [])
    (hcurrent : ∀ post ∈ posts, ∀ e n, Board.lastFor (fun p : Event × ℕ => p.1.agentId) post.id
      ((afterSteps (visualState manifest posts) ls).connections c).offered = some (e, n) → n < 256)
    {rest : Json} (hrest : Agency3d.visualState (Agency3d.manifestJson manifest) posts = .ok rest) :
    ∃ live, readBody num rest
        (((afterSteps (visualState manifest posts) ls).connections c).body num) = some live ∧
      Agency3d.liveVisualState (Agency3d.manifestJson manifest) posts (fun id =>
        ((afterSteps (visualState manifest posts) ls).bus.agentTaskState id).map
          Agency3d.eventFields) = .ok live := by
  rw [Agency3d.visualState_eq] at hrest
  cases hrest
  have hreg := registered_of_drained (visualState manifest posts) hphase hdrained
  obtain ⟨g, hview, hpatched⟩ :=
    (tracks_afterSteps (visualState manifest posts) ls hreg).view hphase
  -- every entry of the view is the live one
  have hlive : showing (visualState manifest posts) g =
      showing (visualState manifest posts)
        (liveAgent (afterSteps (visualState manifest posts) ls).bus.agentTaskState) := by
    unfold showing
    congr 1
    refine List.map_congr_left ?_
    intro base hbase
    rw [visualState, List.mem_map] at hbase
    obtain ⟨post, hpost, rfl⟩ := hbase
    refine hpatched _ ?_
    exact fun p hp => hcurrent post hpost p.1 p.2 hp
  refine ⟨_, ?_, Agency3d.liveVisualState_eq manifest posts _⟩
  exact (read_body num hnat manifest posts ls hls c).trans
    (by rw [hview, hlive, liveVisualState_eq]; rfl)

end

/-! ## One connection -/

/-- A connection that is sent an event which its snapshot already has. -/
def oneEvent : List Step := [.connect, .publish morning writing, .start 0 morning, .deliver 0]

def onePost : List AgentPost := [⟨"copywriter", "Copywriter"⟩]

theorem integers_nat (n : ℕ) : integers.Exact n := Rat.den_natCast n

theorem exact_oneEvent (now : Utc) (payload : Payload)
    (h : Step.publish now payload ∈ oneEvent) : integers.Exact payload.progress := by
  simp only [oneEvent, List.mem_cons, List.not_mem_nil, or_false, reduceCtorEq, false_or,
    Step.publish.injEq] at h
  rw [h.2]
  exact integers_nat 10

/-- The first hundred characters end within the snapshot. -/
theorem cut_stream_early : ∃ sent,
    sent <+: ((afterSteps (visualState emptyManifest onePost) oneEvent).connections 0).frames ∧
      readBody integers (stateJson (visualState emptyManifest onePost))
          ((((afterSteps (visualState emptyManifest onePost) oneEvent).connections 0).body
            integers).take 100) =
        (clientView (visualState emptyManifest onePost) sent).map stateJson :=
  cut_stream integers integers_nat emptyManifest onePost oneEvent exact_oneEvent 0
    (List.take_prefix 100 _)

theorem stream_shows_live_one : ∃ live,
    readBody integers (stateJson (visualState emptyManifest onePost))
        (((afterSteps (visualState emptyManifest onePost) oneEvent).connections 0).body integers) =
      some live ∧
    Agency3d.liveVisualState (Agency3d.manifestJson emptyManifest) onePost (fun id =>
      ((afterSteps (visualState emptyManifest onePost) oneEvent).bus.agentTaskState id).map
        Agency3d.eventFields) = .ok live := by
  refine stream_shows_live integers integers_nat emptyManifest onePost oneEvent exact_oneEvent 0 rfl rfl
    ?_ (Agency3d.visualState_eq emptyManifest onePost)
  intro post hpost e n hlast
  -- the only offer was to an empty queue
  have hwaiting : ((afterSteps (visualState emptyManifest onePost) oneEvent).connections
      0).offered.map Prod.snd = [0] := rfl
  have hn : n ∈ [0] := by
    rw [← hwaiting]
    exact List.mem_map_of_mem (Board.mem_of_lastFor hlast).1
  rw [List.mem_singleton] at hn
  omega

end AdsHub.Events
