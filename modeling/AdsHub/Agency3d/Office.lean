import AdsHub.Agency3d.Manifest

/-!
# AdsHub.Agency3d.Office — the answers for a manifest with types

The model of `AdsHub.VisualState`, on which the event stream is built, takes the manifest
with the types its file has. Here the two models meet: for the JSON of such a manifest,
`/visual-state` and the live state are the JSON of what that model gives
(`visualState_eq`, `liveVisualState_eq`).
-/

namespace AdsHub.Agency3d

open Python

/-- A text or `null`. -/
def optText (s : Option String) : Json := (s.map Json.str).getD .null

/-- A dictionary of which some fields may be missing. -/
def optFields (fields : List (String × Option Json)) : List (String × Json) :=
  fields.filterMap (fun f => f.2.map (fun v => (f.1, v)))

/-- An asset as JSON. -/
def assetJson (asset : Asset) : Json :=
  .obj (optFields
    [("status", asset.status.map .str), ("validation", asset.validation.map .obj),
     ("rig_profile", asset.rigProfile.map .str), ("model_url", asset.modelUrl.map .str)])

/-- A manifest as JSON. -/
def manifestJson (manifest : AdsHub.Manifest) : Json :=
  .obj (optFields
    [("version", manifest.version.map .str), ("rig_profile", manifest.rigProfile.map .str),
     ("animation_contract", manifest.animationContract.map .str),
     ("assets", some (.obj (manifest.assets.map (fun a => (a.1, assetJson a.2)))))])

/-- The fields of an agent. -/
def agentFields (view : AgentView) : List (String × Json) :=
  [("agent_id", .str view.agentId), ("title", .str view.title),
   ("operational_state", .str view.operationalState), ("task_id", optText view.taskId),
   ("task_type", optText view.taskType), ("room", optText view.room),
   ("home_room", .str view.homeRoom), ("destination", optText view.destination),
   ("work_destination", .str view.workDestination), ("progress", .num view.progress),
   ("priority", .str view.priority), ("tool", optText view.tool),
   ("work_tool", .str view.workTool), ("model_url", optText view.modelUrl),
   ("asset_status", .str view.assetStatus), ("rig_profile", .str view.rigProfile),
   ("updated_at", optText view.updatedAt)]

/-- The fields of the visual state; only the live one has the last. -/
def stateFields (state : AdsHub.VisualState) : List (String × Json) :=
  optFields
    [("contract_version", some (.str state.contractVersion)),
     ("asset_manifest_version", some (optText state.assetManifestVersion)),
     ("animation_contract", some (.str state.animationContract)),
     ("rig_profile", some (.str state.rigProfile)), ("source", some (.str state.source)),
     ("task_bus_connected", some (.bool state.taskBusConnected)),
     ("agents", some (.arr (state.agents.map (fun view => .obj (agentFields view))))),
     ("task_bus_source", state.taskBusSource.map .str)]

/-- The event in a slot, as the dictionary it is. -/
def eventFields (event : Event) : List (String × Json) :=
  optFields
    [("event", some (.str event.event)), ("sequence", some (.num event.sequence)),
     ("occurred_at", some (.str event.occurredAt)), ("agent_id", some (.str event.agentId)),
     ("operational_state", some (.str event.operationalState)),
     ("task_id", some (optText event.taskId)), ("task_type", some (optText event.taskType)),
     ("room", event.room.map optText), ("destination", event.destination.map optText),
     ("progress", some (.num event.progress)), ("priority", some (.str event.priority)),
     ("tool", event.tool.map optText), ("source", some (.str event.source))]

/-! ## Lookups -/

/-- A field written only when present is found exactly then. -/
theorem lookup_optFields {fields : List (String × Option Json)}
    (h : (fields.map Prod.fst).Nodup) (key : String) :
    (optFields fields).lookup key = (fields.lookup key).join := by
  induction fields with
  | nil => rfl
  | cons f fields ih =>
    rw [List.map_cons, List.nodup_cons] at h
    rcases f with ⟨k, _ | v⟩
    · -- a missing field is not found further on
      have hskip : optFields ((k, none) :: fields) = optFields fields := rfl
      rw [hskip, ih h.2, List.lookup_cons]
      by_cases hk : key = k
      · rw [beq_iff_eq.2 hk, hk, List.lookup_eq_none_iff.2]
        · rfl
        · intro p hp
          refine bne_iff_ne.2 ?_
          intro heq
          exact h.1 (List.mem_map.2 ⟨p, hp, heq.symm⟩)
      · rw [beq_eq_false_iff_ne.2 hk]
    · have hcons : optFields ((k, some v) :: fields) = (k, v) :: optFields fields := rfl
      rw [hcons, List.lookup_cons, List.lookup_cons]
      by_cases hk : key = k
      · rw [beq_iff_eq.2 hk]
        rfl
      · rw [beq_eq_false_iff_ne.2 hk, ih h.2]

theorem equal_optText (a b : Option String) : equal (optText a) (optText b) = decide (a = b) := by
  cases a with
  | none => cases b <;> rfl
  | some s =>
    cases b with
    | none => rfl
    | some t =>
      rw [optText, optText, Option.map_some, Option.map_some, Option.getD_some, Option.getD_some,
        equal, beq_eq_decide]
      simp

/-- Every field the code reads of an asset entry, in the record's own terms. -/
theorem get_asset (asset : Asset) (key : String) (fallback : Json) :
    get (assetJson asset) key fallback = .ok ((List.lookup key
      [("status", asset.status.map .str), ("validation", asset.validation.map .obj),
       ("rig_profile", asset.rigProfile.map .str),
       ("model_url", asset.modelUrl.map .str)]).join.getD fallback) := by
  rw [assetJson, get_obj, lookup_optFields (by simp)]

section

variable (asset : Asset)

/-- `validation.get('passed') is True`. -/
theorem isTrue_passed :
    ∃ passed, get (orElse ((asset.validation.map Json.obj).getD .null) (.obj [])) "passed" .null =
      .ok passed ∧ isTrue passed = asset.passed := by
  have hfields : orElse ((asset.validation.map Json.obj).getD .null) (.obj []) =
      .obj (asset.validation.getD []) := by
    cases asset.validation with
    | none => rfl
    | some fields => exact orElse_obj fields
  rw [hfields, get_obj]
  refine ⟨_, rfl, ?_⟩
  unfold Asset.passed
  cases (asset.validation.getD []).lookup "passed" with
  | none => rfl
  | some v => cases v <;> rfl

end

section

variable (manifest : AdsHub.Manifest)

/-- The same for the manifest. -/
theorem get_manifest (key : String) (fallback : Json) :
    get (manifestJson manifest) key fallback = .ok ((List.lookup key
      [("version", manifest.version.map .str), ("rig_profile", manifest.rigProfile.map .str),
       ("animation_contract", manifest.animationContract.map .str),
       ("assets", some (.obj (manifest.assets.map (fun a => (a.1, assetJson a.2)))))]).join.getD
      fallback) := by
  rw [manifestJson, get_obj, lookup_optFields (by simp)]

/-- The decision on an entry, as JSON. -/
theorem approve_eq (asset : Asset) :
    approve (manifestJson manifest) (assetJson asset) = .ok (
      if asset.status = some "approved" ∧ asset.passed = true ∧
          asset.rigProfile = manifest.rigProfile ∧ isText (optText asset.modelUrl) = true then
        assetJson asset
      else .null) := by
  -- what each `get` of the source finds in the record
  have hvalidation : get (assetJson asset) "validation" .null =
      .ok ((asset.validation.map Json.obj).getD .null) := get_asset asset "validation" .null
  have hstatus : get (assetJson asset) "status" .null = .ok (optText asset.status) :=
    get_asset asset "status" .null
  have hrigProfile : get (assetJson asset) "rig_profile" .null = .ok (optText asset.rigProfile) :=
    get_asset asset "rig_profile" .null
  have hrequired : get (manifestJson manifest) "rig_profile" .null =
      .ok (optText manifest.rigProfile) := get_manifest manifest "rig_profile" .null
  have hmodelUrl : get (assetJson asset) "model_url" .null = .ok (optText asset.modelUrl) :=
    get_asset asset "model_url" .null
  obtain ⟨passed, hpassed, htrue⟩ := isTrue_passed asset
  have happroved : equal (optText asset.status) (.str "approved") =
      decide (asset.status = some "approved") := equal_optText asset.status (some "approved")
  unfold approve
  simp only [hvalidation, hstatus, hpassed, hrigProfile, hrequired, hmodelUrl, happroved, htrue,
    equal_optText, bind, Except.bind, pure, Except.pure, decide_eq_true_eq]
  by_cases h₁ : asset.status = some "approved"
  · by_cases h₂ : asset.passed = true
    · by_cases h₃ : asset.rigProfile = manifest.rigProfile
      · simp [h₁, h₂, h₃]
      · simp [h₁, h₂, h₃]
    · simp [h₁, h₂]
  · simp [h₁]

/-- `approved_asset` as JSON. -/
theorem approvedAsset_eq (agentId : String) :
    approvedAsset (manifestJson manifest) agentId =
      .ok (((AdsHub.approvedAsset manifest agentId).map assetJson).getD .null) := by
  have hassets : get (manifestJson manifest) "assets" .null =
      .ok (.obj (manifest.assets.map (fun a => (a.1, assetJson a.2)))) :=
    get_manifest manifest "assets" .null
  unfold approvedAsset assetOf AdsHub.approvedAsset
  simp only [hassets, bind, Except.bind]
  rw [orElse_obj, get_obj, Dict.lookup_map_value (fun _ => assetJson)]
  cases manifest.assets.lookup agentId with
  | none => rfl
  | some asset =>
    have hobj : orElse (assetJson asset) (.obj []) = assetJson asset := orElse_obj _
    simp only [Option.map_some, Option.getD_some, pure, Except.pure, hobj, approve_eq]
    congr 1
    by_cases h₁ : asset.status = some "approved"
    · cases h₂ : asset.passed with
      | false => simp [h₁]
      | true =>
        by_cases h₃ : asset.rigProfile = manifest.rigProfile
        · cases hurl : asset.modelUrl with
          | none => simp [h₁, h₃, isText, optText]
          | some url => cases hblank : Text.blank url.toList <;> simp [h₁, h₃, isText, optText, hblank]
        · simp [h₁, h₃]
    · simp [h₁]

/-- The entry of an agent as JSON. -/
theorem visualAgent_eq (post : AgentPost) :
    visualAgent (manifestJson manifest) (.str (manifest.rigProfile.getD "ads-humanoid-v1")) post =
      .ok (.obj (agentFields (agentView manifest post))) := by
  unfold visualAgent agentView
  rw [approvedAsset_eq]
  cases hasset : AdsHub.approvedAsset manifest post.id with
  | none => rfl
  | some asset =>
    -- an approved asset has a status, so it is not empty
    have htruthy : isTruthy (assetJson asset) = true := by
      have happroved := approvedAsset_eq manifest post.id
      rw [hasset] at happroved
      obtain ⟨found, -, happrove⟩ := bind_eq_ok.1 happroved
      exact approve_isTruthy happrove (by simp [assetJson])
    have hmodelUrl : get (assetJson asset) "model_url" .null = .ok (optText asset.modelUrl) :=
      get_asset asset "model_url" .null
    simp only [Option.map_some, Option.getD_some, bind, Except.bind, urlIf, htruthy, hmodelUrl,
      if_true]
    rfl

/-- `/visual-state` answers with the visual state. -/
theorem visualState_eq (posts : List AgentPost) :
    visualState (manifestJson manifest) posts =
      .ok (.obj (stateFields (AdsHub.visualState manifest posts))) := by
  have hrig : get (manifestJson manifest) "rig_profile" (.str "ads-humanoid-v1") =
      .ok (.str (manifest.rigProfile.getD "ads-humanoid-v1")) := by
    rw [get_manifest]
    cases manifest.rigProfile <;> rfl
  have hcontract : get (manifestJson manifest) "animation_contract"
      (.str "ads-agent-animation/v1") =
      .ok (.str (manifest.animationContract.getD "ads-agent-animation/v1")) := by
    rw [get_manifest]
    cases manifest.animationContract <;> rfl
  have hversion : get (manifestJson manifest) "version" .null = .ok (optText manifest.version) :=
    get_manifest manifest "version" .null
  have hagents : posts.mapM (visualAgent (manifestJson manifest)
      (.str (manifest.rigProfile.getD "ads-humanoid-v1"))) =
      .ok ((posts.map (agentView manifest)).map (fun view => .obj (agentFields view))) := by
    rw [List.map_map]
    exact mapM_eq_ok (fun post _ => visualAgent_eq manifest post)
  unfold visualState
  simp only [hrig, hcontract, hversion, hagents, bind, Except.bind]
  rfl

end

/-! ## The live state -/

/-- The slot laid over the entry of its agent, as JSON. -/
theorem overlay_eq (view : AgentView) (event : Event) :
    overlay (agentFields view) (eventFields event) = agentFields (AdsHub.overlay view event) := by
  -- a key that the event does not have is passed over
  cases hroom : event.room <;> cases hdestination : event.destination <;>
    cases htool : event.tool <;>
    simp [overlay, liveKeys, eventFields, optFields, agentFields, AdsHub.overlay, Dict.set,
      List.lookup_cons, optText, hroom, hdestination, htool]

/-- The overlay of the JSON view of an agent is the JSON view of the overlaid record. -/
theorem liveAgent_eq (slots : String → Option Event) (view : AgentView) :
    liveAgent (fun id => (slots id).map eventFields) (.obj (agentFields view)) =
      .ok (.obj (agentFields (AdsHub.liveAgent slots view))) := by
  have hitem : item (.obj (agentFields view)) (.str "agent_id") = .ok (.str view.agentId) := rfl
  unfold liveAgent AdsHub.liveAgent
  simp only [items, hitem, bind, Except.bind]
  cases slots view.agentId with
  | none => rfl
  | some event =>
    have hne : (eventFields event).isEmpty = false := rfl
    rw [Option.map_some]
    dsimp only
    rw [hne, overlay_eq]
    rfl

/-- The live state of the task bus is the JSON of the live visual state. -/
theorem liveVisualState_eq (manifest : AdsHub.Manifest) (posts : List AgentPost)
    (slots : String → Option Event) :
    liveVisualState (manifestJson manifest) posts (fun id => (slots id).map eventFields) =
      .ok (.obj (stateFields
        (AdsHub.liveVisualState (AdsHub.visualState manifest posts) slots))) := by
  have hagents : item (.obj (stateFields (AdsHub.visualState manifest posts))) (.str "agents") =
      .ok (.arr ((AdsHub.visualState manifest posts).agents.map
        (fun view => .obj (agentFields view)))) := rfl
  have hlive : ((AdsHub.visualState manifest posts).agents.map
      (fun view => Json.obj (agentFields view))).mapM
        (liveAgent (fun id => (slots id).map eventFields)) =
      .ok ((AdsHub.visualState manifest posts).agents.map
        (fun view => .obj (agentFields (AdsHub.liveAgent slots view)))) := by
    rw [List.mapM_map]
    exact mapM_eq_ok (fun view _ => liveAgent_eq slots view)
  unfold liveVisualState
  simp only [visualState_eq, hagents, hlive, iter, items, bind, Except.bind]
  simp [AdsHub.liveVisualState, stateFields, optFields, Dict.set, AdsHub.visualState, pure,
    Except.pure]

end AdsHub.Agency3d
