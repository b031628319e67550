import AdsHub.Lib.JsonText
import AdsHub.Lib.Python
import AdsHub.VisualState

/-!
# AdsHub.Agency3d.Manifest — which 3D assets are released

`asset_manifest`, `approved_asset` and the two endpoints of `app/autonomy.py` that show
assets, `/asset-manifest` and `/visual-state`, with `_live_visual_state` of
`app/main.py`. The manifest is whatever JSON the policy file holds, with fields missing,
null or of the wrong type; an endpoint that raises answers 500.

`unapproved_assets_do_not_leak` is about two manifests: if they differ in the `model_url`
of assets that are not approved, nobody can tell. It is shown through `redact`, which
takes these urls out of a manifest; no answer changes. `visualState_eq` connects the
endpoints with the model of `AdsHub.VisualState`, in which the manifest has types.

The endpoints read the manifest on every call; it is an argument here.
-/

namespace AdsHub.Agency3d

open Python

/-- `asset_manifest`, for what `model_policy` returns. -/
def assetManifest (policy : Json) : Except Error Json := get policy "agency_3d_assets" (.obj [])

/-- `x is True`. -/
def isTrue : Json → Bool
  | .bool b => b
  | _ => false

/-- `isinstance(x, str) and x.strip()`. -/
def isText : Json → Bool
  | .str s => !Text.blank s.toList
  | _ => false

/-- The entry of an agent in the manifest. -/
def assetOf (manifest : Json) (agentId : String) : Except Error Json := do
  let assets ← get manifest "assets" .null
  let asset ← get (orElse assets (.obj [])) agentId .null
  return orElse asset (.obj [])

/-- The decision of `approved_asset` on an entry. -/
def approve (manifest asset : Json) : Except Error Json := do
  let validation ← get asset "validation" .null
  let status ← get asset "status" .null
  if equal status (.str "approved") then
    let passed ← get (orElse validation (.obj [])) "passed" .null
    if isTrue passed then
      let rigProfile ← get asset "rig_profile" .null
      let required ← get manifest "rig_profile" .null
      if equal rigProfile required then
        let modelUrl ← get asset "model_url" .null
        return if isText modelUrl then asset else .null
      else return .null
    else return .null
  else return .null

/-- `approved_asset`. -/
def approvedAsset (manifest : Json) (agentId : String) : Except Error Json := do
  let asset ← assetOf manifest agentId
  approve manifest asset

/-- `entry.get('model_url') if asset else None`. -/
def urlIf (asset entry : Json) : Except Error Json :=
  if isTruthy asset then get entry "model_url" .null else .ok .null

/-- An entry of the answer of `/asset-manifest`. -/
def assetEntry (manifest : Json) (entry : String × Json) : Except Error (String × Json) := do
  let status ← get entry.2 "status" (.str "pending")
  let asset ← approvedAsset manifest entry.1
  let modelUrl ← urlIf asset entry.2
  let rigProfile ← get entry.2 "rig_profile" .null
  let validation ← get entry.2 "validation" (.obj [])
  return (entry.1, .obj
    [("status", status), ("model_url", modelUrl), ("rig_profile", rigProfile),
     ("validation", validation)])

/-- `get_asset_manifest`. -/
def getAssetManifest (manifest : Json) : Except Error Json := do
  let assets ← get manifest "assets" .null
  let assets ← items (orElse assets (.obj []))
  let entries ← assets.mapM (assetEntry manifest)
  let fields ← items manifest
  return .obj (Dict.set fields "assets" (.obj (Dict.ofItems entries)))

/-- The entry of one agent in `visual_state`. -/
def visualAgent (manifest rigProfile : Json) (post : AgentPost) : Except Error Json := do
  let (room, destination, tool) :=
    (visualPosts.lookup post.id).getD ("rest", "rest_seat", "none")
  let asset ← approvedAsset manifest post.id
  let modelUrl ← urlIf asset asset
  return .obj
    [("agent_id", .str post.id), ("title", .str post.title), ("operational_state", .str "rest"),
     ("task_id", .null), ("task_type", .null), ("room", .str "rest"), ("home_room", .str room),
     ("destination", .str "rest_seat"), ("work_destination", .str destination),
     ("progress", .num 0), ("priority", .str "normal"), ("tool", .str "none"),
     ("work_tool", .str tool), ("model_url", modelUrl),
     ("asset_status", .str (if isTruthy asset then "approved" else "pending")),
     ("rig_profile", rigProfile), ("updated_at", .null)]

/-- `visual_state`. -/
def visualState (manifest : Json) (posts : List AgentPost) : Except Error Json := do
  let rigProfile ← get manifest "rig_profile" (.str "ads-humanoid-v1")
  let animationContract ← get manifest "animation_contract" (.str "ads-agent-animation/v1")
  let agents ← posts.mapM (visualAgent manifest rigProfile)
  let version ← get manifest "version" .null
  return .obj
    [("contract_version", .str "ads-agent-visual-state/v1"), ("asset_manifest_version", version),
     ("animation_contract", animationContract), ("rig_profile", rigProfile),
     ("source", .str "ads-ai-hub"), ("task_bus_connected", .bool false), ("agents", .arr agents)]

/-- The keys of a slot that `_live_visual_state` copies, with their names in the entry. -/
def liveKeys : List (String × String) :=
  [("operational_state", "operational_state"), ("task_id", "task_id"), ("task_type", "task_type"),
   ("room", "room"), ("destination", "destination"), ("progress", "progress"),
   ("priority", "priority"), ("tool", "tool"), ("occurred_at", "updated_at")]

/-- The loop over the keys of a slot. -/
def overlay (agent live : List (String × Json)) : List (String × Json) :=
  liveKeys.foldl (fun agent key =>
    match live.lookup key.1 with
    | some v => Dict.set agent key.2 v
    | none => agent) agent

/-- An agent with its slot laid over it, if there is one with something in it. -/
def liveAgent (slots : String → Option (List (String × Json))) (agent : Json) :
    Except Error Json := do
  let fields ← items agent
  let agentId ← item agent (.str "agent_id")
  match agentId with
  | .str id =>
    match slots id with
    | some live => return .obj (if live.isEmpty then fields else overlay fields live)
    | none => return agent
  | _ => return agent

/-- `_live_visual_state`; `slots` is `_agent_task_state`. -/
def liveVisualState (manifest : Json) (posts : List AgentPost)
    (slots : String → Option (List (String × Json))) : Except Error Json := do
  let state ← visualState manifest posts
  let agents ← item state (.str "agents")
  let agents ← iter agents
  let agents ← agents.mapM (liveAgent slots)
  let fields ← items state
  let fields := Dict.set fields "task_bus_connected" (.bool true)
  let fields := Dict.set fields "task_bus_source" (.str "production-only")
  return .obj (Dict.set fields "agents" (.arr agents))

/-! ## Redaction -/

/-- A field; `null` if there is none. -/
def field (x : Json) (key : String) : Json :=
  match x with
  | .obj fields => (fields.lookup key).getD .null
  | _ => .null

/-- The asset is approved: its status says so, its validation has passed, and its rig is
that of the manifest. -/
def isApproved (manifest asset : Json) : Bool :=
  equal (field asset "status") (.str "approved") &&
    isTrue (field (field asset "validation") "passed") &&
    equal (field asset "rig_profile") (field manifest "rig_profile")

/-- The asset without its url. -/
def withoutUrl : Json → Json
  | .obj fields => .obj (fields.filter (fun f => f.1 ≠ "model_url"))
  | x => x

def redactAsset (manifest asset : Json) : Json :=
  if isApproved manifest asset then asset else withoutUrl asset

def redactAssets (manifest : Json) : Json → Json
  | .obj assets => .obj (assets.map (fun a => (a.1, redactAsset manifest a.2)))
  | x => x

def redactField (manifest : Json) (key : String) (x : Json) : Json :=
  if key = "assets" then redactAssets manifest x else x

/-- The manifest without the urls of the assets that are not approved. -/
def redact : Json → Json
  | .obj fields => .obj (fields.map (fun f => (f.1, redactField (.obj fields) f.1 f.2)))
  | x => x

/-- The two manifests differ at most in the urls of assets that are not approved. -/
def Alike (manifest manifest' : Json) : Prop := redact manifest = redact manifest'

variable {manifest asset : Json}

/-- A redacted asset has all its fields but the url. -/
theorem get_redactAsset (key : String) (h : key ≠ "model_url") (manifest asset fallback : Json) :
    get (redactAsset manifest asset) key fallback = get asset key fallback := by
  unfold redactAsset
  split
  · rfl
  · cases asset with
    | obj fields => 
      have hkeep : decide (key ≠ "model_url") = true := decide_eq_true h
      rw [withoutUrl, get_obj, get_obj, Dict.lookup_filter (fun k => decide (k ≠ "model_url")) hkeep]
    | _ => rfl

/-- A redacted manifest has all its fields but the assets. -/
theorem get_redact {key : String} (h : key ≠ "assets") (manifest fallback : Json) :
    get (redact manifest) key fallback = get manifest key fallback := by
  cases manifest with
  | obj fields =>
    have hsame : redactField (.obj fields) key = id := funext (fun _ => if_neg h)
    rw [redact, get_obj, get_obj, Dict.lookup_map_value (redactField (.obj fields)), hsame,
      Option.map_id_fun, id]
  | _ => rfl

/-- The redacted manifest's `assets` are the redacted assets of the manifest. -/
theorem get_redact_assets (manifest : Json) :
    get (redact manifest) "assets" .null =
      (get manifest "assets" .null).map (redactAssets manifest) := by
  cases manifest with
  | obj fields =>
    rw [redact, get_obj, get_obj, Dict.lookup_map_value (redactField (.obj fields))]
    cases fields.lookup "assets" <;> rfl
  | _ => rfl

/-- A value without fields is left as it is. -/
theorem redactAsset_eq_self {asset : Json} (h : ∀ fields, asset ≠ .obj fields) (manifest : Json) :
    redactAsset manifest asset = asset := by
  cases asset with
  | obj fields => exact absurd rfl (h fields)
  | _ =>
    unfold redactAsset
    split <;> rfl

/-- A redacted object is still an object. -/
theorem redactAsset_obj (manifest : Json) (fields : List (String × Json)) :
    ∃ fields', redactAsset manifest (.obj fields) = .obj fields' := by
  unfold redactAsset
  split
  · exact ⟨fields, rfl⟩
  · exact ⟨_, rfl⟩

theorem redactAsset_empty (manifest : Json) : redactAsset manifest (.obj []) = .obj [] := by
  unfold redactAsset
  split <;> rfl

theorem orElse_obj (fields : List (String × Json)) :
    orElse (.obj fields) (.obj []) = .obj fields := by
  cases fields <;> rfl

/-- `or {}` before or after the redaction of an entry. -/
theorem orElse_redactAsset (manifest asset : Json) :
    orElse (redactAsset manifest asset) (.obj []) =
      redactAsset manifest (orElse asset (.obj [])) := by
  rcases orElse_cases asset with ⟨fields, rfl, horElse⟩ | ⟨hscalar, hsame | hempty⟩
  · obtain ⟨fields', hredact⟩ := redactAsset_obj manifest fields
    rw [horElse, hredact, orElse_obj]
  · rw [redactAsset_eq_self hscalar, hsame, redactAsset_eq_self hscalar]
  · rw [redactAsset_eq_self hscalar, hempty, redactAsset_empty]

/-- Redaction touches objects only. -/
theorem redactAssets_eq_self {assets : Json} (h : ∀ fields, assets ≠ .obj fields)
    (manifest : Json) : redactAssets manifest assets = assets := by
  cases assets with
  | obj fields => exact absurd rfl (h fields)
  | _ => rfl

/-- Looking up an agent commutes with redaction, the `or {}` of the source included. -/
theorem get_redactAssets (manifest assets : Json) (agentId : String) :
    get (orElse (redactAssets manifest assets) (.obj [])) agentId .null =
      (get (orElse assets (.obj [])) agentId .null).map (redactAsset manifest) := by
  have hnull : redactAsset manifest .null = .null :=
    redactAsset_eq_self (fun _ h => by cases h) manifest
  rcases orElse_cases assets with ⟨entries, rfl, -⟩ | ⟨hscalar, hsame | hempty⟩
  · rw [redactAssets, orElse_obj, orElse_obj, get_obj, get_obj,
      Dict.lookup_map_value (fun _ => redactAsset manifest)]
    cases entries.lookup agentId with
    | none => exact congrArg Except.ok hnull.symm
    | some entry => rfl
  · rw [redactAssets_eq_self hscalar, hsame, get_eq_error hscalar]
    rfl
  · rw [redactAssets_eq_self hscalar, hempty]
    exact congrArg Except.ok hnull.symm

/-- The entry found for an agent in the redacted manifest is the redacted entry. -/
theorem assetOf_redact (manifest : Json) (agentId : String) :
    assetOf (redact manifest) agentId = (assetOf manifest agentId).map (redactAsset manifest) := by
  unfold assetOf
  rw [get_redact_assets]
  cases get manifest "assets" .null with
  | error e => rfl
  | ok assets =>
    have hget := get_redactAssets manifest assets agentId
    simp only [Except.map, bind, Except.bind] at hget ⊢
    rw [hget]
    cases get (orElse assets (.obj [])) agentId .null with
    | error e => rfl
    | ok asset => exact congrArg Except.ok (orElse_redactAsset manifest asset)

/-! ## The decision -/

/-- A successful `get` returns the field's value. -/
theorem get_eq_field {x v : Json} {key : String} (h : get x key .null = .ok v) :
    v = field x key := by
  obtain ⟨fields, rfl, hv⟩ := get_eq_ok h
  exact hv

theorem get_orElse_eq_field {x v : Json} {key : String}
    (h : get (orElse x (.obj [])) key .null = .ok v) : v = field x key := by
  rcases orElse_cases x with ⟨fields, rfl, horElse⟩ | ⟨hscalar, hsame | hempty⟩
  · rw [horElse] at h
    exact get_eq_field h
  · rw [hsame] at h
    exact get_eq_field h
  · rw [hempty] at h
    cases x with
    | obj fields => exact absurd rfl (hscalar fields)
    | _ => exact (Except.ok.inj h).symm

/-- An entry that is returned is approved, and its url is a text. -/
theorem approve_eq_ok {manifest asset a : Json} (h : approve manifest asset = .ok a)
    (ha : a ≠ .null) :
    isApproved manifest asset = true ∧ a = asset ∧ isText (field asset "model_url") = true := by
  -- down the branches of the source; each of the others returns None
  unfold approve at h
  obtain ⟨validation, hvalidation, h⟩ := bind_eq_ok.1 h
  obtain ⟨status, hstatus, h⟩ := bind_eq_ok.1 h
  split at h
  · next hequal =>
    obtain ⟨passed, hpassed, h⟩ := bind_eq_ok.1 h
    split at h
    · next htrue =>
      obtain ⟨rigProfile, hrig, h⟩ := bind_eq_ok.1 h
      obtain ⟨required, hrequired, h⟩ := bind_eq_ok.1 h
      split at h
      · next hsame =>
        obtain ⟨modelUrl, hurl, h⟩ := bind_eq_ok.1 h
        obtain rfl := get_eq_field hvalidation
        obtain rfl := get_eq_field hstatus
        obtain rfl := get_orElse_eq_field hpassed
        obtain rfl := get_eq_field hrig
        obtain rfl := get_eq_field hrequired
        obtain rfl := get_eq_field hurl
        by_cases htext : isText (field asset "model_url") = true
        · rw [if_pos htext] at h
          refine ⟨?_, (Except.ok.inj h).symm, htext⟩
          rw [isApproved, hequal, htrue, hsame]
          rfl
        · rw [if_neg htext] at h
          exact absurd (Except.ok.inj h).symm ha
      · exact absurd (Except.ok.inj h).symm ha
    · exact absurd (Except.ok.inj h).symm ha
  · exact absurd (Except.ok.inj h).symm ha

/-- The url of an entry that is not approved is not looked at. -/
theorem approve_withoutUrl {manifest asset : Json} (h : isApproved manifest asset = false) :
    approve manifest (withoutUrl asset) = approve manifest asset := by
  cases asset with
  | obj fields =>
    have hkeep : ∀ key, key ≠ "model_url" →
        get (withoutUrl (.obj fields)) key .null = get (.obj fields) key .null := by
      intro key hkey
      have hget := get_redactAsset key hkey manifest (.obj fields) .null
      rwa [redactAsset, h] at hget
    unfold approve
    rw [hkeep "validation" (by decide), hkeep "status" (by decide), hkeep "rig_profile" (by decide)]
    simp only [get_obj, bind, Except.bind]
    split
    · next hequal =>
      cases hpassed : get (orElse ((fields.lookup "validation").getD .null) (.obj [])) "passed"
          .null with
      | error e => rfl
      | ok passed =>
        dsimp only
        split
        · next htrue =>
          cases hrequired : get manifest "rig_profile" .null with
          | error e => rfl
          | ok required =>
            dsimp only
            split
            · next hsame =>
              -- all three conditions hold
              rw [get_orElse_eq_field hpassed] at htrue
              rw [get_eq_field hrequired] at hsame
              have happroved : isApproved manifest (.obj fields) = true := by
                rw [isApproved, Bool.and_eq_true, Bool.and_eq_true]
                exact ⟨⟨hequal, htrue⟩, hsame⟩
              rw [happroved] at h
              cases h
            · rfl
        · rfl
    · rfl
  | _ => rfl

/-- Approval reads only what redaction keeps. -/
theorem approve_redact (manifest asset : Json) :
    approve (redact manifest) (redactAsset manifest asset) = approve manifest asset := by
  have hmanifest : ∀ a, approve (redact manifest) a = approve manifest a := by
    intro a
    unfold approve
    rw [get_redact (by decide)]
  rw [hmanifest]
  unfold redactAsset
  split
  · rfl
  · next h => exact approve_withoutUrl (Bool.not_eq_true _ ▸ h)

/-- The decision on an agent does not depend on the urls that are not released. -/
theorem approvedAsset_redact (manifest : Json) (agentId : String) :
    approvedAsset (redact manifest) agentId = approvedAsset manifest agentId := by
  unfold approvedAsset
  rw [assetOf_redact]
  cases assetOf manifest agentId with
  | error e => rfl
  | ok asset => exact approve_redact manifest asset

/-! ## The answers -/

/-- What `asset_manifest` returns: a decoded value. -/
structure ManifestFile where
  value : Json
  keyed : Keyed value

/-- The manifest of a policy file is such a value. -/
theorem assetManifest_keyed {num : List Char → ℚ} {text : List Char} {policy manifest : Json}
    (hpolicy : JsonText.loads num text = some policy) (h : assetManifest policy = .ok manifest) :
    Keyed manifest := by
  obtain ⟨fields, rfl, hvalue⟩ := get_eq_ok h
  cases hlookup : fields.lookup "agency_3d_assets" with
  | none =>
    rw [hvalue, hlookup]
    exact Keyed.obj List.nodup_nil (List.forall_mem_nil _)
  | some v =>
    rw [hvalue, hlookup]
    exact (loads_keyed hpolicy).lookup hlookup

/-- The manifest in the text of a policy file. -/
def ManifestFile.ofText {num : List Char → ℚ} {text : List Char} {policy manifest : Json}
    (hpolicy : JsonText.loads num text = some policy) (h : assetManifest policy = .ok manifest) :
    ManifestFile :=
  ⟨manifest, assetManifest_keyed hpolicy h⟩

/-- The manifest in the text of a policy file that has nothing else. -/
def ManifestFile.ofValue {manifest : Json} (h : JsonText.Writable JsonText.integers manifest) :
    ManifestFile :=
  have hpolicy : JsonText.Writable JsonText.integers (.obj [("agency_3d_assets", manifest)]) :=
    JsonText.writable_obj.2 ⟨List.nodup_singleton _, List.forall_mem_singleton.2 h⟩
  .ofText (JsonText.loads_encode JsonText.unicodeStyle hpolicy) rfl

theorem isTruthy_ne_null {x : Json} (h : isTruthy x = true) : x ≠ .null := by
  rintro rfl
  cases h

/-- The entries of the manifest, and that each is found under its key. -/
theorem assetOf_entry {manifest assets : Json} (hkeyed : Keyed manifest)
    {entries : List (String × Json)} (hassets : get manifest "assets" .null = .ok assets)
    (hentries : items (orElse assets (.obj [])) = .ok entries) {entry : String × Json}
    (hentry : entry ∈ entries) : assetOf manifest entry.1 = .ok (orElse entry.2 (.obj [])) := by
  have hnodup : (entries.map Prod.fst).Nodup := by
    have hobj := items_eq_ok hentries
    rcases orElse_cases assets with ⟨fields, rfl, horElse⟩ | ⟨hscalar, hsame | hempty⟩
    · cases horElse.symm.trans hobj
      -- the assets are a field of the manifest
      obtain ⟨fields, rfl, hvalue⟩ := get_eq_ok hassets
      cases hlookup : fields.lookup "assets" with
      | none =>
        rw [hlookup] at hvalue
        cases hvalue
      | some v =>
        rw [hlookup] at hvalue
        cases hvalue
        cases hkeyed.lookup hlookup with
        | obj hkeys _ => exact hkeys
    · exact absurd (hsame.symm.trans hobj) (hscalar entries)
    · cases hempty.symm.trans hobj
      exact List.nodup_nil
  unfold assetOf
  rw [hassets]
  simp only [bind, Except.bind]
  rw [items_eq_ok hentries, get_obj, Dict.lookup_of_mem hnodup hentry]
  rfl

/-- An entry of the answer does not depend on a url that is not released. -/
theorem assetEntry_redact {manifest : Json} {entry : String × Json}
    (h : assetOf manifest entry.1 = .ok (orElse entry.2 (.obj []))) :
    assetEntry (redact manifest) (entry.1, redactAsset manifest entry.2) =
      assetEntry manifest entry := by
  unfold assetEntry
  dsimp only
  rw [get_redactAsset "status" (by decide), get_redactAsset "rig_profile" (by decide),
    get_redactAsset "validation" (by decide), approvedAsset_redact]
  cases hstatus : get entry.2 "status" (.str "pending") with
  | error e => rfl
  | ok status =>
    cases hasset : approvedAsset manifest entry.1 with
    | error e => rfl
    | ok asset =>
      by_cases htruthy : isTruthy asset = true
      · -- a released asset is not redacted
        obtain ⟨fields, hfields, -⟩ := get_eq_ok hstatus
        unfold approvedAsset at hasset
        rw [h, hfields, orElse_obj, ← hfields] at hasset
        have happroved := (approve_eq_ok hasset (isTruthy_ne_null htruthy)).1
        rw [redactAsset, if_pos happroved]
      · simp only [bind, Except.bind, urlIf, htruthy, Bool.false_eq_true, if_false]

/-- Once `assets` is overwritten, a manifest and its redaction are the same mapping. -/
theorem set_redact (fields : List (String × Json)) (x : Json) :
    Dict.set (fields.map (fun f => (f.1, redactField (.obj fields) f.1 f.2))) "assets" x =
      Dict.set fields "assets" x := by
  have hkeys : (fields.map (fun f => (f.1, redactField (.obj fields) f.1 f.2))).map Prod.fst =
      fields.map Prod.fst := by
    rw [List.map_map]
    rfl
  -- redaction changes no field but `assets`, which is overwritten
  have hfield : ∀ f : String × Json, f.1 ≠ "assets" →
      (f.1, redactField (.obj fields) f.1 f.2) = f := by
    intro f hf
    rw [redactField, if_neg hf]
  unfold Dict.set
  rw [hkeys]
  split
  · rw [List.map_map]
    refine List.map_congr_left ?_
    intro f _
    by_cases hf : f.1 = "assets"
    · simp [hf]
    · simp [hf, hfield f hf]
  · next hnone =>
    have hsame : fields.map (fun f => (f.1, redactField (.obj fields) f.1 f.2)) = fields := by
      conv_rhs => rw [← List.map_id fields]
      refine List.map_congr_left ?_
      intro f hf
      refine hfield f ?_
      intro heq
      exact hnone (heq ▸ List.mem_map_of_mem hf)
    rw [hsame]

/-- The asset manifest endpoint does not depend on what redaction hides. -/
theorem getAssetManifest_redact {manifest : Json} (hkeyed : Keyed manifest) :
    getAssetManifest (redact manifest) = getAssetManifest manifest := by
  unfold getAssetManifest
  rw [get_redact_assets]
  cases hassets : get manifest "assets" .null with
  | error e => rfl
  | ok assets =>
    obtain ⟨fields, rfl, -⟩ := get_eq_ok hassets
    simp only [Except.map, bind, Except.bind]
    rcases orElse_cases assets with ⟨entries, rfl, -⟩ | ⟨hscalar, horElse⟩
    · rw [redactAssets, orElse_obj, orElse_obj]
      have hentries : items (orElse (.obj entries) (.obj [])) = .ok entries := by
        rw [orElse_obj]
        rfl
      -- an entry is redacted with the manifest, and keeps what the endpoint shows of it
      have hmap : (entries.map (fun a => (a.1, redactAsset (.obj fields) a.2))).mapM
          (assetEntry (redact (.obj fields))) = entries.mapM (assetEntry (.obj fields)) := by
        rw [List.mapM_map]
        refine mapM_congr ?_
        intro entry hentry
        exact assetEntry_redact (assetOf_entry hkeyed hassets hentries hentry)
      simp only [items, hmap]
      cases entries.mapM (assetEntry (.obj fields)) with
      | error e => rfl
      | ok answers =>
        simp only [redact, set_redact]
    · rw [redactAssets_eq_self hscalar]
      -- assets that are no object: falsy ones are read as {}, the others raise in both
      rcases horElse with hsame | hempty
      · rw [hsame]
        cases assets with
        | obj entries => exact absurd rfl (hscalar entries)
        | _ => rfl
      · rw [hempty]
        simp only [items, redact, set_redact]
        rfl

/-- Neither does the visual state. -/
theorem visualState_redact (manifest : Json) (posts : List AgentPost) :
    visualState (redact manifest) posts = visualState manifest posts := by
  have hagent : visualAgent (redact manifest) = visualAgent manifest := by
    funext rigProfile post
    unfold visualAgent
    rw [approvedAsset_redact]
  unfold visualState
  rw [get_redact (by decide), get_redact (by decide), get_redact (by decide), hagent]

/-- `/asset-manifest`, `/visual-state` and the snapshot of the event stream answer alike. -/
structure SameAnswers (manifest manifest' : ManifestFile) (posts : List AgentPost)
    (slots : String → Option (List (String × Json))) : Prop where
  assets : getAssetManifest manifest.value = getAssetManifest manifest'.value
  visual : visualState manifest.value posts = visualState manifest'.value posts
  live : liveVisualState manifest.value posts slots = liveVisualState manifest'.value posts slots

/-- The answer of `/asset-manifest` has the entry for the agent. -/
def HasAsset (answer : Json) (agentId : String) (entry : Json) : Prop :=
  ∃ entries, field answer "assets" = .obj entries ∧ entries.lookup agentId = some entry

/-- The answer of `/visual-state` has the entry for the agent. -/
def HasAgent (answer : Json) (agentId : String) (view : Json) : Prop :=
  ∃ agents, field answer "agents" = .arr agents ∧ view ∈ agents ∧
    field view "agent_id" = .str agentId

/-- `approved_asset` accepts the asset of the agent. -/
def Accepted (manifest : Json) (agentId : String) : Prop :=
  ∃ asset, approvedAsset manifest agentId = .ok asset ∧ asset ≠ .null

/-- An agent in both answers has the same url in both, which is there exactly if its
asset is accepted. -/
def UrlsAgree (manifest : ManifestFile) (posts : List AgentPost) : Prop :=
  ∀ answer state agentId entry view, getAssetManifest manifest.value = .ok answer →
    visualState manifest.value posts = .ok state → HasAsset answer agentId entry →
    HasAgent state agentId view →
      field entry "model_url" = field view "model_url" ∧
      (field view "model_url" ≠ .null ↔ Accepted manifest.value agentId)

/-- An asset that is returned is not empty. -/
theorem approve_isTruthy {manifest asset a : Json} (h : approve manifest asset = .ok a)
    (ha : a ≠ .null) : isTruthy a = true := by
  obtain ⟨-, rfl, htext⟩ := approve_eq_ok h ha
  cases a with
  | obj fields =>
    cases fields with
    | nil => cases htext
    | cons f fields => rfl
  | _ => cases htext

/-- The url that both answers take from an asset that was looked at. -/
def urlOf (asset : Json) : Json := if isTruthy asset then field asset "model_url" else .null

/-- There is a url exactly if the asset was accepted. -/
theorem urlOf_ne_null {manifest asset : Json} {agentId : String}
    (h : approvedAsset manifest agentId = .ok asset) :
    urlOf asset ≠ .null ↔ Accepted manifest agentId := by
  have haccepted : Accepted manifest agentId ↔ asset ≠ .null := by
    constructor
    · rintro ⟨asset', hasset', hne⟩
      rwa [Except.ok.inj (h.symm.trans hasset')]
    · intro hne
      exact ⟨asset, h, hne⟩
  rw [haccepted]
  obtain ⟨found, -, happrove⟩ := bind_eq_ok.1 h
  constructor
  · rintro hurl rfl
    exact hurl rfl
  · intro hne
    rw [urlOf, if_pos (approve_isTruthy happrove hne)]
    obtain ⟨-, rfl, htext⟩ := approve_eq_ok happrove hne
    intro hnull
    rw [hnull] at htext
    cases htext

/-- The url shown is the one of the approved asset, or null without one. -/
theorem urlIf_eq_ok {asset entry url : Json} (h : urlIf asset entry = .ok url)
    (hsame : isTruthy asset = true → asset = entry) : url = urlOf asset := by
  unfold urlIf at h
  unfold urlOf
  split at h
  · next htruthy => rw [if_pos htruthy, hsame htruthy, get_eq_field h]
  · next htruthy =>
    rw [if_neg htruthy]
    exact (Except.ok.inj h).symm

/-- An agent of the visual state shows the url of its approved asset. -/
theorem visualAgent_url {manifest rigProfile view : Json} {post : AgentPost}
    (h : visualAgent manifest rigProfile post = .ok view) :
    field view "agent_id" = .str post.id ∧ ∃ asset, approvedAsset manifest post.id = .ok asset ∧
      field view "model_url" = urlOf asset := by
  unfold visualAgent at h
  obtain ⟨asset, hasset, h⟩ := bind_eq_ok.1 h
  obtain ⟨modelUrl, hurl, h⟩ := bind_eq_ok.1 h
  cases h
  exact ⟨rfl, asset, hasset, urlIf_eq_ok hurl (fun _ => rfl)⟩

/-- An entry of the asset manifest shows the url of its approved asset. -/
theorem assetEntry_url {manifest : Json} {entry answer : String × Json}
    (hfound : assetOf manifest entry.1 = .ok (orElse entry.2 (.obj [])))
    (h : assetEntry manifest entry = .ok answer) :
    answer.1 = entry.1 ∧ ∃ asset, approvedAsset manifest entry.1 = .ok asset ∧
      field answer.2 "model_url" = urlOf asset := by
  unfold assetEntry at h
  obtain ⟨status, hstatus, h⟩ := bind_eq_ok.1 h
  obtain ⟨asset, hasset, h⟩ := bind_eq_ok.1 h
  obtain ⟨modelUrl, hurl, h⟩ := bind_eq_ok.1 h
  obtain ⟨rigProfile, -, h⟩ := bind_eq_ok.1 h
  obtain ⟨validation, -, h⟩ := bind_eq_ok.1 h
  cases h
  refine ⟨rfl, asset, hasset, urlIf_eq_ok hurl ?_⟩
  -- what was accepted is the entry itself
  intro htruthy
  obtain ⟨fields, hfields, -⟩ := get_eq_ok hstatus
  unfold approvedAsset at hasset
  rw [hfound, hfields, orElse_obj, ← hfields] at hasset
  exact (approve_eq_ok hasset (isTruthy_ne_null htruthy)).2.1

/-- The same, for an entry found by its agent in the endpoint's answer. -/
theorem hasAsset_url {manifest : Json} (hkeyed : Keyed manifest) {answer entry : Json}
    {agentId : String} (h : getAssetManifest manifest = .ok answer)
    (hentry : HasAsset answer agentId entry) :
    ∃ asset, approvedAsset manifest agentId = .ok asset ∧
      field entry "model_url" = urlOf asset := by
  unfold getAssetManifest at h
  obtain ⟨assets, hassets, h⟩ := bind_eq_ok.1 h
  obtain ⟨entries, hentries, h⟩ := bind_eq_ok.1 h
  obtain ⟨answers, hanswers, h⟩ := bind_eq_ok.1 h
  obtain ⟨fields, -, h⟩ := bind_eq_ok.1 h
  cases h
  obtain ⟨shown, hshown, hlookup⟩ := hentry
  -- the key `assets` of the answer was just set
  have hset : (Dict.set fields "assets" (.obj (Dict.ofItems answers))).lookup "assets" =
      some (.obj (Dict.ofItems answers)) := Dict.lookup_set_self fields "assets" _
  rw [field, hset] at hshown
  cases hshown
  obtain ⟨before, after, heq, -⟩ := List.lookup_eq_some_iff.1 hlookup
  have hmem : (agentId, entry) ∈ Dict.ofItems answers := by
    rw [heq]
    exact List.mem_append_right before List.mem_cons_self
  rcases Dict.mem_of_mem_update hmem with hnil | hanswer
  · cases hnil
  · obtain ⟨item, hitem, hmade⟩ := mem_of_mapM hanswers hanswer
    obtain ⟨hid, hurl⟩ := assetEntry_url (assetOf_entry hkeyed hassets hentries hitem) hmade
    rwa [← hid] at hurl

/-- The same, for an agent found in the visual state. -/
theorem hasAgent_url {manifest : Json} {posts : List AgentPost} {state view : Json}
    {agentId : String} (h : visualState manifest posts = .ok state)
    (hview : HasAgent state agentId view) :
    ∃ asset, approvedAsset manifest agentId = .ok asset ∧
      field view "model_url" = urlOf asset := by
  unfold visualState at h
  obtain ⟨rigProfile, -, h⟩ := bind_eq_ok.1 h
  obtain ⟨animationContract, -, h⟩ := bind_eq_ok.1 h
  obtain ⟨agents, hagents, h⟩ := bind_eq_ok.1 h
  obtain ⟨version, -, h⟩ := bind_eq_ok.1 h
  cases h
  obtain ⟨shown, hshown, hmem, hid⟩ := hview
  cases hshown
  obtain ⟨post, -, hmade⟩ := mem_of_mapM hagents hmem
  obtain ⟨hpost, hurl⟩ := visualAgent_url hmade
  cases hpost.symm.trans hid
  exact hurl

/-- For any two manifests that differ at most in the `model_url` of assets that are not
approved, whatever the state of the task bus: all three answers are the same. And for
every manifest, an agent in both answers has one url, which is there exactly if
`approved_asset` accepts its asset. -/
theorem unapproved_assets_do_not_leak (manifest manifest' : ManifestFile)
    (h : Alike manifest.value manifest'.value) (posts : List AgentPost)
    (slots : String → Option (List (String × Json))) :
    SameAnswers manifest manifest' posts slots ∧ UrlsAgree manifest posts := by
  have hassets : getAssetManifest manifest.value = getAssetManifest manifest'.value := by
    rw [← getAssetManifest_redact manifest.keyed, h, getAssetManifest_redact manifest'.keyed]
  have hvisual : visualState manifest.value posts = visualState manifest'.value posts := by
    rw [← visualState_redact, h, visualState_redact]
  refine ⟨⟨hassets, hvisual, ?_⟩, ?_⟩
  · unfold liveVisualState
    rw [hvisual]
  · intro answer state agentId entry view hanswer hstate hentry hview
    obtain ⟨asset, hasset, hurl⟩ := hasAsset_url manifest.keyed hanswer hentry
    obtain ⟨asset', hasset', hurl'⟩ := hasAgent_url hstate hview
    cases hasset.symm.trans hasset'
    refine ⟨hurl.trans hurl'.symm, ?_⟩
    rw [hurl']
    exact urlOf_ne_null hasset

/-- An asset that is waiting for its approval. -/
def pendingAsset (modelUrl : String) : Json :=
  .obj [("status", .str "pending"), ("model_url", .str modelUrl),
    ("rig_profile", .str "ads-humanoid-v1")]

/-- A manifest with that asset. -/
def pendingValue (modelUrl : String) : Json :=
  .obj [("rig_profile", .str "ads-humanoid-v1"),
    ("assets", .obj [("copywriter", pendingAsset modelUrl)])]

theorem pendingValue_writable (modelUrl : String) :
    JsonText.Writable JsonText.integers (pendingValue modelUrl) := by
  simp [pendingValue, pendingAsset, JsonText.writable_obj, JsonText.Writable.str]

def pendingManifest (modelUrl : String) : ManifestFile := .ofValue (pendingValue_writable modelUrl)

/-- The url of an asset that waits for its approval is not shown. -/
theorem unapproved_assets_do_not_leak_pending :
    Alike (pendingManifest "/models/draft.glb").value (pendingManifest "/models/secret.glb").value ∧
    SameAnswers (pendingManifest "/models/draft.glb") (pendingManifest "/models/secret.glb")
      [⟨"copywriter", "Copywriter"⟩] (fun _ => none) := by
  have halike : Alike (pendingManifest "/models/draft.glb").value
      (pendingManifest "/models/secret.glb").value := rfl
  exact ⟨halike, (unapproved_assets_do_not_leak _ _ halike [⟨"copywriter", "Copywriter"⟩]
    (fun _ => none)).1⟩

end AdsHub.Agency3d
