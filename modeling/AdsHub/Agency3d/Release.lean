import AdsHub.Agency3d.Roots

/-!
# AdsHub.Agency3d.Release — what the gate means for the running hub

The script of the workflow and the endpoints of `app/autonomy.py` read the same manifest,
and each makes its own decision on an asset. Two results line them up:

* `gate_sound`: of an asset with status `approved` in a manifest that the script lets
  through, the file, the names, the counts and the height are as required, in terms of
  the glTF document that is in the file;
* `gate_covers_runtime`: with such a manifest no endpoint fails, the hub decides on an
  entry by its status and whether its url is a text, and every url it shows is that of an
  asset the script has checked.
-/

namespace AdsHub.Agency3d

open Python

/-! ## Documents -/

/-- One of the objects under `key` has the name. -/
def Named (host : Host) (doc : Json) (key name : String) : Prop :=
  ∃ x ∈ arrayOf doc key, isTruthy (field x "name") = true ∧ host.str (field x "name") = name

/-- The number of primitives of all meshes. -/
def primitiveCount (doc : Json) : ℕ :=
  ((arrayOf doc "meshes").map (fun mesh => (arrayOf mesh "primitives").length)).sum

/-- The height that the position accessor of a primitive gives under `key`. -/
def heightUnder (key : String) (doc primitive : Json) : Option ℚ := do
  let i ← naturalOf (field (field primitive "attributes") "POSITION")
  let acc ← (arrayOf doc "accessors")[i]?
  let y ← (arrayOf acc key)[1]?
  numOf y

/-- The heights of all primitives under `key`. -/
def heights (key : String) (doc : Json) : List ℚ :=
  (arrayOf doc "meshes").flatMap (fun mesh =>
    (arrayOf mesh "primitives").filterMap (heightUnder key doc))

/-- What the manifest requires of a document. -/
structure SoundDocument (host : Host) (manifest : GateManifest) (doc : Json) : Prop where
  bones : ∀ name ∈ manifest.requiredBones, Named host doc "nodes" name
  animations : ∀ name ∈ manifest.requiredAnimations, Named host doc "animations" name
  skins : isTruthy (field doc "skins") = true
  materials : ((arrayOf doc "materials").length : ℚ) ≤ manifest.limits.maxMaterials
  textures : ((arrayOf doc "textures").length : ℚ) ≤ manifest.limits.maxTextures
  primitives : (primitiveCount doc : ℚ) ≤ manifest.limits.maxMeshPrimitives
  height : ∀ low ∈ heights "min" doc, ∀ high ∈ heights "max" doc,
    high - low ≤ manifest.limits.maxHeightM

section

variable {host : Host} {manifest : GateManifest} {agentId : String} {doc : Json}

/-- A list that is not empty is what the document has under the key. -/
theorem arrayOf_of_listOf {key : String} {items : List Json} {x : Json}
    (h : listOf doc key = .ok (.arr items)) (hx : x ∈ items) : arrayOf doc key = items := by
  obtain ⟨xs, hget, h⟩ := bind_eq_ok.1 h
  obtain ⟨fields, rfl, rfl⟩ := get_eq_ok hget
  have horElse : orElse ((fields.lookup key).getD .null) (.arr []) = .arr items := Except.ok.inj h
  unfold orElse at horElse
  split at horElse
  · cases hlookup : fields.lookup key with
    | none =>
      rw [hlookup] at horElse
      cases horElse
    | some v =>
      rw [hlookup] at horElse
      cases horElse
      rw [arrayOf, hlookup]
  · cases horElse
    cases hx

/-- The names that are collected are those of objects in a list. -/
theorem mem_nameSet {xs : Json} {names : List String} {name : String}
    (h : nameSet host xs = .ok names) (hname : name ∈ names) :
    ∃ items x, xs = .arr items ∧ x ∈ items ∧ isTruthy (field x "name") = true ∧
      host.str (field x "name") = name := by
  obtain ⟨elements, hiter, h⟩ := bind_eq_ok.1 h
  obtain ⟨values, hvalues, h⟩ := bind_eq_ok.1 h
  cases h
  rw [List.mem_map] at hname
  obtain ⟨v, hv, rfl⟩ := hname
  rw [List.mem_filter] at hv
  obtain ⟨x, hx, hget⟩ := mem_of_mapM hvalues hv.1
  have hfield := get_eq_field hget
  rw [hfield] at hv ⊢
  -- only an object has a name, and only a list has objects
  obtain ⟨fields, hobj, -⟩ := get_eq_ok hget
  cases xs with
  | arr items =>
    cases hiter
    exact ⟨elements, x, rfl, hx, hv.2, rfl⟩
  | obj members =>
    cases hiter
    rw [List.mem_map] at hx
    obtain ⟨f, -, hf⟩ := hx
    rw [← hf] at hobj
    cases hobj
  | str s =>
    cases hiter
    rw [List.mem_map] at hx
    obtain ⟨c, -, hc⟩ := hx
    rw [← hc] at hobj
    cases hobj
  | _ => cases hiter

/-- Passing the name check puts every required name in the document. -/
theorem checkNames_eq_ok {what key : String} {required : List String} {xs : Json}
    (hxs : listOf doc key = .ok xs) (h : checkNames host agentId what required xs = .ok ()) :
    ∀ name ∈ required, Named host doc key name := by
  intro name hname
  obtain ⟨names, hnames, h⟩ := bind_eq_ok.1 h
  have hmissing : (required.filter (fun name => name ∉ names)).isEmpty = true := assert_eq_ok.1 h
  have hmem : name ∈ names := by
    rw [List.isEmpty_iff, List.filter_eq_nil_iff] at hmissing
    simpa using hmissing name hname
  obtain ⟨items, x, rfl, hx, htruthy, hstr⟩ := mem_nameSet hnames hmem
  refine ⟨x, ?_, htruthy, hstr⟩
  rw [arrayOf_of_listOf hxs hx]
  exact hx

/-- The length that is computed is at least that of the list in the document; it can be
more, that of a text or of a dictionary. -/
theorem length_arrayOf_le {x xs : Json} {key : String} {n : ℕ} (hxs : listOf x key = .ok xs)
    (hn : len xs = .ok n) : (arrayOf x key).length ≤ n := by
  cases harray : arrayOf x key with
  | nil => exact Nat.zero_le n
  | cons y ys =>
    have hmem : y ∈ arrayOf x key := by
      rw [harray]
      exact List.mem_cons_self
    rw [listOf_arrayOf hmem] at hxs
    cases hxs
    have hlength : (arrayOf x key).length = n := Except.ok.inj hn
    rw [← harray, hlength]

/-- Passing a count check bounds the array's length. -/
theorem checkCount_eq_ok {key : String} {limit : ℚ}
    (h : checkCount agentId doc key limit = .ok ()) :
    ((arrayOf doc key).length : ℚ) ≤ limit := by
  obtain ⟨xs, hxs, h⟩ := bind_eq_ok.1 h
  obtain ⟨n, hn, h⟩ := bind_eq_ok.1 h
  have hlimit : (n : ℚ) ≤ limit := of_decide_eq_true (assert_eq_ok.1 h)
  have hlength : ((arrayOf doc key).length : ℚ) ≤ n := by
    exact_mod_cast length_arrayOf_le hxs hn
  exact hlength.trans hlimit

/-- The count is at least the number of primitives in the document. -/
theorem countPrimitives_eq_ok {n : ℕ} (h : countPrimitives doc = .ok n) :
    primitiveCount doc ≤ n := by
  unfold primitiveCount
  cases harray : arrayOf doc "meshes" with
  | nil => exact Nat.zero_le n
  | cons mesh meshes =>
    have hmem : mesh ∈ arrayOf doc "meshes" := by
      rw [harray]
      exact List.mem_cons_self
    unfold countPrimitives at h
    obtain ⟨xs, hxs, h⟩ := bind_eq_ok.1 h
    obtain ⟨elements, helements, h⟩ := bind_eq_ok.1 h
    obtain ⟨counts, hcounts, h⟩ := bind_eq_ok.1 h
    cases h
    rw [listOf_arrayOf hmem, harray] at hxs
    cases hxs
    cases helements
    refine List.Forall₂.sum_le_sum ?_
    rw [List.forall₂_map_left_iff]
    refine (mapM_forall₂ hcounts).imp ?_
    intro mesh count hcount
    obtain ⟨primitives, hprimitives, hlen⟩ := bind_eq_ok.1 hcount
    exact length_arrayOf_le hprimitives hlen

/-- A numeric second component is among the bounds collected. -/
theorem secondOf_eq_ok {acc y : Json} {key : String} {bounds : List ℚ} {q : ℚ}
    (h : secondOf host acc key = .ok bounds) (hy : (arrayOf acc key)[1]? = some y)
    (hq : numOf y = some q) : q ∈ bounds := by
  unfold secondOf at h
  rw [get_arrayOf (List.mem_of_getElem? hy)] at h
  cases harray : arrayOf acc key with
  | nil =>
    rw [harray] at hy
    cases hy
  | cons x xs =>
    rw [harray] at h hy
    cases xs with
    | nil => cases hy
    | cons z xs =>
      cases hy
      cases y with
      | num n =>
        cases hq
        cases h
        exact List.mem_singleton_self q
      | _ => cases hq

theorem naturalOf_num {q : ℚ} {i : ℕ} (h : naturalOf (.num q) = some i) : (i : ℚ) = q := by
  rw [naturalOf] at h
  split at h
  · next hq =>
    cases h
    have hint : ((q.num.toNat : ℤ) : ℚ) = q.num := by rw [Int.toNat_of_nonneg hq.2]
    have hnum : (q.num : ℚ) = q := Rat.coe_int_num_of_den_eq_one hq.1
    exact_mod_cast hint.trans hnum
  · cases h

/-- The index of an accessor is as it should be, so that the loop finds the accessor. -/
theorem primitiveBounds_found {accessors primitive acc : Json} {bounds : List ℚ × List ℚ} {i : ℕ}
    (haccessors : listOf doc "accessors" = .ok accessors)
    (h : primitiveBounds host accessors primitive = .ok bounds)
    (hi : naturalOf (field (field primitive "attributes") "POSITION") = some i)
    (hacc : (arrayOf doc "accessors")[i]? = some acc) :
    secondOf host acc "min" = .ok bounds.1 ∧ secondOf host acc "max" = .ok bounds.2 := by
  rw [listOf_arrayOf (List.mem_of_getElem? hacc)] at haccessors
  cases haccessors
  obtain ⟨attributes, hattributes, h⟩ := bind_eq_ok.1 h
  obtain ⟨pos, hpos, h⟩ := bind_eq_ok.1 h
  obtain rfl := get_eq_field hattributes
  rw [← get_orElse_eq_field hpos] at hi
  cases pos with
  | num q =>
    -- the index is within the list, so the loop does not skip the primitive
    obtain ⟨n, hn, h⟩ := bind_eq_ok.1 h
    obtain ⟨beyond, hbeyond, h⟩ := bind_eq_ok.1 h
    have hlength : (arrayOf doc "accessors").length = n := Except.ok.inj hn
    have hwithin : beyond = false := by
      rw [← Except.ok.inj hbeyond, decide_eq_false_iff_not, not_le, ← naturalOf_num hi, ← hlength]
      exact_mod_cast (List.getElem?_eq_some_iff.1 hacc).1
    rw [hwithin] at h
    obtain ⟨found, hfound, h⟩ := bind_eq_ok.1 h
    rw [item_natural hi hacc] at hfound
    cases hfound
    obtain ⟨ymins, hmins, h⟩ := bind_eq_ok.1 h
    obtain ⟨ymaxs, hmaxs, h⟩ := bind_eq_ok.1 h
    cases h
    exact ⟨hmins, hmaxs⟩
  | _ => cases hi

/-- The bounds that are collected have all heights of the document. -/
theorem heightBounds_eq_ok {bounds : List ℚ × List ℚ} (h : heightBounds host doc = .ok bounds) :
    (∀ low ∈ heights "min" doc, low ∈ bounds.1) ∧ ∀ high ∈ heights "max" doc, high ∈ bounds.2 := by
  obtain ⟨accessors, haccessors, h⟩ := bind_eq_ok.1 h
  obtain ⟨xs, hxs, h⟩ := bind_eq_ok.1 h
  obtain ⟨meshes, hmeshes, h⟩ := bind_eq_ok.1 h
  obtain ⟨perMesh, hperMesh, h⟩ := bind_eq_ok.1 h
  cases h
  -- a height of the document is one of a primitive of a mesh, and both loops reach it
  have hcollected : ∀ key q, q ∈ heights key doc → ∃ b ∈ perMesh.flatten, ∃ acc y,
      (secondOf host acc "min" = .ok b.1 ∧ secondOf host acc "max" = .ok b.2) ∧
      (arrayOf acc key)[1]? = some y ∧ numOf y = some q := by
    intro key q hq
    obtain ⟨mesh, hmesh, hq⟩ := List.mem_flatMap.1 hq
    obtain ⟨primitive, hprimitive, hq⟩ := List.mem_filterMap.1 hq
    obtain ⟨i, hi, hq⟩ := Option.bind_eq_some_iff.1 hq
    obtain ⟨acc, hacc, hq⟩ := Option.bind_eq_some_iff.1 hq
    obtain ⟨y, hy, hq⟩ := Option.bind_eq_some_iff.1 hq
    rw [listOf_arrayOf hmesh] at hxs
    cases hxs
    cases hmeshes
    obtain ⟨bs, hbs, hmade⟩ := exists_of_mapM hperMesh hmesh
    rw [listOf_arrayOf hprimitive] at hmade
    obtain ⟨b, hb, hbounds⟩ := exists_of_mapM hmade hprimitive
    exact ⟨b, List.mem_flatten.2 ⟨bs, hbs, hb⟩, acc, y,
      primitiveBounds_found haccessors hbounds hi hacc, hy, hq⟩
  constructor
  · intro low hlow
    obtain ⟨b, hb, acc, y, ⟨hmin, -⟩, hy, hq⟩ := hcollected "min" low hlow
    exact List.mem_flatMap.2 ⟨b, hb, secondOf_eq_ok hmin hy hq⟩
  · intro high hhigh
    obtain ⟨b, hb, acc, y, ⟨-, hmax⟩, hy, hq⟩ := hcollected "max" high hhigh
    exact List.mem_flatMap.2 ⟨b, hb, secondOf_eq_ok hmax hy hq⟩

/-- Passing the height check bounds the distance between any two vertical bounds of the
positions. -/
theorem checkHeight_eq_ok (h : checkHeight host manifest agentId doc = .ok ()) :
    ∀ low ∈ heights "min" doc, ∀ high ∈ heights "max" doc,
      high - low ≤ manifest.limits.maxHeightM := by
  intro low hlow high hhigh
  obtain ⟨⟨ymins, ymaxs⟩, hbounds, h⟩ := bind_eq_ok.1 h
  have hmin := (heightBounds_eq_ok hbounds).1 low hlow
  have hmax := (heightBounds_eq_ok hbounds).2 high hhigh
  cases ymins with
  | nil => cases hmin
  | cons ymin ymins =>
    cases ymaxs with
    | nil => cases hmax
    | cons ymax ymaxs =>
      have hheight := (Bool.and_eq_true_iff.1 (assert_eq_ok.1 h)).2
      rw [decide_eq_true_eq] at hheight
      -- the check compares the extremes of the two lists
      have hleast : ymins.foldl min ymin ≤ low := (List.min?_eq_some_iff.1 rfl).2 low hmin
      have hgreatest : high ≤ ymaxs.foldl max ymax := (List.max?_eq_some_iff.1 rfl).2 high hmax
      linarith

/-- A document that is let through is as the manifest requires. -/
theorem validateDocument_sound {validation : Json}
    (h : validateDocument host manifest agentId validation doc = .ok ()) :
    SoundDocument host manifest doc := by
  -- the checks in the order of the script; each one passed, or there were no document
  unfold validateDocument at h
  obtain ⟨nodes, hnodes, h⟩ := bind_eq_ok.1 h
  obtain ⟨_, hbones, h⟩ := bind_eq_ok.1 h
  obtain ⟨skins, hskins, h⟩ := bind_eq_ok.1 h
  obtain ⟨htruthy, h⟩ := assert_bind_eq_ok.1 h
  obtain ⟨animations, hanimations, h⟩ := bind_eq_ok.1 h
  obtain ⟨_, hmotions, h⟩ := bind_eq_ok.1 h
  obtain ⟨_, hmaterials, h⟩ := bind_eq_ok.1 h
  obtain ⟨_, htextures, h⟩ := bind_eq_ok.1 h
  obtain ⟨primitives, hprimitives, h⟩ := bind_eq_ok.1 h
  obtain ⟨hlimit, h⟩ := assert_bind_eq_ok.1 h
  obtain ⟨_, -, h⟩ := bind_eq_ok.1 h
  obtain ⟨_, hheight, -⟩ := bind_eq_ok.1 h
  have hcount : (primitiveCount doc : ℚ) ≤ primitives := by
    exact_mod_cast countPrimitives_eq_ok hprimitives
  exact {
    bones := checkNames_eq_ok hnodes hbones
    animations := checkNames_eq_ok hanimations hmotions
    skins := by
      rw [← get_eq_field hskins]
      exact htruthy
    materials := checkCount_eq_ok hmaterials
    textures := checkCount_eq_ok htextures
    primitives := hcount.trans (of_decide_eq_true hlimit)
    height := checkHeight_eq_ok hheight }

/-! ## Entries -/

/-- What is checked of the entry of an approved asset: the document is in its file. -/
structure ApprovedEntry (host : Host) (manifest : GateManifest) (asset doc : Json) : Prop where
  modelUrl : isTruthy (field asset "model_url") = true
  rigProfile : equal (field asset "rig_profile") (.str manifest.rigProfile) = true
  passed : ∃ passed, get (orElse (field asset "validation") (.obj [])) "passed" .null =
    .ok passed ∧ isTrue passed = true
  file : ∃ path data, field asset "local_path" = .str path ∧
    host.files (pathText path) = some data ∧ host.lower (suffix path) = ".glb" ∧
    (data.length : ℚ) ≤ manifest.limits.maxFileMb * (1024 * 1024) ∧
    parseGlb host.num (pathText path) data = .ok (data, doc)

/-- An asset with its file and its document as they should be. -/
def CheckedAsset (host : Host) (manifest : GateManifest) (asset : Json) : Prop :=
  ∃ doc, ApprovedEntry host manifest asset doc ∧ SoundDocument host manifest doc

/-- The file comes back as it was read. -/
theorem parseGlb_data {num : List Char → ℚ} {path : String} {data : List UInt8}
    {result : List UInt8 × Json} (h : parseGlb num path data = .ok result) : result.1 = data := by
  obtain ⟨-, h⟩ := assert_bind_eq_ok.1 h
  obtain ⟨-, h⟩ := assert_bind_eq_ok.1 h
  obtain ⟨-, h⟩ := assert_bind_eq_ok.1 h
  obtain ⟨-, h⟩ := assert_bind_eq_ok.1 h
  obtain ⟨doc, -, h⟩ := bind_eq_ok.1 h
  obtain ⟨-, h⟩ := assert_bind_eq_ok.1 h
  cases h
  rfl

/-- What the checks before the document leave behind: every field of `ApprovedEntry`. -/
theorem approvedDocument_eq_ok {asset validation : Json}
    (h : approvedDocument host manifest agentId asset = .ok (validation, doc)) :
    ApprovedEntry host manifest asset doc := by
  obtain ⟨modelUrl, hurl, h⟩ := bind_eq_ok.1 h
  obtain ⟨hmodelUrl, h⟩ := assert_bind_eq_ok.1 h
  obtain ⟨rigProfile, hrig, h⟩ := bind_eq_ok.1 h
  obtain ⟨hrigProfile, h⟩ := assert_bind_eq_ok.1 h
  obtain ⟨found, hfound, h⟩ := bind_eq_ok.1 h
  obtain ⟨passed, hpassed, h⟩ := bind_eq_ok.1 h
  obtain ⟨htrue, h⟩ := assert_bind_eq_ok.1 h
  obtain ⟨localPath, hlocal, h⟩ := bind_eq_ok.1 h
  obtain ⟨-, h⟩ := assert_bind_eq_ok.1 h
  rw [get_eq_field hurl] at hmodelUrl
  rw [get_eq_field hrig] at hrigProfile
  rw [get_eq_field hfound] at hpassed
  refine ⟨hmodelUrl, hrigProfile, ⟨passed, hpassed, htrue⟩, ?_⟩
  cases localPath with
  | str path =>
    -- the file is there, is a `.glb` and small enough, and was parsed
    obtain ⟨hfile, h⟩ := assert_bind_eq_ok.1 h
    obtain ⟨hsize, h⟩ := assert_bind_eq_ok.1 h
    obtain ⟨result, hparse, h⟩ := bind_eq_ok.1 h
    rw [Bool.and_eq_true, beq_iff_eq] at hfile
    obtain ⟨data, hdata⟩ := Option.isSome_iff_exists.1 hfile.1
    rw [hdata, Option.getD_some] at hsize hparse
    rw [decide_eq_true_eq, div_le_iff₀ (by norm_num)] at hsize
    have hresult : result = (data, doc) := by
      rw [← parseGlb_data hparse]
      cases h
      rfl
    rw [hresult] at hparse
    exact ⟨path, data, (get_eq_field hlocal).symm, hdata, hfile.2, hsize, hparse⟩
  | _ => cases h

/-- Without a status an asset is pending for the script, and not approved for the hub. -/
theorem equal_status (fields : List (String × Json)) :
    equal ((fields.lookup "status").getD (.str "pending")) (.str "approved") =
      equal (field (.obj fields) "status") (.str "approved") := by
  rw [field]
  cases fields.lookup "status" with
  | none => decide
  | some status => rfl

/-- Every entry that is let through is a dictionary, and its file is as it should be if it
is approved. -/
theorem validateAsset_sound {asset : Json}
    (h : validateAsset host manifest agentId asset = .ok ()) :
    (∃ fields, asset = .obj fields) ∧
      (equal (field asset "status") (.str "approved") = true →
        CheckedAsset host manifest asset) := by
  obtain ⟨status, hstatus, h⟩ := bind_eq_ok.1 h
  obtain ⟨fields, rfl, rfl⟩ := get_eq_ok hstatus
  refine ⟨⟨fields, rfl⟩, ?_⟩
  intro happroved
  rw [equal_status, if_pos happroved] at h
  obtain ⟨⟨validation, doc⟩, hdocument, h⟩ := bind_eq_ok.1 h
  exact ⟨doc, approvedDocument_eq_ok hdocument, validateDocument_sound h⟩

/-- The script has looked at every asset. -/
theorem validateManifest_assets (h : validateManifest host manifest = .ok ()) :
    ∀ entry ∈ manifest.assets, validateAsset host manifest entry.1 entry.2 = .ok () := by
  obtain ⟨-, h⟩ := assert_bind_eq_ok.1 h
  obtain ⟨-, h⟩ := assert_bind_eq_ok.1 h
  obtain ⟨-, h⟩ := assert_bind_eq_ok.1 h
  obtain ⟨-, h⟩ := assert_bind_eq_ok.1 h
  obtain ⟨-, h⟩ := assert_bind_eq_ok.1 h
  exact forM_eq_ok h

end

/-! ## The hub -/

/-- The asset of an agent that the hub releases. -/
def releasedAsset (manifest : GateManifest) (agentId : String) : Json :=
  match manifest.assets.lookup agentId with
  | some asset =>
    if equal (field asset "status") (.str "approved") && isText (field asset "model_url") then asset
    else .null
  | none => .null

/-- The hub has the manifest that the script has read; both take assets that are missing or
null for none. -/
structure SameManifest (file : ManifestFile) (manifest : GateManifest) : Prop where
  rigProfile : get file.value "rig_profile" .null = .ok (.str manifest.rigProfile)
  assets : ∃ assets, get file.value "assets" .null = .ok assets ∧
    orElse assets (.obj []) = .obj manifest.assets

section

variable {host : Host} {file : ManifestFile} {manifest : GateManifest}

/-- The hub asks no more of an entry that is let through than its status and a text. -/
theorem approve_checked {fields : List (String × Json)} (hsame : SameManifest file manifest)
    (hchecked : equal (field (.obj fields) "status") (.str "approved") = true →
      CheckedAsset host manifest (.obj fields)) :
    approve file.value (.obj fields) =
      .ok (if equal (field (.obj fields) "status") (.str "approved") &&
        isText (field (.obj fields) "model_url") then .obj fields else .null) := by
  refine bind_eq_ok.2 ⟨field (.obj fields) "validation", rfl, ?_⟩
  refine bind_eq_ok.2 ⟨field (.obj fields) "status", rfl, ?_⟩
  by_cases happroved : equal (field (.obj fields) "status") (.str "approved") = true
  · obtain ⟨doc, hentry, -⟩ := hchecked happroved
    obtain ⟨passed, hpassed, htrue⟩ := hentry.passed
    rw [if_pos happroved]
    refine bind_eq_ok.2 ⟨passed, hpassed, ?_⟩
    rw [if_pos htrue]
    refine bind_eq_ok.2 ⟨field (.obj fields) "rig_profile", rfl, ?_⟩
    refine bind_eq_ok.2 ⟨.str manifest.rigProfile, hsame.rigProfile, ?_⟩
    rw [if_pos hentry.rigProfile, happroved, Bool.true_and]
    rfl
  · rw [if_neg happroved, Bool.eq_false_of_not_eq_true happroved, Bool.false_and]
    rfl

/-- After the gate the hub approves for each agent exactly the released asset. -/
theorem approvedAsset_checked (hsame : SameManifest file manifest)
    (h : validateManifest host manifest = .ok ()) (agentId : String) :
    approvedAsset file.value agentId = .ok (releasedAsset manifest agentId) := by
  obtain ⟨assets, hget, hassets⟩ := hsame.assets
  unfold approvedAsset assetOf releasedAsset
  rw [hget]
  simp only [bind, Except.bind, hassets, get_obj]
  cases hlookup : manifest.assets.lookup agentId with
  | none => rfl
  | some asset =>
    have hmem := Dict.mem_of_lookup hlookup
    obtain ⟨⟨fields, rfl⟩, hchecked⟩ :=
      validateAsset_sound (validateManifest_assets h (agentId, asset) hmem)
    show approve file.value (orElse (.obj fields) (.obj [])) = _
    rw [orElse_obj]
    exact approve_checked hsame hchecked

/-- What is released is an asset that the script has checked. -/
theorem releasedAsset_checked (h : validateManifest host manifest = .ok ()) {agentId : String}
    (hreleased : releasedAsset manifest agentId ≠ .null) :
    CheckedAsset host manifest (releasedAsset manifest agentId) := by
  unfold releasedAsset at hreleased ⊢
  split at hreleased
  · next asset hlookup =>
    have hmem := Dict.mem_of_lookup hlookup
    split at hreleased
    · next hshown =>
      rw [if_pos hshown]
      rw [Bool.and_eq_true] at hshown
      exact (validateAsset_sound (validateManifest_assets h (agentId, asset) hmem)).2 hshown.1
    · exact absurd rfl hreleased
  · exact absurd rfl hreleased

/-! ## The answers -/

theorem urlIf_obj (asset : Json) (fields : List (String × Json)) :
    ∃ url, urlIf asset (.obj fields) = .ok url := by
  unfold urlIf
  split
  · exact ⟨_, get_obj fields "model_url" .null⟩
  · exact ⟨.null, rfl⟩

/-- Only objects have truthy fields. -/
theorem obj_of_field {x : Json} {key : String} (h : isTruthy (field x key) = true) :
    ∃ fields, x = .obj fields := by
  cases x with
  | obj fields => exact ⟨fields, rfl⟩
  | _ => cases h

/-- After the gate no entry makes the asset manifest endpoint raise. -/
theorem assetEntry_checked (hsame : SameManifest file manifest)
    (h : validateManifest host manifest = .ok ()) {entry : String × Json}
    (hentry : entry ∈ manifest.assets) : ∃ answer, assetEntry file.value entry = .ok answer := by
  obtain ⟨⟨fields, hfields⟩, -⟩ := validateAsset_sound (validateManifest_assets h entry hentry)
  obtain ⟨url, hurl⟩ := urlIf_obj (releasedAsset manifest entry.1) fields
  unfold assetEntry
  rw [approvedAsset_checked hsame h, hfields]
  simp only [bind, Except.bind, hurl, get_obj]
  exact ⟨_, rfl⟩

/-- Nor does any agent make the visual state raise. -/
theorem visualAgent_checked (hsame : SameManifest file manifest)
    (h : validateManifest host manifest = .ok ()) (rigProfile : Json) (post : AgentPost) :
    ∃ view, visualAgent file.value rigProfile post = .ok view := by
  have hurl : ∃ url, urlIf (releasedAsset manifest post.id) (releasedAsset manifest post.id) =
      .ok url := by
    by_cases hnull : releasedAsset manifest post.id = .null
    · rw [hnull]
      exact ⟨.null, rfl⟩
    · obtain ⟨doc, hentry, -⟩ := releasedAsset_checked h hnull
      obtain ⟨fields, hfields⟩ := obj_of_field hentry.modelUrl
      rw [hfields]
      exact urlIf_obj (.obj fields) fields
  obtain ⟨url, hurl⟩ := hurl
  unfold visualAgent
  rw [approvedAsset_checked hsame h]
  simp only [bind, Except.bind, hurl]
  exact ⟨_, rfl⟩

/-- A key that no key of a slot is copied to. -/
theorem lookup_overlay {key : String} (h : key ∉ liveKeys.map Prod.snd)
    (agent live : List (String × Json)) : (overlay agent live).lookup key = agent.lookup key := by
  unfold overlay
  generalize liveKeys = keys at h ⊢
  induction keys generalizing agent with
  | nil => rfl
  | cons k keys ih =>
    rw [List.map_cons, List.mem_cons, not_or] at h
    rw [List.foldl_cons, ih _ h.2]
    split
    · exact Dict.lookup_set_of_ne agent h.1 _
    · rfl

/-- A slot is laid over an agent, and the keys that it does not have stay. -/
theorem liveAgent_ok (slots : String → Option (List (String × Json))) {agent : Json} {id : String}
    (h : field agent "agent_id" = .str id) :
    ∃ view, liveAgent slots agent = .ok view ∧
      ∀ key ∉ liveKeys.map Prod.snd, field view key = field agent key := by
  cases agent with
  | obj fields =>
    -- every agent of a visual state has its id, so the lookup does not raise
    have hitem : item (.obj fields) (.str "agent_id") = .ok (.str id) := by
      rw [field] at h
      rw [item]
      cases hlookup : fields.lookup "agent_id" with
      | none =>
        rw [hlookup] at h
        cases h
      | some v =>
        rw [hlookup] at h
        cases h
        rfl
    unfold liveAgent
    simp only [items, hitem, bind, Except.bind]
    cases slots id with
    | none => exact ⟨.obj fields, rfl, fun _ _ => rfl⟩
    | some live =>
      refine ⟨_, rfl, ?_⟩
      intro key hkey
      split
      · rfl
      · rw [field, field, lookup_overlay hkey]
  | _ => cases h

/-- The url that an answer shows for an agent. -/
def ShowsUrl (answer : Json) (agentId : String) (url : Json) : Prop :=
  ∃ view, HasAgent answer agentId view ∧ field view "model_url" = url

/-- The parts of a visual state. -/
theorem visualState_agents {posts : List AgentPost} {state : Json}
    (h : visualState file.value posts = .ok state) :
    ∃ rigProfile agents fields, posts.mapM (visualAgent file.value rigProfile) = .ok agents ∧
      state = .obj fields ∧ fields.lookup "agents" = some (.arr agents) := by
  obtain ⟨rigProfile, -, h⟩ := bind_eq_ok.1 h
  obtain ⟨animationContract, -, h⟩ := bind_eq_ok.1 h
  obtain ⟨agents, hagents, h⟩ := bind_eq_ok.1 h
  obtain ⟨version, -, h⟩ := bind_eq_ok.1 h
  cases h
  exact ⟨rigProfile, agents, _, hagents, rfl, rfl⟩

/-- The live state is there if the visual state is, with the same urls. -/
theorem liveVisualState_ok {posts : List AgentPost} {state : Json}
    (h : visualState file.value posts = .ok state)
    (slots : String → Option (List (String × Json))) :
    ∃ live, liveVisualState file.value posts slots = .ok live ∧
      ∀ agentId url, ShowsUrl live agentId url ↔ ShowsUrl state agentId url := by
  obtain ⟨rigProfile, agents, fields, hagents, rfl, hlookup⟩ := visualState_agents h
  have hlive : ∀ agent ∈ agents, ∃ view, liveAgent slots agent = .ok view ∧
      ∀ key ∉ liveKeys.map Prod.snd, field view key = field agent key := by
    intro agent hagent
    obtain ⟨post, -, hmade⟩ := mem_of_mapM hagents hagent
    exact liveAgent_ok slots (visualAgent_url hmade).1
  obtain ⟨views, hviews⟩ := mapM_total (fun agent hagent => (hlive agent hagent).imp fun _ => And.left)
  -- the overlay writes neither of the two keys that `ShowsUrl` reads
  have hsame : ∀ agent ∈ agents, ∀ view, liveAgent slots agent = .ok view →
      field view "agent_id" = field agent "agent_id" ∧
      field view "model_url" = field agent "model_url" := by
    intro agent hagent view hview
    obtain ⟨view', hview', hkeys⟩ := hlive agent hagent
    cases hview.symm.trans hview'
    exact ⟨hkeys "agent_id" (by decide), hkeys "model_url" (by decide)⟩
  have hitem : item (.obj fields) (.str "agents") = .ok (.arr agents) := by
    rw [item, hlookup]
  refine ⟨.obj (Dict.set (Dict.set (Dict.set fields "task_bus_connected" (.bool true))
    "task_bus_source" (.str "production-only")) "agents" (.arr views)), ?_, ?_⟩
  · unfold liveVisualState
    simp only [h, hitem, iter, hviews, items, bind, Except.bind]
    rfl
  · -- the views are the agents one by one, so each shown url has its counterpart
    intro agentId url
    have hfield : field (.obj (Dict.set (Dict.set (Dict.set fields "task_bus_connected"
        (.bool true)) "task_bus_source" (.str "production-only")) "agents" (.arr views)))
        "agents" = .arr views := by
      rw [field, Dict.lookup_set_self]
      rfl
    have hstate : field (.obj fields) "agents" = .arr agents := by
      rw [field, hlookup]
      rfl
    constructor
    · rintro ⟨view, ⟨shown, hshown, hmem, hid⟩, hurl⟩
      cases hfield.symm.trans hshown
      obtain ⟨agent, hagent, hmade⟩ := mem_of_mapM hviews hmem
      obtain ⟨hidSame, hurlSame⟩ := hsame agent hagent view hmade
      exact ⟨agent, ⟨agents, hstate, hagent, hidSame.symm.trans hid⟩, hurlSame.symm.trans hurl⟩
    · rintro ⟨agent, ⟨shown, hshown, hagent, hid⟩, hurl⟩
      cases hstate.symm.trans hshown
      obtain ⟨view, hview, hmade⟩ := exists_of_mapM hviews hagent
      obtain ⟨hidSame, hurlSame⟩ := hsame agent hagent view hmade
      exact ⟨view, ⟨views, hfield, hview, hidSame.trans hid⟩, hurlSame.trans hurl⟩

/-- The url that `/asset-manifest` shows for an agent. -/
def ListsUrl (answer : Json) (agentId : String) (url : Json) : Prop :=
  ∃ entry, HasAsset answer agentId entry ∧ field entry "model_url" = url

/-- The visual state after the gate: every agent at a post, each with the url of its
released asset. -/
theorem visualState_checked (hsame : SameManifest file manifest)
    (h : validateManifest host manifest = .ok ()) (posts : List AgentPost) :
    ∃ state, visualState file.value posts = .ok state ∧
      ∀ agentId url, ShowsUrl state agentId url ↔
        agentId ∈ posts.map AgentPost.id ∧ url = urlOf (releasedAsset manifest agentId) := by
  obtain ⟨fields, hfile, -⟩ := get_eq_ok hsame.rigProfile
  -- no agent makes it raise
  have htotal : ∃ state, visualState file.value posts = .ok state := by
    unfold visualState
    obtain ⟨agents, hagents⟩ := mapM_total (fun post (_ : post ∈ posts) =>
      visualAgent_checked hsame h ((fields.lookup "rig_profile").getD (.str "ads-humanoid-v1")) post)
    rw [hfile] at hagents ⊢
    simp only [get_obj, bind, Except.bind, hagents]
    exact ⟨_, rfl⟩
  obtain ⟨state, hstate⟩ := htotal
  refine ⟨state, hstate, ?_⟩
  obtain ⟨rigProfile, agents, members, hagents, rfl, hlookup⟩ := visualState_agents hstate
  have hfield : field (.obj members) "agents" = .arr agents := by
    rw [field, hlookup]
    rfl
  -- and each shows the url of what the gate let through
  have hurl : ∀ post view, visualAgent file.value rigProfile post = .ok view →
      field view "agent_id" = .str post.id ∧
      field view "model_url" = urlOf (releasedAsset manifest post.id) := by
    intro post view hview
    obtain ⟨hid, asset, hasset, hurl⟩ := visualAgent_url hview
    cases (approvedAsset_checked hsame h post.id).symm.trans hasset
    exact ⟨hid, hurl⟩
  intro agentId url
  constructor
  · rintro ⟨view, ⟨shown, hshown, hmem, hid⟩, rfl⟩
    cases hfield.symm.trans hshown
    obtain ⟨post, hpost, hmade⟩ := mem_of_mapM hagents hmem
    obtain ⟨hpostId, hpostUrl⟩ := hurl post view hmade
    cases hpostId.symm.trans hid
    exact ⟨List.mem_map_of_mem hpost, hpostUrl⟩
  · rintro ⟨hmem, rfl⟩
    obtain ⟨post, hpost, rfl⟩ := List.mem_map.1 hmem
    obtain ⟨view, hview, hmade⟩ := exists_of_mapM hagents hpost
    obtain ⟨hpostId, hpostUrl⟩ := hurl post view hmade
    exact ⟨view, ⟨agents, hfield, hview, hpostId⟩, hpostUrl⟩

/-- The keys of the assets are distinct, as the manifest is a decoded value. -/
theorem SameManifest.nodup (hsame : SameManifest file manifest) :
    (manifest.assets.map Prod.fst).Nodup := by
  obtain ⟨assets, hget, hassets⟩ := hsame.assets
  rcases orElse_cases assets with ⟨fields, rfl, hfields⟩ | ⟨hscalar, hsame' | hempty⟩
  · -- the assets are a dictionary of the manifest
    have hsameFields : fields = manifest.assets := Json.obj.inj (hfields.symm.trans hassets)
    obtain ⟨outer, hfile, hvalue⟩ := get_eq_ok hget
    have hkeyed := file.keyed
    rw [hfile] at hkeyed
    cases hlookup : outer.lookup "assets" with
    | none =>
      rw [hlookup] at hvalue
      cases hvalue
    | some v =>
      rw [hlookup] at hvalue
      cases hvalue
      cases hkeyed.lookup hlookup with
      | obj hkeys _ => rwa [← hsameFields]
  · exact absurd (hsame'.symm.trans hassets) (hscalar _)
  · have hnone : [] = manifest.assets := Json.obj.inj (hempty.symm.trans hassets)
    rw [← hnone]
    exact List.nodup_nil

/-- The endpoint keeps an entry's key. -/
theorem assetEntry_key {entry answer : String × Json}
    (h : assetEntry file.value entry = .ok answer) : entry.1 = answer.1 := by
  obtain ⟨status, -, h⟩ := bind_eq_ok.1 h
  obtain ⟨asset, -, h⟩ := bind_eq_ok.1 h
  obtain ⟨modelUrl, -, h⟩ := bind_eq_ok.1 h
  obtain ⟨rigProfile, -, h⟩ := bind_eq_ok.1 h
  obtain ⟨validation, -, h⟩ := bind_eq_ok.1 h
  cases h
  rfl

/-- The asset manifest after the gate: every agent of the manifest, each with the url of its
released asset. -/
theorem getAssetManifest_checked (hsame : SameManifest file manifest)
    (h : validateManifest host manifest = .ok ()) :
    ∃ answer, getAssetManifest file.value = .ok answer ∧
      ∀ agentId url, ListsUrl answer agentId url ↔
        agentId ∈ manifest.assets.map Prod.fst ∧ url = urlOf (releasedAsset manifest agentId) := by
  obtain ⟨fields, hfile, -⟩ := get_eq_ok hsame.rigProfile
  obtain ⟨assets, hget, hassets⟩ := hsame.assets
  have hitems : items (orElse assets (.obj [])) = .ok manifest.assets := by
    rw [hassets]
    rfl
  have hentries : ∀ entry ∈ manifest.assets, ∃ answer, assetEntry file.value entry = .ok answer := by
    intro entry hentry
    exact assetEntry_checked hsame h hentry
  obtain ⟨answers, hanswers⟩ := mapM_total hentries
  have hanswer : getAssetManifest file.value =
      .ok (.obj (Dict.set fields "assets" (.obj (Dict.ofItems answers)))) := by
    unfold getAssetManifest
    rw [hget]
    simp only [bind, Except.bind, hitems, hanswers]
    rw [hfile]
    rfl
  refine ⟨_, hanswer, ?_⟩
  have hfield : field (.obj (Dict.set fields "assets" (.obj (Dict.ofItems answers)))) "assets" =
      .obj (Dict.ofItems answers) := by
    rw [field, Dict.lookup_set_self]
    rfl
  -- the answers have the keys of the assets
  have hkeys : manifest.assets.map Prod.fst = answers.map Prod.fst := by
    rw [← List.forall₂_eq_eq_eq, List.forall₂_map_left_iff, List.forall₂_map_right_iff]
    exact (mapM_forall₂ hanswers).imp (fun _ _ => assetEntry_key)
  have hnodup : (answers.map Prod.fst).Nodup := by
    rw [← hkeys]
    exact hsame.nodup
  rw [Dict.ofItems_eq hnodup] at hanswer hfield ⊢
  have hlists : ∀ agentId entry, HasAsset (.obj (Dict.set fields "assets" (.obj answers)))
      agentId entry ↔ (agentId, entry) ∈ answers := by
    intro agentId entry
    constructor
    · rintro ⟨shown, hshown, hlookup⟩
      cases hfield.symm.trans hshown
      exact Dict.mem_of_lookup hlookup
    · intro hmem
      exact ⟨answers, hfield, Dict.lookup_of_mem hnodup hmem⟩
  have hurl : ∀ agentId entry, HasAsset (.obj (Dict.set fields "assets" (.obj answers)))
      agentId entry → field entry "model_url" = urlOf (releasedAsset manifest agentId) := by
    intro agentId entry hentry
    obtain ⟨asset, hasset, hurl⟩ := hasAsset_url file.keyed hanswer hentry
    cases (approvedAsset_checked hsame h agentId).symm.trans hasset
    exact hurl
  intro agentId url
  rw [hkeys]
  constructor
  · rintro ⟨entry, hentry, rfl⟩
    exact ⟨List.mem_map_of_mem ((hlists agentId entry).1 hentry), hurl agentId entry hentry⟩
  · rintro ⟨hmem, rfl⟩
    obtain ⟨answer, hanswer, rfl⟩ := List.mem_map.1 hmem
    have hentry := (hlists answer.1 answer.2).2 hanswer
    exact ⟨answer.2, hentry, hurl answer.1 answer.2 hentry⟩

end

/-! ## The script and the hub -/

/-- Whatever the manifest and the files: an asset with status `approved` that the script
lets through has a url, the rig and a passed validation, its file is there with a document
in it, and the document is as the manifest requires. -/
theorem gate_sound (host : Host) (manifest : GateManifest)
    (h : validateManifest host manifest = .ok ()) :
    ∀ entry ∈ manifest.assets, equal (field entry.2 "status") (.str "approved") = true →
      CheckedAsset host manifest entry.2 := by
  intro entry hentry
  exact (validateAsset_sound (validateManifest_assets h entry hentry)).2

theorem rig_gate : validateManifest (rigHost 0) rigManifest = .ok () := by
  have hpasses := (rig_passes (x := 0) (by decide)).passes
  unfold validateManifest
  refine assert_bind_eq_ok.2 ⟨by decide, assert_bind_eq_ok.2 ⟨by decide, ?_⟩⟩
  refine assert_bind_eq_ok.2 ⟨by decide, assert_bind_eq_ok.2 ⟨by decide, ?_⟩⟩
  refine assert_bind_eq_ok.2 ⟨by decide +kernel, ?_⟩
  have hassets : rigManifest.assets = [("copywriter", rigAsset)] := rfl
  rw [hassets, List.forM, hpasses]
  rfl

/-- The manifest of the repository with an approved asset. -/
theorem gate_sound_rig :
    validateManifest (rigHost 0) rigManifest = .ok () ∧
      CheckedAsset (rigHost 0) rigManifest rigAsset := by
  refine ⟨rig_gate, ?_⟩
  exact gate_sound (rigHost 0) rigManifest rig_gate ("copywriter", rigAsset)
    (List.mem_singleton_self _) (by decide)

/-- Whatever the state of the task bus: with a manifest that the script lets through, the
three answers are there, each shows for every agent the url that its asset has if it is
approved and the url is a text, and nothing else, and every asset with a url has been
checked. -/
theorem gate_covers_runtime (host : Host) (manifest : GateManifest) (file : ManifestFile)
    (hsame : SameManifest file manifest) (h : validateManifest host manifest = .ok ())
    (posts : List AgentPost) (slots : String → Option (List (String × Json))) :
    ∃ assets visual live, getAssetManifest file.value = .ok assets ∧
      visualState file.value posts = .ok visual ∧
      liveVisualState file.value posts slots = .ok live ∧
      (∀ agentId url, ListsUrl assets agentId url ↔ agentId ∈ manifest.assets.map Prod.fst ∧
        url = urlOf (releasedAsset manifest agentId)) ∧
      (∀ agentId url, ShowsUrl visual agentId url ↔ agentId ∈ posts.map AgentPost.id ∧
        url = urlOf (releasedAsset manifest agentId)) ∧
      (∀ agentId url, ShowsUrl live agentId url ↔ ShowsUrl visual agentId url) ∧
      ∀ agentId, urlOf (releasedAsset manifest agentId) ≠ .null →
        CheckedAsset host manifest (releasedAsset manifest agentId) := by
  obtain ⟨assets, hassets, hlists⟩ := getAssetManifest_checked hsame h
  obtain ⟨visual, hvisual, hshows⟩ := visualState_checked hsame h posts
  obtain ⟨live, hlive, hsameUrls⟩ := liveVisualState_ok hvisual slots
  refine ⟨assets, visual, live, hassets, hvisual, hlive, hlists, hshows, hsameUrls, ?_⟩
  intro agentId hurl
  refine releasedAsset_checked h ?_
  intro hnull
  rw [hnull] at hurl
  exact hurl rfl

/-- The manifest with the approved asset, as a policy file holds it. -/
def rigValue : Json :=
  .obj [("rig_profile", .str "ads-humanoid-v1"), ("assets", .obj [("copywriter", rigAsset)])]

theorem rigValue_writable : JsonText.Writable JsonText.integers rigValue := by
  simp [rigValue, rigAsset, JsonText.writable_obj, JsonText.Writable.str, JsonText.Writable.bool]

/-- The file of the approved asset is what its agent is shown with. -/
theorem gate_covers_runtime_rig :
    ∃ live, liveVisualState rigValue [⟨"copywriter", "Copywriter"⟩] (fun _ => none) = .ok live ∧
      ShowsUrl live "copywriter" (.str "/models/agent.glb") := by
  have hsame : SameManifest (.ofValue rigValue_writable) rigManifest :=
    ⟨rfl, _, rfl, orElse_obj _⟩
  obtain ⟨assets, visual, live, -, -, hlive, -, hshows, hsameUrls, -⟩ :=
    gate_covers_runtime (rigHost 0) rigManifest (.ofValue rigValue_writable) hsame rig_gate
      [⟨"copywriter", "Copywriter"⟩] (fun _ => none)
  have hshown : (equal (field rigAsset "status") (.str "approved") &&
      isText (field rigAsset "model_url")) = true := by decide +kernel
  have hlookup : rigManifest.assets.lookup "copywriter" = some rigAsset := rfl
  have hreleased : releasedAsset rigManifest "copywriter" = rigAsset := by
    rw [releasedAsset, hlookup]
    exact if_pos hshown
  refine ⟨live, hlive, (hsameUrls _ _).2 ((hshows _ _).2 ⟨List.mem_singleton_self _, ?_⟩)⟩
  rw [hreleased]
  rfl

end AdsHub.Agency3d
