import Mathlib.Analysis.Real.Sqrt
import Mathlib.LinearAlgebra.UnitaryGroup
import AdsHub.Agency3d.Gate

/-!
# AdsHub.Agency3d.Roots — the roots of an asset that passes

A node of a glTF document gives its transform as a matrix, or as a translation, a rotation
and a scale. The gate reads the second form only, so that a root with a matrix passes
whatever its matrix is. `root_bounds_iff`: what the gate lets through has its roots within
the tolerances exactly if the matrices among them are.
-/

namespace AdsHub.Agency3d

open Python

/-! ## Roots and their transforms -/

/-- An array of the document; anything else has no elements. -/
def arrayOf : Json → String → List Json
  | .obj fields, key =>
    match fields.lookup key with
    | some (.arr xs) => xs
    | _ => []
  | _, _ => []

/-- An index of the document. -/
def naturalOf : Json → Option ℕ
  | .num q => if q.den = 1 ∧ 0 ≤ q.num then some q.num.toNat else none
  | _ => none

/-- The index of the default scene. -/
def sceneIndex : Json → Option ℕ
  | .obj fields => naturalOf ((fields.lookup "scene").getD (.num 0))
  | _ => none

/-- The roots of the default scene. -/
def defaultRoots (doc : Json) : List Json :=
  match (sceneIndex doc).bind (fun i => (arrayOf doc "scenes")[i]?) with
  | none => []
  | some scene =>
    (arrayOf scene "nodes").filterMap
      (fun x => (naturalOf x).bind (fun i => (arrayOf doc "nodes")[i]?))

/-- The number that a JSON number is. -/
def numOf : Json → Option ℚ
  | .num q => some q
  | _ => none

/-- An array of `n` numbers. -/
def numbers (n : ℕ) : Json → Option (Fin n → ℚ)
  | .arr xs =>
    match xs.mapM numOf with
    | some values =>
      if h : values.length = n then some (fun i => values.get (i.cast h.symm)) else none
    | none => none
  | _ => none

/-- The local transform of a node. The rotation of the second form changes neither the
translation nor the scale. -/
inductive LocalTransform where
  | matrix (m : Matrix (Fin 4) (Fin 4) ℚ)
  | trs (translation scale : Fin 3 → ℚ)

/-- The columns of a matrix are written one after the other. -/
def ofColumns (v : Fin 16 → ℚ) : Matrix (Fin 4) (Fin 4) ℚ :=
  fun i j => v (Fin.mk (4 * j + i) (by omega))

/-- The transform that a node has: its matrix if it has one. -/
def localTransform : Json → Option LocalTransform
  | .obj fields =>
    match fields.lookup "matrix" with
    | some x => (numbers 16 x).map (fun v => .matrix (ofColumns v))
    | none => do
      let translation ←
        numbers 3 ((fields.lookup "translation").getD (.arr [.num 0, .num 0, .num 0]))
      let scale ← numbers 3 ((fields.lookup "scale").getD (.arr [.num 1, .num 1, .num 1]))
      return .trs translation scale
  | _ => none

/-- The length of a vector. -/
noncomputable def vecLength (v : Fin 3 → ℝ) : ℝ := √(∑ i, v i ^ 2)

/-- The factors by which a linear map scales the axes. If it mirrors the space, the first
of them is taken to be negative. -/
noncomputable def scaleFactors (m : Matrix (Fin 3) (Fin 3) ℝ) (j : Fin 3) : ℝ :=
  if j = 0 ∧ m.det < 0 then -vecLength (fun i => m i j) else vecLength (fun i => m i j)

/-- The linear part of a matrix. -/
def linear (m : Matrix (Fin 4) (Fin 4) ℚ) : Matrix (Fin 3) (Fin 3) ℚ :=
  m.submatrix Fin.castSucc Fin.castSucc

noncomputable def LocalTransform.translation : LocalTransform → Fin 3 → ℝ
  | .matrix m => fun i => m i.castSucc 3
  | .trs translation _ => fun i => translation i

noncomputable def LocalTransform.scale : LocalTransform → Fin 3 → ℝ
  | .matrix m => scaleFactors ((linear m).map (fun q => (q : ℝ)))
  | .trs _ scale => fun i => scale i

/-- A transform within the tolerances. -/
def Bounded (limits : Limits) (t : LocalTransform) : Prop :=
  vecLength t.translation ≤ limits.originToleranceM ∧ ∀ i, |t.scale i - 1| ≤ limits.scaleTolerance

/-- Every root of the default scene is within the tolerances. -/
def RootsBounded (limits : Limits) (doc : Json) : Prop :=
  ∀ node ∈ defaultRoots doc, ∀ t, localTransform node = some t → Bounded limits t

/-- `x <= math.sqrt(s)`. -/
def leSqrt (x s : ℚ) : Bool := decide (x ≤ 0 ∨ x ^ 2 ≤ s)

/-- A matrix within the tolerances, told from its entries: the check that the gate does not
make. -/
def MatrixWithin (limits : Limits) (m : Matrix (Fin 4) (Fin 4) ℚ) : Prop :=
  sqrtLe (∑ i : Fin 3, m i.castSucc 3 ^ 2) limits.originToleranceM ∧
  ∀ j : Fin 3,
    if j = 0 ∧ (linear m).det < 0 then
      sqrtLe (∑ i, linear m i j ^ 2) (limits.scaleTolerance - 1)
    else
      sqrtLe (∑ i, linear m i j ^ 2) (1 + limits.scaleTolerance) ∧
        leSqrt (1 - limits.scaleTolerance) (∑ i, linear m i j ^ 2)

/-- The matrices among the roots are within the tolerances. -/
def MatricesWithin (limits : Limits) (doc : Json) : Prop :=
  ∀ node ∈ defaultRoots doc, ∀ m, localTransform node = some (.matrix m) → MatrixWithin limits m

/-! ## Matrices -/

/-- The columns of a rotation have length one. -/
theorem rotation_column {r : Matrix (Fin 3) (Fin 3) ℝ}
    (hr : r ∈ Matrix.specialOrthogonalGroup (Fin 3) ℝ) (j : Fin 3) : ∑ i, r i j ^ 2 = 1 := by
  have horthogonal := (Matrix.mem_orthogonalGroup_iff' (Fin 3) ℝ).1
    (Matrix.mem_specialOrthogonalGroup_iff.1 hr).1
  have hentry := congrFun (congrFun horthogonal j) j
  rw [Matrix.mul_apply, Matrix.one_apply_eq] at hentry
  rw [← hentry]
  refine Finset.sum_congr rfl ?_
  intro i _
  exact pow_two (r i j)

/-- The matrix of a rotation after a scale has the factors of the scale. -/
theorem scaleFactors_rotation {r : Matrix (Fin 3) (Fin 3) ℝ}
    (hr : r ∈ Matrix.specialOrthogonalGroup (Fin 3) ℝ) {s : Fin 3 → ℝ} (h1 : 0 < s 1)
    (h2 : 0 < s 2) : scaleFactors (r * Matrix.diagonal s) = s := by
  -- a rotation keeps lengths, so the columns have those of the scale
  have hlength : ∀ j, vecLength (fun i => (r * Matrix.diagonal s) i j) = |s j| := by
    intro j
    have hsum : ∑ i, (r * Matrix.diagonal s) i j ^ 2 = s j ^ 2 := by
      simp only [Matrix.mul_diagonal, mul_pow]
      rw [← Finset.sum_mul, rotation_column hr, one_mul]
    rw [vecLength, hsum, Real.sqrt_sq_eq_abs]
  have hdet : (r * Matrix.diagonal s).det = s 0 * (s 1 * s 2) := by
    rw [Matrix.det_mul, (Matrix.mem_specialOrthogonalGroup_iff.1 hr).2, one_mul,
      Matrix.det_diagonal, Fin.prod_univ_three, mul_assoc]
  -- and the sign of the determinant is that of the first factor
  have hmirror : (r * Matrix.diagonal s).det < 0 ↔ s 0 < 0 := by
    have hpos := mul_pos h1 h2
    rw [hdet]
    constructor
    · intro hneg
      exact neg_of_mul_neg_left hneg hpos.le
    · intro hneg
      exact mul_neg_of_neg_of_pos hneg hpos
  funext j
  simp only [scaleFactors, hlength, hmirror]
  by_cases h0 : j = 0 ∧ s 0 < 0
  · rw [if_pos h0, h0.1, abs_of_neg h0.2, neg_neg]
  · rw [if_neg h0]
    refine abs_of_nonneg ?_
    match j, h0 with
    | 0, h0 => exact not_lt.1 (fun hneg => h0 ⟨rfl, hneg⟩)
    | 1, _ => exact h1.le
    | 2, _ => exact h2.le

/-- The rational test decides `√s ≤ tolerance` without taking a root. -/
theorem sqrtLe_iff {s tolerance : ℚ} : sqrtLe s tolerance = true ↔ √(s : ℝ) ≤ tolerance := by
  rw [sqrtLe, decide_eq_true_eq, Real.sqrt_le_iff]
  norm_cast

/-- Likewise for `x ≤ √s`. -/
theorem leSqrt_iff {x s : ℚ} : leSqrt x s = true ↔ (x : ℝ) ≤ √(s : ℝ) := by
  rw [leSqrt, decide_eq_true_eq]
  rcases le_or_gt x 0 with hx | hx
  · have hle : (x : ℝ) ≤ √(s : ℝ) := le_trans (by exact_mod_cast hx) (Real.sqrt_nonneg _)
    exact iff_of_true (Or.inl hx) hle
  · rw [Real.le_sqrt' (by exact_mod_cast hx)]
    constructor
    · rintro (hle | hle)
      · exact absurd hx (not_lt.2 hle)
      · exact_mod_cast hle
    · intro hle
      exact Or.inr (by exact_mod_cast hle)

/-- The length of a rational vector is the root of its rational sum of squares. -/
theorem vecLength_cast (v : Fin 3 → ℚ) :
    vecLength (fun i => (v i : ℝ)) = √((∑ i, v i ^ 2 : ℚ) : ℝ) := by
  rw [vecLength]
  norm_cast

/-- The sign of the determinant is decided over the rationals. -/
theorem det_linear (m : Matrix (Fin 4) (Fin 4) ℚ) :
    ((linear m).map (fun q => (q : ℝ))).det < 0 ↔ (linear m).det < 0 := by
  have hcast : ((linear m).map (fun q => (q : ℝ))).det = ((linear m).det : ℝ) :=
    ((Rat.castHom ℝ).map_det (linear m)).symm
  rw [hcast]
  exact Rat.cast_lt_zero

/-- Whether a matrix is within the tolerances can be told from its entries. -/
theorem bounded_matrix_iff {limits : Limits} {m : Matrix (Fin 4) (Fin 4) ℚ} :
    Bounded limits (.matrix m) ↔ MatrixWithin limits m := by
  unfold Bounded MatrixWithin
  refine and_congr ?_ (forall_congr' ?_)
  · have htranslation : vecLength (LocalTransform.matrix m).translation =
        √((∑ i : Fin 3, m i.castSucc 3 ^ 2 : ℚ) : ℝ) := vecLength_cast (fun i => m i.castSucc 3)
    rw [sqrtLe_iff, htranslation]
  · intro j
    have hcolumn : vecLength (fun i => ((linear m).map (fun q => (q : ℝ))) i j) =
        √((∑ i, linear m i j ^ 2 : ℚ) : ℝ) := vecLength_cast (fun i => linear m i j)
    simp only [LocalTransform.scale, scaleFactors, hcolumn, det_linear]
    split
    · -- the factor is negative, so it is more than one away
      have hroot := Real.sqrt_nonneg ((∑ i, linear m i j ^ 2 : ℚ) : ℝ)
      rw [sqrtLe_iff, abs_of_neg (by linarith), Rat.cast_sub, Rat.cast_one]
      constructor
      · intro h
        linarith
      · intro h
        linarith
    · rw [sqrtLe_iff, leSqrt_iff, abs_le, Rat.cast_sub, Rat.cast_add, Rat.cast_one]
      constructor
      · rintro ⟨hlow, hhigh⟩
        exact ⟨by linarith, by linarith⟩
      · rintro ⟨hhigh, hlow⟩
        exact ⟨by linarith, by linarith⟩

/-! ## What the gate checks of a root -/

theorem mapM_numOf {xs : List Json} {values : List ℚ} (h : xs.mapM numOf = some values) :
    xs = values.map Json.num := by
  induction xs generalizing values with
  | nil =>
    cases h
    rfl
  | cons x xs ih =>
    rw [List.mapM_cons] at h
    obtain ⟨q, hq, h⟩ := Option.bind_eq_some_iff.1 h
    obtain ⟨rest, hrest, h⟩ := Option.bind_eq_some_iff.1 h
    cases h
    cases x with
    | num n =>
      cases hq
      rw [ih hrest, List.map_cons]
    | _ => cases hq

/-- What an array of numbers is made of. -/
theorem numbers_eq_some {n : ℕ} {x : Json} {v : Fin n → ℚ} (h : numbers n x = some v) :
    x = .arr ((List.ofFn v).map Json.num) := by
  cases x with
  | arr xs =>
    rw [numbers] at h
    split at h
    · next values hvalues =>
      split at h
      · next hlength =>
        cases h
        subst hlength
        rw [mapM_numOf hvalues]
        congr 2
        exact (List.ofFn_get values).symm
      · cases h
    · cases h
  | _ => cases h

section

variable {host : Host} {limits : Limits}

theorem float_nums (values : List ℚ) :
    (values.map Json.num).mapM (float host.floatOfText) = .ok values := by
  have h : ∀ q ∈ values, (float host.floatOfText ∘ Json.num) q = .ok (id q) := fun q _ => rfl
  rw [List.mapM_map, mapM_eq_ok h, List.map_id]

/-- Numbers that pass the unit check are within the tolerance of one. -/
theorem allNearOne_nums {tolerance : ℚ} {values : List ℚ}
    (h : allNearOne host tolerance (values.map Json.num) = .ok true) :
    ∀ q ∈ values, |q - 1| ≤ tolerance := by
  induction values with
  | nil => exact List.forall_mem_nil _
  | cons q values ih =>
    have hq : (if |q - 1| ≤ tolerance then allNearOne host tolerance (values.map Json.num)
        else .ok false) = .ok true := h
    split at hq
    · next hnear => exact List.forall_mem_cons.2 ⟨hnear, ih hq⟩
    · cases hq

/-- The second form of a transform is checked as a whole. -/
theorem checkNode_trs {manifest : GateManifest} {agentId : String} {node : Json}
    {translation scale : Fin 3 → ℚ}
    (h : checkNode host manifest agentId node = .ok ())
    (hnode : localTransform node = some (.trs translation scale)) :
    Bounded manifest.limits (.trs translation scale) := by
  cases node with
  | obj fields =>
    rw [localTransform] at hnode
    split at hnode
    · -- a matrix is the other form
      obtain ⟨v, -, hv⟩ := Option.map_eq_some_iff.1 hnode
      cases hv
    · obtain ⟨t, ht, hnode⟩ := Option.bind_eq_some_iff.1 hnode
      obtain ⟨s, hs, hnode⟩ := Option.bind_eq_some_iff.1 hnode
      cases hnode
      unfold checkNode at h
      rw [get_obj, get_obj, numbers_eq_some ht, numbers_eq_some hs] at h
      obtain ⟨x, hx, h⟩ := bind_eq_ok.1 h
      obtain ⟨y, hy, h⟩ := bind_eq_ok.1 h
      cases hx
      cases hy
      obtain ⟨xs, hxs, h⟩ := bind_eq_ok.1 h
      cases hxs
      obtain ⟨components, hcomponents, h⟩ := bind_eq_ok.1 h
      cases (float_nums (List.ofFn translation)).symm.trans hcomponents
      obtain ⟨horigin, h⟩ := assert_bind_eq_ok.1 h
      obtain ⟨ys, hys, h⟩ := bind_eq_ok.1 h
      cases hys
      obtain ⟨near, hnear, h⟩ := bind_eq_ok.1 h
      cases near with
      | false => cases h
      | true =>
        constructor
        · -- the model compares squares where the script takes a root
          rw [List.map_ofFn, List.sum_ofFn, sqrtLe_iff] at horigin
          have hlength : vecLength (LocalTransform.trs translation scale).translation =
              √((∑ i : Fin 3, translation i ^ 2 : ℚ) : ℝ) := vecLength_cast translation
          rw [hlength]
          exact horigin
        · intro i
          have hscale := allNearOne_nums hnear (scale i) (List.mem_ofFn.2 ⟨i, rfl⟩)
          show |(scale i : ℝ) - 1| ≤ (manifest.limits.scaleTolerance : ℝ)
          exact_mod_cast hscale
  | _ => cases hnode

end

/-- A field with a member is an array, and `get` returns it. -/
theorem get_arrayOf {x y : Json} {key : String} (h : y ∈ arrayOf x key) (fallback : Json) :
    get x key fallback = .ok (.arr (arrayOf x key)) := by
  cases x with
  | obj fields =>
    rw [arrayOf] at h
    rw [get_obj, arrayOf]
    split at h
    · next xs hxs =>
      rw [hxs]
      rfl
    · cases h
  | _ => cases h

theorem listOf_arrayOf {x y : Json} {key : String} (h : y ∈ arrayOf x key) :
    listOf x key = .ok (.arr (arrayOf x key)) := by
  unfold listOf
  rw [get_arrayOf h]
  show Except.ok (orElse (.arr (arrayOf x key)) (.arr [])) = _
  rw [orElse, if_pos (isTruthy_arr h)]

/-- A natural number is an index as Python takes it. -/
theorem item_natural {x y : Json} {i : ℕ} {l : List Json} (hx : naturalOf x = some i)
    (hy : l[i]? = some y) : item (.arr l) x = .ok y := by
  cases x with
  | num q =>
    rw [naturalOf] at hx
    split at hx
    · next hq =>
      cases hx
      have hindex : index? (.num q) = some q.num := if_pos hq.1
      have hnth : nth l q.num = some y := by
        rw [nth, if_pos hq.2]
        exact hy
      show sequenceItem l (.num q) = .ok y
      unfold sequenceItem
      rw [hindex]
      dsimp only
      rw [hnth]
    · cases hx
  | _ => cases hx

/-- Every root of the default scene is looked at. -/
theorem checkRoots_covers {host : Host} {manifest : GateManifest} {agentId : String}
    {nodes doc : Json} (hnodes : listOf doc "nodes" = .ok nodes)
    (h : checkRoots host manifest agentId nodes doc = .ok ()) :
    ∀ node ∈ defaultRoots doc, checkNode host manifest agentId node = .ok () := by
  intro node hnode
  unfold defaultRoots at hnode
  split at hnode
  · cases hnode
  · next scene hscene =>
    obtain ⟨i, hi, hscene⟩ := Option.bind_eq_some_iff.1 hscene
    obtain ⟨x, hx, hroot⟩ := List.mem_filterMap.1 hnode
    obtain ⟨k, hk, hroot⟩ := Option.bind_eq_some_iff.1 hroot
    -- the gate finds the same scene
    have hroots : rootIndices doc = .ok (.arr (arrayOf scene "nodes")) := by
      cases doc with
      | obj fields =>
        have hmem := List.mem_of_getElem? hscene
        unfold rootIndices
        rw [listOf_arrayOf hmem, get_obj]
        simp only [bind, Except.bind, isTruthy_arr hmem, if_true, item_natural hi hscene]
        exact get_arrayOf hx _
      | _ => cases hi
    rw [listOf_arrayOf (List.mem_of_getElem? hroot)] at hnodes
    cases hnodes
    unfold checkRoots at h
    rw [hroots] at h
    have hchecked := forM_eq_ok h x hx
    rw [item_natural hk hroot] at hchecked
    exact hchecked

/-! ## Assets that pass -/

/-- A document that is let through has its roots within the tolerances exactly if the
matrices among them are. -/
theorem validateDocument_roots {host : Host} {manifest : GateManifest} {agentId : String}
    {validation doc : Json}
    (h : validateDocument host manifest agentId validation doc = .ok ()) :
    RootsBounded manifest.limits doc ↔ MatricesWithin manifest.limits doc := by
  unfold validateDocument at h
  obtain ⟨nodes, hnodes, h⟩ := bind_eq_ok.1 h
  -- the names and the counts say nothing of the roots
  obtain ⟨bones, -, h⟩ := bind_eq_ok.1 h
  obtain ⟨skins, -, h⟩ := bind_eq_ok.1 h
  obtain ⟨-, h⟩ := assert_bind_eq_ok.1 h
  obtain ⟨animations, -, h⟩ := bind_eq_ok.1 h
  obtain ⟨names, -, h⟩ := bind_eq_ok.1 h
  obtain ⟨materials, -, h⟩ := bind_eq_ok.1 h
  obtain ⟨textures, -, h⟩ := bind_eq_ok.1 h
  obtain ⟨primitives, -, h⟩ := bind_eq_ok.1 h
  obtain ⟨-, h⟩ := assert_bind_eq_ok.1 h
  obtain ⟨roots, hroots, -⟩ := bind_eq_ok.1 h
  constructor
  · intro hbounded node hnode m hm
    exact bounded_matrix_iff.1 (hbounded node hnode (.matrix m) hm)
  · intro hmatrices node hnode t ht
    cases t with
    | matrix m => exact bounded_matrix_iff.2 (hmatrices node hnode m ht)
    | trs translation scale =>
      exact checkNode_trs (checkRoots_covers hnodes hroots node hnode) ht

/-- `validate_asset` passes for an asset that is approved, whose file has the document. -/
structure AssetPasses (host : Host) (manifest : GateManifest) (agentId : String)
    (asset doc : Json) : Prop where
  approved : ∃ status, get asset "status" (.str "pending") = .ok status ∧
    equal status (.str "approved") = true
  document : ∃ validation, approvedDocument host manifest agentId asset = .ok (validation, doc)
  passes : validateAsset host manifest agentId asset = .ok ()

/-- The document was checked. -/
theorem AssetPasses.validated {host : Host} {manifest : GateManifest} {agentId : String}
    {asset doc : Json} (h : AssetPasses host manifest agentId asset doc) :
    ∃ validation, validateDocument host manifest agentId validation doc = .ok () := by
  obtain ⟨status, hstatus, happroved⟩ := h.approved
  obtain ⟨validation, hdocument⟩ := h.document
  have hpasses := h.passes
  unfold validateAsset at hpasses
  rw [hstatus, hdocument] at hpasses
  simp only [bind, Except.bind, happroved, if_true] at hpasses
  exact ⟨validation, hpasses⟩

/-- For every asset on which the gate passes: all roots of the default scene are within
the tolerances exactly if those are that give a matrix. -/
theorem root_bounds_iff (host : Host) (manifest : GateManifest) (agentId : String)
    (asset doc : Json) (h : AssetPasses host manifest agentId asset doc) :
    RootsBounded manifest.limits doc ↔ MatricesWithin manifest.limits doc := by
  obtain ⟨validation, hvalidated⟩ := h.validated
  exact validateDocument_roots hvalidated

/-! ## An asset whose root has a matrix -/

section

open JsonText

def bones : List String :=
  ["Root", "Hips", "Spine", "Chest", "Neck", "Head", "LeftArm", "LeftForeArm", "LeftHand",
    "RightArm", "RightForeArm", "RightHand", "LeftUpLeg", "LeftLeg", "LeftFoot", "RightUpLeg",
    "RightLeg", "RightFoot"]

def motions : List String :=
  ["Idle", "Walk", "Sit_Down", "Sit_Idle", "Stand_Up", "Working", "Interact", "Use_Computer",
    "Use_Tablet", "Observe", "Repair", "Finish_Task"]

/-- The entry of the asset in the manifest. -/
def rigAsset : Json :=
  .obj [("status", .str "approved"), ("model_url", .str "/models/agent.glb"),
    ("rig_profile", .str "ads-humanoid-v1"), ("validation", .obj [("passed", .bool true)]),
    ("local_path", .str "models/agent.glb")]

/-- The manifest of the repository, with the asset. -/
def rigManifest : GateManifest where
  version := "ads-agency-3d-assets/v1"
  rigProfile := "ads-humanoid-v1"
  animationContract := "ads-agent-animation/v1"
  requiredBones := bones
  requiredAnimations := motions
  limits :=
    { maxFileMb := 12, maxMaterials := 24, maxTextures := 24, maxMeshPrimitives := 64,
      minHeightM := 4 / 5, maxHeightM := 3, originToleranceM := 1 / 20, scaleTolerance := 1 / 50 }
  assets := [("copywriter", rigAsset)]

def nums (values : List ℤ) : Json := .arr (values.map (fun n : ℤ => Json.num n))

/-- A root that is `x` away from the origin. -/
def rigRoot (x : ℤ) : Json :=
  .obj [("name", .str "Root"), ("matrix", nums [1, 0, 0, 0, 0, 1, 0, 0, 0, 0, 1, 0, x, 0, 0, 1])]

def bone (name : String) : Json := .obj [("name", .str name)]

/-- An animation of the second bone. -/
def motion (name : String) : Json :=
  .obj [("name", .str name),
    ("channels", .arr [.obj [("sampler", .num 0),
      ("target", .obj [("node", .num 1), ("path", .str "translation")])]]),
    ("samplers", .arr [.obj [("input", .num 0), ("output", .num 1)]])]

/-- A document with that root, and all else that is required. -/
def rig (x : ℤ) : List (String × Json) :=
  [("asset", .obj [("version", .str "2.0")]),
    ("scenes", .arr [.obj [("nodes", .arr [.num 0])]]),
    ("nodes", .arr (rigRoot x :: bones.tail.map bone)),
    ("skins", .arr [.obj [("joints", .arr [.num 0])]]),
    ("animations", .arr (motions.map motion)),
    ("accessors", .arr [
      .obj [("componentType", .num 5126), ("count", .num 1), ("type", .str "SCALAR"),
        ("min", .arr [.num 0]), ("max", .arr [.num 0])],
      .obj [("componentType", .num 5126), ("count", .num 1), ("type", .str "VEC3")]])]

/-- The document is in the file that the asset names. -/
def rigHost (x : ℤ) : Host where
  files := fun path =>
    if path = "models/agent.glb" then some (glbOf integers (.obj (rig x))) else none
  num := readInt
  floatOfText := fun _ => none
  strOf := fun _ => ""
  reprOf := fun s => "'" ++ s ++ "'"
  lower := Text.asciiLower

theorem rig_writable (x : ℤ) : Writable integers (.obj (rig x)) := by
  have hexact : ∀ n : ℤ, integers.Exact n := Rat.den_intCast
  have hzero : integers.Exact 0 := hexact 0
  have hone : integers.Exact 1 := hexact 1
  have htype : integers.Exact 5126 := hexact 5126
  simp [rig, rigRoot, nums, bone, bones, motion, motions, writable_obj, writable_arr,
    writable_num, Writable.str, hexact, hzero, hone, htype]

theorem rig_size : ∀ x ∈ [(0 : ℤ), 5], (glbOf integers (.obj (rig x))).length ≤ 4000 := by
  decide +kernel

/-- The sample rig passes every check before its document. -/
theorem rig_document {x : ℤ} (hsize : (glbOf integers (.obj (rig x))).length ≤ 4000) :
    approvedDocument (rigHost x) rigManifest "copywriter" rigAsset =
      .ok (.obj [("passed", .bool true)], .obj (rig x)) := by
  have hpath : pathText "models/agent.glb" = "models/agent.glb" := by decide +kernel
  have hfile : (rigHost x).files "models/agent.glb" = some (glbOf integers (.obj (rig x))) := by
    simp only [rigHost, reduceIte]
  have hsuffix : suffix "models/agent.glb" = ".glb" := by decide +kernel
  have hlower : (rigHost x).lower ".glb" = ".glb" := by
    show String.ofList (".glb".toList.map Char.toLower) = ".glb"
    decide +kernel
  have hmb : ((glbOf integers (.obj (rig x))).length : ℚ) / (1024 * 1024) ≤ 12 := by
    have hcast : ((glbOf integers (.obj (rig x))).length : ℚ) ≤ 4000 := by exact_mod_cast hsize
    rw [div_le_iff₀ (by norm_num)]
    linarith
  have hparse : parseGlb (rigHost x).num "models/agent.glb" (glbOf integers (.obj (rig x))) = _ :=
    parseGlb_glbOf (rig_writable x) (by omega) "models/agent.glb"
  unfold approvedDocument
  refine bind_eq_ok.2 ⟨.str "/models/agent.glb", rfl, assert_bind_eq_ok.2 ⟨rfl, ?_⟩⟩
  refine bind_eq_ok.2 ⟨.str "ads-humanoid-v1", rfl, assert_bind_eq_ok.2 ⟨rfl, ?_⟩⟩
  refine bind_eq_ok.2 ⟨.obj [("passed", .bool true)], rfl, ?_⟩
  refine bind_eq_ok.2 ⟨.bool true, rfl, assert_bind_eq_ok.2 ⟨rfl, ?_⟩⟩
  refine bind_eq_ok.2 ⟨.str "models/agent.glb", rfl, assert_bind_eq_ok.2 ⟨rfl, ?_⟩⟩
  dsimp only
  rw [hpath, hfile, hsuffix, hlower]
  refine assert_bind_eq_ok.2 ⟨rfl, assert_bind_eq_ok.2 ⟨decide_eq_true hmb, ?_⟩⟩
  exact bind_eq_ok.2 ⟨_, hparse, rfl⟩

/-- Its document passes too, at the origin and shifted by five. -/
theorem rig_valid : ∀ x ∈ [(0 : ℤ), 5], validateDocument (rigHost x) rigManifest "copywriter"
    (.obj [("passed", .bool true)]) (.obj (rig x)) = .ok () := by
  decide +kernel

/-- So the gate accepts both rigs, whatever the translation in the root's matrix. -/
theorem rig_passes {x : ℤ} (hx : x ∈ [(0 : ℤ), 5]) :
    AssetPasses (rigHost x) rigManifest "copywriter" rigAsset (.obj (rig x)) := by
  have hdocument := rig_document (rig_size x hx)
  refine ⟨⟨.str "approved", rfl, rfl⟩, ⟨_, hdocument⟩, ?_⟩
  have hbranch : validateAsset (rigHost x) rigManifest "copywriter" rigAsset =
      (approvedDocument (rigHost x) rigManifest "copywriter" rigAsset >>= fun p =>
        validateDocument (rigHost x) rigManifest "copywriter" p.1 p.2) := rfl
  rw [hbranch, hdocument]
  exact rig_valid x hx

def rigMatrix (x : ℤ) : Matrix (Fin 4) (Fin 4) ℚ :=
  !![1, 0, 0, x; 0, 1, 0, 0; 0, 0, 1, 0; 0, 0, 0, 1]

theorem defaultRoots_rig (x : ℤ) : defaultRoots (.obj (rig x)) = [rigRoot x] := rfl

theorem localTransform_rigRoot (x : ℤ) :
    localTransform (rigRoot x) = some (.matrix (rigMatrix x)) := by
  have hentries : localTransform (rigRoot x) = some (.matrix (ofColumns
      ([1, 0, 0, 0, 0, 1, 0, 0, 0, 0, 1, 0, (x : ℚ), 0, 0, 1] : List ℚ).get)) := rfl
  rw [hentries]
  congr 2
  ext i j
  fin_cases i <;> fin_cases j <;> rfl

/-- The gate accepts a root that is five metres away from the origin. -/
theorem shifted_root_accepted :
    AssetPasses (rigHost 5) rigManifest "copywriter" rigAsset (.obj (rig 5)) ∧
      ¬ RootsBounded rigManifest.limits (.obj (rig 5)) := by
  refine ⟨rig_passes (by decide), ?_⟩
  intro hbounded
  have hroot := hbounded (rigRoot 5) (by rw [defaultRoots_rig]; exact List.mem_singleton_self _)
    (.matrix (rigMatrix 5)) (localTransform_rigRoot 5)
  have houtside : ¬ MatrixWithin rigManifest.limits (rigMatrix 5) := by
    unfold MatrixWithin
    decide +kernel
  exact houtside (bounded_matrix_iff.1 hroot)

/-- A root with the matrix of the identity passes, and it is within the tolerances. -/
theorem root_bounds_identity :
    AssetPasses (rigHost 0) rigManifest "copywriter" rigAsset (.obj (rig 0)) ∧
      RootsBounded rigManifest.limits (.obj (rig 0)) := by
  have hpasses := rig_passes (x := 0) (by decide)
  refine ⟨hpasses, (root_bounds_iff (rigHost 0) rigManifest "copywriter" rigAsset (.obj (rig 0))
    hpasses).2 ?_⟩
  intro node hnode m hm
  rw [defaultRoots_rig, List.mem_singleton] at hnode
  rw [hnode, localTransform_rigRoot] at hm
  cases hm
  unfold MatrixWithin
  decide +kernel

end

end AdsHub.Agency3d
