import AdsHub.Agency3d.Glb
import AdsHub.Agency3d.Manifest
import AdsHub.Lib.Rounding

/-!
# AdsHub.Agency3d.Gate — the gate for 3D assets

The script of the workflow that builds the runtime: the manifest is checked, and
`validate_asset` checks every asset that is approved, its entry in the manifest and the
glTF document in its file. The manifest's own fields are taken with the types of its file;
the entries of the assets and the documents are any JSON. Arithmetic is exact.
-/

namespace AdsHub.Agency3d

open Python

/-! ## The script -/

/-- `limits` of the manifest. -/
structure Limits where
  maxFileMb : ℚ
  maxMaterials : ℚ
  maxTextures : ℚ
  maxMeshPrimitives : ℚ
  minHeightM : ℚ
  maxHeightM : ℚ
  originToleranceM : ℚ
  scaleTolerance : ℚ

/-- The manifest, as far as the script reads it. -/
structure GateManifest where
  version : String
  rigProfile : String
  animationContract : String
  requiredBones : List String
  requiredAnimations : List String
  limits : Limits
  assets : List (String × Json)

/-- What the script is run with: the files under their paths, and those functions of
Python of which nothing is used here. -/
structure Host where
  files : String → Option (List UInt8)
  num : List Char → ℚ
  floatOfText : String → Option ℚ
  strOf : Json → String
  reprOf : String → String
  lower : String → String

/-- `str(x)`. -/
def Host.str (host : Host) : Json → String
  | .str s => s
  | x => host.strOf x

/-- `f'{names}'` for a list of texts. -/
def Host.listText (host : Host) (names : List String) : String :=
  "[" ++ String.intercalate ", " (names.map host.reprOf) ++ "]"

/-- `f'{x:.2f}'`, with any number of digits. -/
def fixed (digits : ℕ) (x : ℚ) : String :=
  let n := (Rounding.roundHalfEven (|x| * 10 ^ digits)).toNat
  (if x < 0 then "-" else "") ++ toString (n / 10 ^ digits) ++ "." ++
    String.ofList (Text.pad digits (n % 10 ^ digits))

/-- The parts of a path. -/
def pathParts (path : String) : List (List Char) :=
  (path.toList.splitOn '/').filter (fun part => part ≠ [] ∧ part ≠ ['.'])

/-- The root of a path; two slashes are a root of their own. -/
def pathRoot (path : String) : List Char :=
  match path.toList with
  | '/' :: '/' :: '/' :: _ => ['/']
  | '/' :: '/' :: _ => ['/', '/']
  | '/' :: _ => ['/']
  | _ => []

/-- `str(Path(path))`. -/
def pathText (path : String) : String :=
  match pathRoot path, pathParts path with
  | [], [] => "."
  | root, parts => String.ofList (root ++ ['/'].intercalate parts)

/-- `Path(path).suffix`: what follows the last dot of the name, with something before it
and behind it. -/
def suffix (path : String) : String :=
  let name := ((pathParts path).getLast?.getD []).reverse
  let extension := name.takeWhile (fun c => c ≠ '.')
  match name.dropWhile (fun c => c ≠ '.') with
  | '.' :: _ :: _ => if extension.isEmpty then "" else String.ofList ('.' :: extension.reverse)
  | _ => ""

section

variable (host : Host) (manifest : GateManifest) (agentId : String)

/-- The checks on the entry of an approved asset and on its file: its validation, and the
document in the file. -/
def approvedDocument (asset : Json) : Except Error (Json × Json) := do
  let modelUrl ← get asset "model_url" .null
  assert (isTruthy modelUrl) (agentId ++ ": approved asset missing model_url")
  let rigProfile ← get asset "rig_profile" .null
  assert (equal rigProfile (.str manifest.rigProfile)) (agentId ++ ": rig mismatch")
  let validation ← get asset "validation" .null
  let validation := orElse validation (.obj [])
  let passed ← get validation "passed" .null
  assert (isTrue passed) (agentId ++ ": approval without passed validation")
  let localPath ← get asset "local_path" .null
  assert (isTruthy localPath) (agentId ++ ": approved asset missing local_path")
  match localPath with
  | .str localPath =>
    let path := pathText localPath
    assert ((host.files path).isSome && host.lower (suffix localPath) == ".glb")
      (agentId ++ ": GLB not found: " ++ path)
    let data := (host.files path).getD []
    let sizeMb : ℚ := data.length / (1024 * 1024)
    assert (sizeMb ≤ manifest.limits.maxFileMb)
      (agentId ++ ": GLB too large: " ++ fixed 2 sizeMb ++ " MB")
    let (_, doc) ← parseGlb host.num path data
    return (validation, doc)
  | _ => .error .typeError

/-- `{str(x.get('name')) for x in xs if x.get('name')}`. -/
def nameSet (xs : Json) : Except Error (List String) := do
  let xs ← iter xs
  let names ← xs.mapM (fun x => get x "name" .null)
  return (names.filter isTruthy).map host.str

/-- No required name is missing. -/
def checkNames (what : String) (required : List String) (xs : Json) : Except Error Unit := do
  let names ← nameSet host xs
  let missing := required.filter (fun name => name ∉ names)
  assert missing.isEmpty (agentId ++ ": missing " ++ what ++ " " ++
    host.listText (missing.dedup.mergeSort (fun a b => decide (a ≤ b))))

/-- `doc.get(key) or []`. -/
def listOf (doc : Json) (key : String) : Except Error Json := do
  let xs ← get doc key .null
  return orElse xs (.arr [])

/-- `assert len(doc.get(key) or []) <= limit`. -/
def checkCount (doc : Json) (key : String) (limit : ℚ) : Except Error Unit := do
  let xs ← listOf doc key
  let n ← len xs
  assert ((n : ℚ) ≤ limit) (agentId ++ ": too many " ++ key)

/-- The number of primitives of all meshes. -/
def countPrimitives (doc : Json) : Except Error ℕ := do
  let meshes ← listOf doc "meshes"
  let meshes ← iter meshes
  let counts ← meshes.mapM (fun mesh => do
    let primitives ← listOf mesh "primitives"
    len primitives)
  return counts.sum

/-- `math.sqrt(s) <= tolerance`. -/
def sqrtLe (s tolerance : ℚ) : Bool := decide (0 ≤ tolerance ∧ s ≤ tolerance ^ 2)

/-- `all(abs(float(v) - 1.0) <= tolerance for v in values)`. -/
def allNearOne (tolerance : ℚ) : List Json → Except Error Bool
  | [] => .ok true
  | v :: values => do
    let x ← float host.floatOfText v
    if |x - 1| ≤ tolerance then allNearOne tolerance values else return false

/-- The body of the loop over the roots, for a node. -/
def checkNode (node : Json) : Except Error Unit := do
  let translation ← get node "translation" (.arr [.num 0, .num 0, .num 0])
  let scale ← get node "scale" (.arr [.num 1, .num 1, .num 1])
  let translation ← iter translation
  let components ← translation.mapM (float host.floatOfText)
  assert (sqrtLe (components.map (· ^ 2)).sum manifest.limits.originToleranceM)
    (agentId ++ ": root origin outside tolerance")
  let scale ← iter scale
  let near ← allNearOne host manifest.limits.scaleTolerance scale
  assert near (agentId ++ ": root scale outside tolerance")

/-- `scenes[scene_index].get('nodes', []) if scenes else []`. -/
def rootIndices (doc : Json) : Except Error Json := do
  let scenes ← listOf doc "scenes"
  let sceneIndex ← get doc "scene" (.num 0)
  if isTruthy scenes then
    let scene ← item scenes sceneIndex
    get scene "nodes" (.arr [])
  else return .arr []

/-- The loop over the roots of the default scene. -/
def checkRoots (nodes doc : Json) : Except Error Unit := do
  let roots ← rootIndices doc
  let indices ← iter roots
  indices.forM (fun index => do
    let node ← item nodes index
    checkNode host manifest agentId node)

/-- `acc[key][1]` as a number, if `acc[key]` is a list with two elements. -/
def secondOf (acc : Json) (key : String) : Except Error (List ℚ) := do
  let bound ← get acc key .null
  match bound with
  | .arr (_ :: y :: _) =>
    let y ← float host.floatOfText y
    return [y]
  | _ => return []

/-- The lowest and the highest points of a primitive, as far as its accessor tells. -/
def primitiveBounds (accessors primitive : Json) : Except Error (List ℚ × List ℚ) := do
  let attributes ← get primitive "attributes" .null
  let pos ← get (orElse attributes (.obj [])) "POSITION" .null
  match pos with
  | .null => return ([], [])
  | _ =>
    let n ← len accessors
    let beyond ← atLeast pos n
    if beyond then return ([], [])
    else
      let acc ← item accessors pos
      let ymins ← secondOf host acc "min"
      let ymaxs ← secondOf host acc "max"
      return (ymins, ymaxs)

/-- The loop over the primitives of all meshes. -/
def heightBounds (doc : Json) : Except Error (List ℚ × List ℚ) := do
  let accessors ← listOf doc "accessors"
  let meshes ← listOf doc "meshes"
  let meshes ← iter meshes
  let bounds ← meshes.mapM (fun mesh => do
    let primitives ← listOf mesh "primitives"
    let primitives ← iter primitives
    primitives.mapM (primitiveBounds host accessors))
  return (bounds.flatten.flatMap Prod.fst, bounds.flatten.flatMap Prod.snd)

/-- The height of the model, if it is known, is within its limits. -/
def checkHeight (doc : Json) : Except Error Unit := do
  let (ymins, ymaxs) ← heightBounds host doc
  match ymins, ymaxs with
  | ymin :: ymins, ymax :: ymaxs =>
    let height := ymaxs.foldl max ymax - ymins.foldl min ymin
    assert (manifest.limits.minHeightM ≤ height && height ≤ manifest.limits.maxHeightM)
      (agentId ++ ": height " ++ fixed 3 height ++ "m outside limits")
  | _, _ => return ()

/-- An element of a `set`. -/
def hashable : Json → Bool
  | .arr _ => false
  | .obj _ => false
  | _ => true

/-- The animations that the validation declares, if any, are all the required ones. -/
def checkDeclared (validation : Json) : Except Error Unit := do
  let animations ← listOf validation "animations"
  let declared ← iter animations
  if declared.all hashable then
    if declared.isEmpty then return ()
    else
      assert (manifest.requiredAnimations.all (fun name => declared.any (equal (.str name))))
        (agentId ++ ": validation metadata missing required animations")
  else .error .typeError

/-- The checks on the document. -/
def validateDocument (validation doc : Json) : Except Error Unit := do
  let nodes ← listOf doc "nodes"
  checkNames host agentId "bones" manifest.requiredBones nodes
  let skins ← get doc "skins" .null
  assert (isTruthy skins) (agentId ++ ": no skin found")
  let animations ← listOf doc "animations"
  checkNames host agentId "animations" manifest.requiredAnimations animations
  checkCount agentId doc "materials" manifest.limits.maxMaterials
  checkCount agentId doc "textures" manifest.limits.maxTextures
  let primitives ← countPrimitives doc
  assert ((primitives : ℚ) ≤ manifest.limits.maxMeshPrimitives)
    (agentId ++ ": too many mesh primitives")
  checkRoots host manifest agentId nodes doc
  checkHeight host manifest agentId doc
  checkDeclared manifest agentId validation

/-- `validate_asset`. -/
def validateAsset (asset : Json) : Except Error Unit := do
  let status ← get asset "status" (.str "pending")
  if equal status (.str "approved") then
    let (validation, doc) ← approvedDocument host manifest agentId asset
    validateDocument host manifest agentId validation doc
  else return ()

end

/-- The script; its assertions on the manifest have no message. -/
def validateManifest (host : Host) (manifest : GateManifest) : Except Error Unit := do
  assert (manifest.version = "ads-agency-3d-assets/v1") ""
  assert (manifest.rigProfile = "ads-humanoid-v1") ""
  assert (manifest.animationContract = "ads-agent-animation/v1") ""
  assert (manifest.requiredBones ≠ [] ∧ manifest.requiredAnimations ≠ []) ""
  assert (0 < manifest.limits.maxFileMb) ""
  manifest.assets.forM (fun entry => validateAsset host manifest entry.1 entry.2)

end AdsHub.Agency3d
