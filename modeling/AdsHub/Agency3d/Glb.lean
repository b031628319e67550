import Mathlib.Data.List.DropRight
import AdsHub.Lib.Chunks
import AdsHub.Lib.JsonText
import AdsHub.Lib.Python

/-!
# AdsHub.Agency3d.Glb — the container of a 3D asset

`parse_glb` of the workflow that builds the runtime. A GLB file is a header of twelve
bytes and a row of chunks; the parser returns the document in the first chunk of type
JSON. It checks the length that the header declares, but cuts the chunks out of the file
with slices, which are silently shorter where the file ends.

`parse_iff_framed` is the exact extent of that: the parser accepts the well-framed
containers and nothing else, unless the file ends inside its JSON chunk and what is there
of it is a document by itself (`CutOff`). `parseGlb_glbOf`: a document that is written to a
file is parsed to itself.
-/

namespace AdsHub.Agency3d

open Python Chunks

/-- The type of a JSON chunk. -/
def jsonType : ℕ := 0x4E4F534A

/-- `b'glTF'`. -/
def magic : List UInt8 := [0x67, 0x6C, 0x54, 0x46]

/-- A little-endian 32-bit number of `struct.unpack_from`. -/
def unpackU32 (data : List UInt8) (offset : ℕ) : ℕ := ofLe ((data.drop offset).take 4)

/-- `data[start:start + length]`. -/
def slice (data : List UInt8) (start length : ℕ) : List UInt8 := (data.drop start).take length

/-- `bytes.rstrip(b'\x00 \t\r\n')`. -/
def rstrip (bytes : List UInt8) : List UInt8 :=
  bytes.rdropWhile (fun b => b ∈ [0x00, 0x20, 0x09, 0x0D, 0x0A])

/-- `bytes.decode('utf-8')`. -/
def decodeUtf8 (bytes : List UInt8) : Option (List Char) :=
  bytes.toByteArray.utf8Decode?.map Array.toList

section

variable (num : List Char → ℚ)

/-- `json.loads(chunk.rstrip(...).decode('utf-8'))`, if nothing raises. -/
def document (chunk : List UInt8) : Option Json :=
  (decodeUtf8 (rstrip chunk)).bind (JsonText.loads num)

/-- The same; both exceptions are kinds of `ValueError`. -/
def loadChunk (chunk : List UInt8) : Except Error Json :=
  match document num chunk with
  | some doc => .ok doc
  | none => .error .valueError

/-- The loop over the chunks, from an offset on; `None` if it ends without a document. -/
def jsonChunk (data : List UInt8) (offset : ℕ) : Except Error Json :=
  if offset + 8 ≤ data.length then
    let length := unpackU32 data offset
    let chunkType := unpackU32 data (offset + 4)
    let chunk := slice data (offset + 8) length
    if chunkType = jsonType then loadChunk num chunk
    else jsonChunk data (offset + 8 + length)
  else .ok .null
termination_by data.length - offset

/-- `x is not None`. -/
def isNotNone : Json → Bool
  | .null => false
  | _ => true

/-- `parse_glb`, for the bytes of the file. -/
def parseGlb (path : String) (data : List UInt8) : Except Error (List UInt8 × Json) := do
  assert (20 ≤ data.length) (path ++ ": GLB too small")
  assert (data.take 4 = magic) (path ++ ": invalid GLB magic")
  assert (unpackU32 data 4 = 2) (path ++ ": GLB version must be 2")
  assert (unpackU32 data 8 = data.length) (path ++ ": declared length mismatch")
  let doc ← jsonChunk num data 12
  assert (isNotNone doc) (path ++ ": JSON chunk missing")
  return (data, doc)

end

/-! ## The container -/

/-- The header of a file. -/
def header (total : ℕ) : List UInt8 := magic ++ (toLe 4 2 ++ toLe 4 total)

/-- A well-framed container of a document: the header with the length of the file, whole
chunks of other types, and a whole JSON chunk with the document. What follows is not
looked at. -/
def WellFramed (num : List Char → ℚ) (data : List UInt8) (doc : Json) : Prop :=
  ∃ (skipped : List Chunk) (json : Chunk) (rest : List UInt8),
    data.length < 2 ^ 32 ∧
    data = header data.length ++ (skipped.flatMap Chunk.bytes ++ (json.bytes ++ rest)) ∧
    (∀ c ∈ skipped, c.kind ≠ jsonType) ∧ json.kind = jsonType ∧
    document num json.payload = some doc ∧ doc ≠ .null

/-- The file ends inside its JSON chunk, and the part that is there is a document. -/
def CutOff (num : List Char → ℚ) (data : List UInt8) : Prop :=
  ∃ (skipped : List Chunk) (declared : ℕ) (present : List UInt8) (doc : Json),
    data.length < 2 ^ 32 ∧ declared < 2 ^ 32 ∧
    data = header data.length ++
      (skipped.flatMap Chunk.bytes ++ (head declared jsonType ++ present)) ∧
    (∀ c ∈ skipped, c.kind ≠ jsonType) ∧ present.length < declared ∧
    document num present = some doc ∧ doc ≠ .null

/-! ## The loop -/

theorem unpackU32_lt (data : List UInt8) (offset : ℕ) : unpackU32 data offset < 2 ^ 32 := by
  have hlt := ofLe_lt ((data.drop offset).take 4)
  have hle : 256 ^ ((data.drop offset).take 4).length ≤ 256 ^ 4 :=
    Nat.pow_le_pow_right (by decide) (List.length_take_le 4 _)
  have hword : (256 : ℕ) ^ 4 = 2 ^ 32 := by norm_num
  unfold unpackU32
  omega

/-- Reading a word and writing it back are inverse: the four bytes at the offset are the
little-endian text of the number read there. -/
theorem toLe_unpackU32 {data : List UInt8} {offset : ℕ} (h : offset + 4 ≤ data.length) :
    data.drop offset = toLe 4 (unpackU32 data offset) ++ data.drop (offset + 4) := by
  have hlength : ((data.drop offset).take 4).length = 4 := by
    rw [List.length_take, List.length_drop]
    omega
  have hbytes := toLe_ofLe ((data.drop offset).take 4)
  rw [hlength] at hbytes
  rw [unpackU32, hbytes, ← List.drop_drop, List.take_append_drop]

/-- Where the loop finds room for a head, there is one. -/
theorem drop_eq_head {data : List UInt8} {offset : ℕ} (h : offset + 8 ≤ data.length) :
    data.drop offset = head (unpackU32 data offset) (unpackU32 data (offset + 4)) ++
      data.drop (offset + 8) := by
  rw [toLe_unpackU32 (by omega), toLe_unpackU32 (by omega : offset + 4 + 4 ≤ data.length), head,
    List.append_assoc]

/-- The loop reads the head that stands at its offset. -/
theorem unpack_head {data rest : List UInt8} {offset length kind : ℕ} (hlength : length < 2 ^ 32)
    (hkind : kind < 2 ^ 32) (h : data.drop offset = head length kind ++ rest) :
    offset + 8 ≤ data.length ∧ unpackU32 data offset = length ∧
      unpackU32 data (offset + 4) = kind ∧ data.drop (offset + 8) = rest := by
  have hroom : offset + 8 ≤ data.length := by
    have hlen := congrArg List.length h
    rw [List.length_drop, List.length_append, length_head] at hlen
    omega
  rw [drop_eq_head hroom] at h
  exact ⟨hroom, head_append_inj (unpackU32_lt data offset) hlength (unpackU32_lt data (offset + 4))
    hkind h⟩

/-- The chunk reader accepts exactly the chunks that hold a document. -/
theorem loadChunk_eq_ok {num : List Char → ℚ} {chunk : List UInt8} {doc : Json} :
    loadChunk num chunk = .ok doc ↔ document num chunk = some doc := by
  unfold loadChunk
  cases document num chunk with
  | none =>
    constructor
    · intro h
      cases h
    · intro h
      cases h
  | some doc' =>
    constructor
    · intro h
      exact congrArg some (Except.ok.inj h)
    · intro h
      exact congrArg Except.ok (Option.some.inj h)

/-- What the loop returns comes from the first JSON chunk, as far as it is there. -/
theorem jsonChunk_sound {num : List Char → ℚ} {data : List UInt8} {offset : ℕ} {doc : Json}
    (h : jsonChunk num data offset = .ok doc) (hdoc : doc ≠ .null) :
    ∃ declared tail, Reaches jsonType (data.drop offset) declared tail ∧
      document num (tail.take declared) = some doc := by
  fun_induction jsonChunk num data offset with
  | case1 offset hroom length chunkType chunk hjson =>
    refine ⟨length, data.drop (offset + 8), ?_, loadChunk_eq_ok.1 h⟩
    rw [drop_eq_head hroom, ← hjson]
    exact Reaches.here (unpackU32_lt data offset) _
  | case2 offset hroom length chunkType hother ih =>
    obtain ⟨declared, tail, hreaches, htail⟩ := ih h
    refine ⟨declared, tail, ?_, htail⟩
    -- the loop went on behind this chunk, so all of it is there
    have hrest := hreaches.length_le
    rw [List.length_drop] at hrest
    have hwhole : (slice data (offset + 8) length).length = length := by
      rw [slice, List.length_take, List.length_drop]
      omega
    have hsplit : data.drop (offset + 8) =
        slice data (offset + 8) length ++ data.drop (offset + 8 + length) := by
      have htake := List.take_append_drop length (data.drop (offset + 8))
      rw [List.drop_drop] at htake
      exact htake.symm
    have hlt : (slice data (offset + 8) length).length < 2 ^ 32 := by
      rw [hwhole]
      exact unpackU32_lt data offset
    have hbytes : data.drop offset =
        (Chunk.mk chunkType (slice data (offset + 8) length) (unpackU32_lt data (offset + 4))
          hlt).bytes ++ data.drop (offset + 8 + length) := by
      rw [Chunk.bytes, hwhole, List.append_assoc, ← hsplit]
      exact drop_eq_head hroom
    rw [hbytes]
    exact Reaches.skip hother hreaches
  | case3 offset hroom => exact absurd (Except.ok.inj h).symm hdoc

/-- The loop loads the first JSON chunk, as far as it is there. -/
theorem jsonChunk_complete {num : List Char → ℚ} {data : List UInt8} {offset declared : ℕ}
    {tail : List UInt8} (h : Reaches jsonType (data.drop offset) declared tail) :
    jsonChunk num data offset = loadChunk num (tail.take declared) := by
  obtain ⟨skipped, hskipped, hdeclared, hbytes⟩ := h
  induction skipped generalizing offset with
  | nil =>
    obtain ⟨hroom, hlength, hkind, hrest⟩ := unpack_head hdeclared (by decide) hbytes
    rw [jsonChunk, if_pos hroom]
    simp only [hlength, hkind, if_true, slice, hrest]
  | cons c skipped ih =>
    rw [List.forall_mem_cons] at hskipped
    rw [List.flatMap_cons, Chunk.bytes, List.append_assoc, List.append_assoc] at hbytes
    obtain ⟨hroom, hlength, hkind, hrest⟩ := unpack_head c.length_lt c.kind_lt hbytes
    rw [jsonChunk, if_pos hroom]
    simp only [hlength, hkind, hskipped.1, if_false]
    refine ih hskipped.2 ?_
    rw [← List.drop_drop, hrest, List.drop_left]

/-! ## The parser -/

/-- The file has a header with its own length. -/
def HeaderOk (data : List UInt8) : Prop :=
  data.length < 2 ^ 32 ∧ data = header data.length ++ data.drop 12

theorem length_header (total : ℕ) : (header total).length = 12 := by
  rw [header, List.length_append, List.length_append, length_toLe, length_toLe]
  rfl

/-- The checks of the parser are those of the header. -/
theorem headerOk_iff {data : List UInt8} (h : 20 ≤ data.length) :
    (data.take 4 = magic ∧ unpackU32 data 4 = 2 ∧ unpackU32 data 8 = data.length) ↔
      HeaderOk data := by
  -- twelve bytes as three words; a word is determined by the number read from it
  have hsplit : data = data.take 4 ++ (toLe 4 (unpackU32 data 4) ++
      (toLe 4 (unpackU32 data 8) ++ data.drop 12)) := by
    rw [← toLe_unpackU32 (by omega : 8 + 4 ≤ data.length),
      ← toLe_unpackU32 (by omega : 4 + 4 ≤ data.length), List.take_append_drop]
  constructor
  · rintro ⟨hmagic, hversion, htotal⟩
    refine ⟨htotal ▸ unpackU32_lt data 8, ?_⟩
    rw [hmagic, hversion, htotal] at hsplit
    rw [header, List.append_assoc, List.append_assoc]
    exact hsplit
  · rintro ⟨hlt, hheader⟩
    rw [header, List.append_assoc, List.append_assoc] at hheader
    have hmagicLength : (data.take 4).length = magic.length := by
      rw [List.length_take]
      exact Nat.min_eq_left (by omega)
    have htoLe : ∀ n m, (toLe 4 n).length = (toLe 4 m).length := by
      intro n m
      rw [length_toLe, length_toLe]
    obtain ⟨hmagic, hrest⟩ := List.append_inj (hsplit.symm.trans hheader) hmagicLength
    obtain ⟨hversion, hrest⟩ := List.append_inj hrest (htoLe _ _)
    obtain ⟨htotal, -⟩ := List.append_inj hrest (htoLe _ _)
    exact ⟨hmagic, toLe_inj (unpackU32_lt data 4) (by decide) hversion,
      toLe_inj (unpackU32_lt data 8) hlt htotal⟩

/-- A file that starts with its own header passes the header checks, and what follows the
header is the rest. -/
theorem headerOk_of_eq {data rest : List UInt8} (hlt : data.length < 2 ^ 32)
    (h : data = header data.length ++ rest) : HeaderOk data ∧ data.drop 12 = rest := by
  have hdrop : data.drop 12 = rest := by
    conv_lhs => rw [h]
    exact List.drop_left' (length_header _)
  refine ⟨⟨hlt, ?_⟩, hdrop⟩
  rw [hdrop]
  exact h

/-- The parser returns the first JSON chunk, as far as it is there. -/
theorem parseGlb_eq_ok {num : List Char → ℚ} {path : String} {data : List UInt8} {doc : Json} :
    parseGlb num path data = .ok (data, doc) ↔
      HeaderOk data ∧ ∃ declared tail, Reaches jsonType (data.drop 12) declared tail ∧
        document num (tail.take declared) = some doc ∧ doc ≠ .null := by
  have hsome : isNotNone doc = true ↔ doc ≠ .null := by
    cases doc <;> simp [isNotNone]
  constructor
  · intro h
    obtain ⟨hsize, h⟩ := assert_bind_eq_ok.1 h
    obtain ⟨hmagic, h⟩ := assert_bind_eq_ok.1 h
    obtain ⟨hversion, h⟩ := assert_bind_eq_ok.1 h
    obtain ⟨htotal, h⟩ := assert_bind_eq_ok.1 h
    obtain ⟨doc', hchunk, h⟩ := bind_eq_ok.1 h
    obtain ⟨hdoc, h⟩ := assert_bind_eq_ok.1 h
    cases h
    rw [decide_eq_true_eq] at hsize hmagic hversion htotal
    rw [hsome] at hdoc
    obtain ⟨declared, tail, hreaches, htail⟩ := jsonChunk_sound hchunk hdoc
    exact ⟨(headerOk_iff hsize).1 ⟨hmagic, hversion, htotal⟩, declared, tail, hreaches, htail, hdoc⟩
  · -- the size check follows: twelve bytes of header and eight of the chunk
    rintro ⟨hheader, declared, tail, hreaches, htail, hdoc⟩
    have hsize : 20 ≤ data.length := by
      have hlen := hreaches.length_le
      rw [List.length_drop] at hlen
      omega
    obtain ⟨hmagic, hversion, htotal⟩ := (headerOk_iff hsize).2 hheader
    have hchunk : jsonChunk num data 12 = .ok doc :=
      (jsonChunk_complete hreaches).trans (loadChunk_eq_ok.2 htail)
    unfold parseGlb
    simp only [hsize, hmagic, hversion, htotal, hchunk, hsome.2 hdoc, decide_true, assert, if_true,
      bind, Except.bind]
    rfl

/-- Well-framedness in the loop's terms: good header, the first JSON chunk reached by the
walk is whole and holds a document other than `null`. -/
theorem wellFramed_iff {num : List Char → ℚ} {data : List UInt8} {doc : Json} :
    WellFramed num data doc ↔
      HeaderOk data ∧ ∃ declared tail, Reaches jsonType (data.drop 12) declared tail ∧
        declared ≤ tail.length ∧ document num (tail.take declared) = some doc ∧ doc ≠ .null := by
  constructor
  · rintro ⟨skipped, json, rest, hlt, hdata, hskipped, hkind, hdoc⟩
    obtain ⟨hheader, hdrop⟩ := headerOk_of_eq hlt hdata
    refine ⟨hheader, json.payload.length, json.payload ++ rest,
      ⟨skipped, hskipped, json.length_lt, ?_⟩, ?_, ?_⟩
    · rw [hdrop, Chunk.bytes, hkind, List.append_assoc]
    · rw [List.length_append]
      omega
    · rwa [List.take_left]
  · rintro ⟨hheader, declared, tail, ⟨skipped, hskipped, hdeclared, hdrop⟩, hle, hdoc⟩
    have hlength : (tail.take declared).length = declared := by
      rw [List.length_take]
      omega
    have hjson : jsonType < 2 ^ 32 := by decide
    have hlt : (tail.take declared).length < 2 ^ 32 := hlength.symm ▸ hdeclared
    -- cut at the declared length, the tail is the payload and what follows the chunk
    have hbytes : (Chunk.mk jsonType (tail.take declared) hjson hlt).bytes ++ tail.drop declared =
        head declared jsonType ++ tail := by
      show head (tail.take declared).length jsonType ++ _ ++ _ = _
      rw [hlength, List.append_assoc, List.take_append_drop]
    refine ⟨skipped, Chunk.mk jsonType (tail.take declared) hjson hlt, tail.drop declared,
      hheader.1, ?_, hskipped, rfl, hdoc⟩
    rw [hbytes, ← hdrop]
    exact hheader.2

/-- The files the loop wrongly accepts, in its own terms: the first JSON chunk declares more
bytes than there are, and what is there is still a document. -/
theorem cutOff_iff {num : List Char → ℚ} {data : List UInt8} :
    CutOff num data ↔
      HeaderOk data ∧ ∃ declared tail doc, Reaches jsonType (data.drop 12) declared tail ∧
        tail.length < declared ∧ document num tail = some doc ∧ doc ≠ .null := by
  constructor
  · rintro ⟨skipped, declared, present, doc, hlt, hdeclared, hdata, hskipped, hdoc⟩
    obtain ⟨hheader, hdrop⟩ := headerOk_of_eq hlt hdata
    exact ⟨hheader, declared, present, doc, ⟨skipped, hskipped, hdeclared, hdrop⟩, hdoc⟩
  · rintro ⟨hheader, declared, tail, doc, ⟨skipped, hskipped, hdeclared, hdrop⟩, hdoc⟩
    refine ⟨skipped, declared, tail, doc, hheader.1, hdeclared, ?_, hskipped, hdoc⟩
    rw [← hdrop]
    exact hheader.2

/-- For every file: the parser returns a document exactly if the file is a well-framed
container of it, unless the file is cut off in its JSON chunk and what is there is a
document. -/
theorem parse_iff_framed (num : List Char → ℚ) (path : String) (data : List UInt8) :
    (∀ doc, parseGlb num path data = .ok (data, doc) ↔ WellFramed num data doc) ↔
      ¬ CutOff num data := by
  constructor
  · intro hexact hcut
    obtain ⟨hheader, declared, tail, doc, hreaches, hshort, hdoc⟩ := cutOff_iff.1 hcut
    have hparse : parseGlb num path data = .ok (data, doc) := by
      refine parseGlb_eq_ok.2 ⟨hheader, declared, tail, hreaches, ?_⟩
      rwa [List.take_of_length_le hshort.le]
    -- a whole chunk would declare what is there
    obtain ⟨-, declared', tail', hreaches', hwhole, -⟩ := wellFramed_iff.1 ((hexact doc).1 hparse)
    obtain ⟨rfl, rfl⟩ := hreaches.unique (by decide) hreaches'
    omega
  · intro hcut doc
    constructor
    · intro hparse
      obtain ⟨hheader, declared, tail, hreaches, hdoc⟩ := parseGlb_eq_ok.1 hparse
      refine wellFramed_iff.2 ⟨hheader, declared, tail, hreaches, ?_, hdoc⟩
      by_contra hshort
      rw [not_le] at hshort
      rw [List.take_of_length_le hshort.le] at hdoc
      exact hcut (cutOff_iff.2 ⟨hheader, declared, tail, doc, hreaches, hshort, hdoc⟩)
    · intro hframed
      obtain ⟨hheader, declared, tail, hreaches, -, hdoc⟩ := wellFramed_iff.1 hframed
      exact parseGlb_eq_ok.2 ⟨hheader, declared, tail, hreaches, hdoc⟩

/-- A file of 22 bytes whose JSON chunk declares 100 bytes and has the two of an empty
document. -/
def truncatedFile : List UInt8 := header 22 ++ (head 100 jsonType ++ [0x7B, 0x7D])

theorem document_empty (num : List Char → ℚ) : document num [0x7B, 0x7D] = some (.obj []) := by
  have hstrip : rstrip [0x7B, 0x7D] = [0x7B, 0x7D] := by decide
  have hbytes : [0x7B, 0x7D].toByteArray = ['\x7b', '\x7d'].utf8Encode := by decide
  rw [document, hstrip, decodeUtf8, hbytes, List.utf8Decode?_utf8Encode]
  rfl

/-- The parser accepts it, though its chunk does not lie inside the file. -/
theorem truncated_file_accepted :
    parseGlb JsonText.readInt "agent.glb" truncatedFile = .ok (truncatedFile, .obj []) ∧
      ¬ WellFramed JsonText.readInt truncatedFile (.obj []) := by
  have hlength : truncatedFile.length = 22 := by decide
  have hdata : truncatedFile = header truncatedFile.length ++
      (head 100 jsonType ++ [0x7B, 0x7D]) := by
    rw [hlength]
    rfl
  have hlt : truncatedFile.length < 2 ^ 32 := by
    rw [hlength]
    decide
  obtain ⟨hheader, hdrop⟩ := headerOk_of_eq hlt hdata
  have hreaches : Reaches jsonType (truncatedFile.drop 12) 100 [0x7B, 0x7D] := by
    rw [hdrop]
    exact Reaches.here (by decide) _
  constructor
  · exact parseGlb_eq_ok.2 ⟨hheader, 100, _, hreaches, document_empty _, fun h => by cases h⟩
  · intro hframed
    obtain ⟨-, declared, tail, hreaches', hwhole, -⟩ := wellFramed_iff.1 hframed
    obtain ⟨rfl, rfl⟩ := hreaches.unique (by decide) hreaches'
    exact absurd hwhole (by decide)

/-! ## Files that are written -/

section

open JsonText

variable {num : NumText}

/-- `text.encode('utf-8')`. -/
def encodeUtf8 (text : List Char) : List UInt8 := text.flatMap String.utf8EncodeChar

/-- A document as the payload of a chunk, filled up with blanks to a multiple of four. -/
def payloadOf (num : NumText) (doc : Json) : List UInt8 :=
  let text := encodeUtf8 (encode compactStyle num doc)
  text ++ List.replicate ((4 - text.length % 4) % 4) 0x20

/-- A file with one chunk. -/
def glbOf (num : NumText) (doc : Json) : List UInt8 :=
  header (20 + (payloadOf num doc).length) ++
    (head (payloadOf num doc).length jsonType ++ payloadOf num doc)

theorem length_glbOf (num : NumText) (doc : Json) :
    (glbOf num doc).length = 20 + (payloadOf num doc).length := by
  rw [glbOf, List.length_append, List.length_append, length_header, length_head]
  omega

/-- Trailing padding does not change what is left after the strip. -/
theorem rstrip_blanks (bytes : List UInt8) (n : ℕ) :
    rstrip (bytes ++ List.replicate n 0x20) = rstrip bytes := by
  induction n with
  | zero => rw [List.replicate_zero, List.append_nil]
  | succ n ih =>
    rw [List.replicate_succ', ← List.append_assoc, rstrip,
      List.rdropWhile_concat_pos _ _ _ (by decide)]
    exact ih

/-- The text of an object ends with its brace. -/
theorem rstrip_object (num : NumText) (fields : List (String × Json)) :
    rstrip (encodeUtf8 (encode compactStyle num (.obj fields))) =
      encodeUtf8 (encode compactStyle num (.obj fields)) := by
  have hbrace : encodeUtf8 ['\x7d'] = [0x7D] := by decide
  have hlast : ∀ text, encodeUtf8 (text ++ ['\x7d']) = encodeUtf8 text ++ [0x7D] := by
    intro text
    rw [← hbrace]
    exact List.flatMap_append
  rw [encode, ← List.cons_append, hlast]
  exact List.rdropWhile_concat_neg _ _ _ (by decide)

theorem decodeUtf8_encodeUtf8 (text : List Char) : decodeUtf8 (encodeUtf8 text) = some text := by
  have hbytes : (encodeUtf8 text).toByteArray = text.utf8Encode := rfl
  rw [decodeUtf8, hbytes, List.utf8Decode?_utf8Encode]
  rfl

/-- The padded text of an object is read back as that object. -/
theorem document_payloadOf {fields : List (String × Json)} (h : Writable num (.obj fields)) :
    document num.read (payloadOf num (.obj fields)) = some (.obj fields) := by
  rw [document, payloadOf, rstrip_blanks, rstrip_object, decodeUtf8_encodeUtf8]
  exact loads_encode compactStyle h

/-- A file with a document is parsed to that document. -/
theorem parseGlb_glbOf {fields : List (String × Json)} (h : Writable num (.obj fields))
    (hsize : (glbOf num (.obj fields)).length < 2 ^ 32) (path : String) :
    parseGlb num.read path (glbOf num (.obj fields)) =
      .ok (glbOf num (.obj fields), .obj fields) := by
  have hlength := length_glbOf num (.obj fields)
  have hdata : glbOf num (.obj fields) = header (glbOf num (.obj fields)).length ++
      (head (payloadOf num (.obj fields)).length jsonType ++ payloadOf num (.obj fields)) := by
    rw [hlength]
    rfl
  obtain ⟨hheader, hdrop⟩ := headerOk_of_eq hsize hdata
  refine parseGlb_eq_ok.2 ⟨hheader, (payloadOf num (.obj fields)).length,
    payloadOf num (.obj fields), ?_, ?_, fun hnull => by cases hnull⟩
  · rw [hdrop]
    exact Reaches.here (by omega) _
  · rw [List.take_length]
    exact document_payloadOf h

end

end AdsHub.Agency3d
