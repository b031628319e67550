import Mathlib.Data.Nat.Digits.Defs
import Mathlib.Tactic.Ring

/-!
# AdsHub.Lib.Chunks — files made of chunks

A chunk is a head of eight bytes, its length and its kind as little-endian 32-bit
numbers, and a payload of that length. `Reaches` says that a text of bytes is a row of
whole chunks up to the head of the first one of a given kind; where that head stands and
what it declares is fixed by the bytes (`Reaches.unique`). Whether the payload it declares
is all there is left open.
-/

namespace Chunks

/-! ## Numbers -/

/-- The number that bytes are, the least significant one first. -/
def ofLe (bytes : List UInt8) : ℕ := Nat.ofDigits 256 (bytes.map UInt8.toNat)

/-- A number in `w` bytes. -/
def toLe : ℕ → ℕ → List UInt8
  | 0, _ => []
  | w + 1, n => UInt8.ofNat (n % 256) :: toLe w (n / 256)

@[simp] theorem ofLe_nil : ofLe [] = 0 := rfl

@[simp] theorem ofLe_cons (b : UInt8) (bytes : List UInt8) :
    ofLe (b :: bytes) = b.toNat + 256 * ofLe bytes := Nat.ofDigits_cons

@[simp] theorem length_toLe (w n : ℕ) : (toLe w n).length = w := by
  induction w generalizing n with
  | zero => rfl
  | succ w ih => rw [toLe, List.length_cons, ih]

theorem ofLe_toLe {w n : ℕ} (h : n < 256 ^ w) : ofLe (toLe w n) = n := by
  induction w generalizing n with
  | zero =>
    rw [pow_zero, Nat.lt_one_iff] at h
    exact h.symm
  | succ w ih =>
    have hdiv : n / 256 < 256 ^ w := by
      rw [Nat.div_lt_iff_lt_mul (by decide), ← pow_succ]
      exact h
    have hbyte : (UInt8.ofNat (n % 256)).toNat = n % 256 := by
      rw [UInt8.toNat_ofNat']
      omega
    rw [toLe, ofLe_cons, ih hdiv, hbyte]
    exact Nat.mod_add_div n 256

/-- A number that fits is fixed by its bytes. -/
theorem toLe_inj {w n m : ℕ} (hn : n < 256 ^ w) (hm : m < 256 ^ w) (h : toLe w n = toLe w m) :
    n = m := by
  rw [← ofLe_toLe hn, h, ofLe_toLe hm]

theorem toLe_ofLe (bytes : List UInt8) : toLe bytes.length (ofLe bytes) = bytes := by
  induction bytes with
  | nil => rfl
  | cons b bytes ih =>
    have hb := b.toNat_lt
    have hmod : (b.toNat + 256 * ofLe bytes) % 256 = b.toNat := by omega
    have hdiv : (b.toNat + 256 * ofLe bytes) / 256 = ofLe bytes := by omega
    rw [List.length_cons, toLe, ofLe_cons, hmod, hdiv, ih, UInt8.ofNat_toNat]

theorem ofLe_lt (bytes : List UInt8) : ofLe bytes < 256 ^ bytes.length := by
  induction bytes with
  | nil => exact Nat.one_pos
  | cons b bytes ih =>
    have hb := b.toNat_lt
    rw [ofLe_cons, List.length_cons, pow_succ]
    omega

/-! ## Chunks -/

/-- The head of a chunk. -/
def head (length kind : ℕ) : List UInt8 := toLe 4 length ++ toLe 4 kind

/-- A whole chunk, with a length and a kind that its head can hold. -/
structure Chunk where
  kind : ℕ
  payload : List UInt8
  kind_lt : kind < 2 ^ 32
  length_lt : payload.length < 2 ^ 32

def Chunk.bytes (c : Chunk) : List UInt8 := head c.payload.length c.kind ++ c.payload

@[simp] theorem length_head (length kind : ℕ) : (head length kind).length = 8 := by
  rw [head, List.length_append, length_toLe, length_toLe]

/-- A head can be told from what follows it. -/
theorem head_append_inj {n n' k k' : ℕ} {rest rest' : List UInt8} (hn : n < 2 ^ 32)
    (hn' : n' < 2 ^ 32) (hk : k < 2 ^ 32) (hk' : k' < 2 ^ 32)
    (h : head n k ++ rest = head n' k' ++ rest') : n = n' ∧ k = k' ∧ rest = rest' := by
  obtain ⟨hhead, hrest⟩ := List.append_inj h (by rw [length_head, length_head])
  obtain ⟨hlength, hkind⟩ := List.append_inj hhead (by rw [length_toLe, length_toLe])
  exact ⟨toLe_inj hn hn' hlength, toLe_inj hk hk' hkind, hrest⟩

/-- Whole chunks of other kinds, and then the head of a chunk of the wanted kind, which
declares a length, and what follows that head. -/
def Reaches (wanted : ℕ) (bytes : List UInt8) (declared : ℕ) (tail : List UInt8) : Prop :=
  ∃ skipped : List Chunk, (∀ c ∈ skipped, c.kind ≠ wanted) ∧ declared < 2 ^ 32 ∧
    bytes = skipped.flatMap Chunk.bytes ++ (head declared wanted ++ tail)

variable {wanted declared : ℕ} {bytes tail : List UInt8}

theorem Reaches.here (hdeclared : declared < 2 ^ 32) (tail : List UInt8) :
    Reaches wanted (head declared wanted ++ tail) declared tail :=
  ⟨[], List.forall_mem_nil _, hdeclared, rfl⟩

theorem Reaches.skip {c : Chunk} (hc : c.kind ≠ wanted) (h : Reaches wanted bytes declared tail) :
    Reaches wanted (c.bytes ++ bytes) declared tail := by
  obtain ⟨skipped, hskipped, hdeclared, rfl⟩ := h
  refine ⟨c :: skipped, List.forall_mem_cons.2 ⟨hc, hskipped⟩, hdeclared, ?_⟩
  rw [List.flatMap_cons, List.append_assoc]

theorem Reaches.length_le (h : Reaches wanted bytes declared tail) : 8 ≤ bytes.length := by
  obtain ⟨skipped, -, -, rfl⟩ := h
  rw [List.length_append, List.length_append, length_head]
  omega

/-- The first chunk of the kind is fixed by the bytes. -/
theorem Reaches.unique (hwanted : wanted < 2 ^ 32) {declared' : ℕ} {tail' : List UInt8}
    (h : Reaches wanted bytes declared tail) (h' : Reaches wanted bytes declared' tail') :
    declared = declared' ∧ tail = tail' := by
  obtain ⟨skipped, hskipped, hdeclared, hbytes⟩ := h
  obtain ⟨skipped', hskipped', hdeclared', hbytes'⟩ := h'
  rw [hbytes] at hbytes'
  clear hbytes
  induction skipped generalizing skipped' with
  | nil =>
    cases skipped' with
    | nil =>
      obtain ⟨hlength, -, htail⟩ := head_append_inj hdeclared hdeclared' hwanted hwanted hbytes'
      exact ⟨hlength, htail⟩
    | cons c skipped' =>
      -- the first head has the wanted kind, and that of a chunk that is skipped
      rw [List.flatMap_cons, Chunk.bytes, List.append_assoc, List.append_assoc] at hbytes'
      obtain ⟨-, hkind, -⟩ := head_append_inj hdeclared c.length_lt hwanted c.kind_lt hbytes'
      exact absurd hkind.symm (hskipped' c List.mem_cons_self)
  | cons c skipped ih =>
    rw [List.forall_mem_cons] at hskipped
    rw [List.flatMap_cons, Chunk.bytes, List.append_assoc, List.append_assoc] at hbytes'
    cases skipped' with
    | nil =>
      obtain ⟨-, hkind, -⟩ := head_append_inj c.length_lt hdeclared' c.kind_lt hwanted hbytes'
      exact absurd hkind hskipped.1
    | cons c' skipped' =>
      rw [List.forall_mem_cons] at hskipped'
      rw [List.flatMap_cons, Chunk.bytes, List.append_assoc, List.append_assoc] at hbytes'
      obtain ⟨hlength, -, hrest⟩ :=
        head_append_inj c.length_lt c'.length_lt c.kind_lt c'.kind_lt hbytes'
      exact ih hskipped.2 skipped' hskipped'.2 (List.append_inj hrest hlength).2

end Chunks
