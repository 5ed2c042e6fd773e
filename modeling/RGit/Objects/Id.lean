/-
RGit/Objects/Id.lean

Object identifiers: the hash algorithms, the varint codec, the binary form
of an identifier and its computation from an object's canonical bytes.

The two hash functions come from third-party crates and are the class
`Hashes`.  The format version is a private field that every constructor
sets to 0, so an identifier is its algorithm and its digest.
-/
import Std.Data.ExtTreeMap
import RGit.Canonical.Value

namespace RGit

/-! ### Byte arrays of a fixed length -/

/-- `[u8; n]`. -/
abbrev FixedBytes (n : Nat) := {b : Bytes // b.length = n}

/-- Slice to array: `bytes.try_into()`. -/
def FixedBytes.ofSlice (n : Nat) (b : Bytes) : Option (FixedBytes n) :=
  if h : b.length = n then some ⟨b, h⟩ else none

theorem FixedBytes.ofSlice_eq_some {n : Nat} {b : Bytes} {a : FixedBytes n} :
    FixedBytes.ofSlice n b = some a ↔ b = a.1 := by
  unfold FixedBytes.ofSlice
  split
  · next h => rw [Option.some.injEq, Subtype.ext_iff]
  · next h =>
      refine ⟨fun h => (Option.some_ne_none _ h.symm).elim, ?_⟩
      rintro rfl
      exact absurd a.2 h

@[simp] theorem FixedBytes.ofSlice_self {n : Nat} (a : FixedBytes n) :
    FixedBytes.ofSlice n a.1 = some a := FixedBytes.ofSlice_eq_some.mpr rfl

/-! ### Identifiers -/

inductive HashAlgorithm where
  | sha256
  | blake3
  deriving DecidableEq

/-- `algorithm as u64`. -/
def HashAlgorithm.code : HashAlgorithm → UInt64
  | .sha256 => 0x12
  | .blake3 => 0x1e

/-- The `sha2` and `blake3` crates. -/
class Hashes where
  digest : HashAlgorithm → Bytes → FixedBytes 32

structure ObjectId where
  algorithm : HashAlgorithm
  digest : FixedBytes 32
  deriving DecidableEq

/-- The derived order: algorithm first, then digest. -/
instance : Ord ObjectId where
  compare := compareLex (compareOn fun id => id.algorithm.code) (compareOn fun id => id.digest.1)

theorem ObjectId.compare_eq (a b : ObjectId) :
    compare a b = compareLex (compareOn fun id : ObjectId => id.algorithm.code)
      (compareOn fun id => id.digest.1) a b := rfl

instance : Std.TransOrd ObjectId :=
  inferInstanceAs (Std.TransCmp (compareLex (compareOn fun id : ObjectId => id.algorithm.code)
    (compareOn fun id => id.digest.1)))

theorem HashAlgorithm.code_injective {a b : HashAlgorithm} (h : a.code = b.code) : a = b := by
  cases a <;> cases b <;> first | rfl | cases h

instance : Std.LawfulEqOrd ObjectId where
  eq_of_compare {a b} h := by
    rw [ObjectId.compare_eq, compareLex_eq_eq] at h
    obtain ⟨halg, hdigest⟩ := h
    have halg : a.algorithm = b.algorithm :=
      HashAlgorithm.code_injective (Std.LawfulEqOrd.eq_of_compare halg)
    have hdigest : a.digest = b.digest := Subtype.ext (Std.LawfulEqOrd.eq_of_compare hdigest)
    cases a; cases b; simp_all

inductive ObjectIdError where
  | format (n : UInt64)
  | algorithm (n : UInt64)
  | digestLength (n : UInt64)
  | length
  | nonMinimalVarint
  deriving DecidableEq

/-! ### Varints -/

/-- The loop of `push_varint`; a `u64` has at most ten groups of seven bits. -/
def pushVarintLoop : Nat → UInt64 → Bytes
  | 0, _ => []
  | fuel + 1, value =>
      if value >>> 7 = 0 then [(value &&& 0x7f).toUInt8]
      else ((value &&& 0x7f).toUInt8 ||| 0x80) :: pushVarintLoop fuel (value >>> 7)

/-- The bytes `push_varint` appends. -/
def pushVarint (value : UInt64) : Bytes := pushVarintLoop 10 value

/-- The loop of `read_varint`: `index` bytes are already consumed, `groups`
more may follow. -/
def readVarintLoop : Nat → Nat → UInt64 → Bytes → Except ObjectIdError (UInt64 × Bytes)
  | 0, _, _, _ => .error .length
  | _ + 1, _, _, [] => .error .length
  | groups + 1, index, result, byte :: rest =>
      if index = 9 ∧ byte > 1 then .error .length
      else
        let result := result ||| ((byte &&& 0x7f).toUInt64 <<< (7 * index).toUInt64)
        if byte &&& 0x80 = 0 then
          if (pushVarint result).length ≠ index + 1 then .error .nonMinimalVarint
          else .ok (result, rest)
        else readVarintLoop groups (index + 1) result rest

/-- `read_varint`: the value and the unread bytes. -/
def readVarint (bytes : Bytes) : Except ObjectIdError (UInt64 × Bytes) :=
  readVarintLoop 10 0 0 bytes

namespace ObjectId

/-- `ObjectId::to_bytes`. -/
def toBytes (id : ObjectId) : Bytes :=
  pushVarint 0 ++ pushVarint id.algorithm.code ++ pushVarint 32 ++ id.digest.1

/-- The match of `from_bytes` on the algorithm code. -/
def algorithmOfCode (code : UInt64) : Except ObjectIdError HashAlgorithm :=
  if code = 0x12 then .ok .sha256
  else if code = 0x1e then .ok .blake3
  else .error (.algorithm code)

/-- `ObjectId::from_bytes`. -/
def fromBytes (bytes : Bytes) : Except ObjectIdError ObjectId := do
  let (format, bytes) ← readVarint bytes
  if format ≠ 0 then .error (.format format)
  else
    let (code, bytes) ← readVarint bytes
    let algorithm ← algorithmOfCode code
    let (len, bytes) ← readVarint bytes
    if len ≠ 32 then .error (.digestLength len)
    else if h : bytes.length = 32 then .ok ⟨algorithm, ⟨bytes, h⟩⟩
    else .error .length

/-- `b"RGIT-OBJECT\0"`. -/
def domain : Bytes := [0x52, 0x47, 0x49, 0x54, 0x2d, 0x4f, 0x42, 0x4a, 0x45, 0x43, 0x54, 0x00]

/-- `ObjectId::preimage`. -/
def preimage (kind schemaVersion : UInt64) (payload : Bytes) : Bytes :=
  domain ++ pushVarint kind ++ pushVarint schemaVersion ++ payload

/-- `ObjectId::from_payload`. -/
def fromPayload [Hashes] (kind schemaVersion : UInt64) (payload : Bytes)
    (algorithm : HashAlgorithm) : ObjectId :=
  ⟨algorithm, Hashes.digest algorithm (preimage kind schemaVersion payload)⟩

end ObjectId

/-! ### Varints of one byte -/

theorem pushVarintLoop_succ (fuel : Nat) (value : UInt64) :
    pushVarintLoop (fuel + 1) value =
      if value >>> 7 = 0 then [(value &&& 0x7f).toUInt8]
      else ((value &&& 0x7f).toUInt8 ||| 0x80) :: pushVarintLoop fuel (value >>> 7) := rfl

/-- Ten groups are enough: the loop never stops on its fuel. -/
theorem pushVarintLoop_fuel {fuel : Nat} {value : UInt64} (h : value.toNat < 2 ^ (7 * fuel))
    (hpos : 0 < fuel) : pushVarintLoop (fuel + 1) value = pushVarintLoop fuel value := by
  induction fuel generalizing value with
  | zero => omega
  | succ fuel ih =>
      rw [pushVarintLoop_succ (fuel + 1), pushVarintLoop_succ fuel value]
      split
      · rfl
      · next hne =>
          have hshift : (value >>> 7).toNat = value.toNat / 2 ^ 7 := by
            simp [UInt64.toNat_shiftRight, Nat.shiftRight_eq_div_pow]
          have hlt : (value >>> 7).toNat < 2 ^ (7 * fuel) := by
            rw [hshift, Nat.div_lt_iff_lt_mul (by omega), ← Nat.pow_add]
            exact h
          have hfuel : 0 < fuel := by
            rcases Nat.eq_zero_or_pos fuel with rfl | hfuel
            · exact absurd (UInt64.toNat.inj (by simpa using hlt)) hne
            · exact hfuel
          rw [ih hlt hfuel]

/-- A varint read is as long as the one written for its value. -/
theorem lt_length_of_readVarintLoop {groups index : Nat} {result n : UInt64}
    {bytes rest : Bytes} (h : readVarintLoop groups index result bytes = .ok (n, rest)) :
    index < (pushVarint n).length := by
  induction groups generalizing index result bytes with
  | zero => cases h
  | succ groups ih =>
      cases bytes with
      | nil => cases h
      | cons byte bytes =>
          simp only [readVarintLoop, Except.ite_error_eq_ok] at h
          obtain ⟨-, h⟩ := h
          split at h
          · obtain ⟨hlen, heq⟩ := Except.ite_error_eq_ok.mp h
            cases heq
            omega
          · have := ih h
            omega

/-- The seven low bits of a byte without its continuation bit are the byte. -/
theorem low_bits_of_last {byte : UInt8} (h : byte &&& 0x80 = 0) :
    ((0 : UInt64) ||| ((byte &&& 0x7f).toUInt64 <<< (7 * 0).toUInt64)).toUInt8 = byte := by
  have hall : ∀ i : Fin 256, UInt8.ofNat i &&& 0x80 = 0 →
      ((0 : UInt64) ||| ((UInt8.ofNat i &&& 0x7f).toUInt64 <<< (7 * 0).toUInt64)).toUInt8
        = UInt8.ofNat i := by
    decide +kernel
  have hbyte : UInt8.ofNat byte.toNat = byte := UInt8.ofNat_toNat
  have hcase := hall ⟨byte.toNat, byte.toNat_lt⟩
  simp only [hbyte] at hcase
  exact hcase h

/-- A value of one varint byte is read from that byte alone. -/
theorem readVarint_one {n : UInt64} {bytes rest : Bytes} (hn : (pushVarint n).length = 1)
    (h : readVarint bytes = .ok (n, rest)) : bytes = n.toUInt8 :: rest := by
  cases bytes with
  | nil => cases h
  | cons byte bytes =>
      simp only [readVarint, readVarintLoop, Except.ite_error_eq_ok] at h
      obtain ⟨-, h⟩ := h
      split at h
      · next hlast =>
          obtain ⟨-, heq⟩ := Except.ite_error_eq_ok.mp h
          cases heq
          rw [low_bits_of_last hlast]
      · have := lt_length_of_readVarintLoop h
        omega

namespace ObjectId

/-- Three one-byte varints and the digest. -/
theorem toBytes_eq (id : ObjectId) :
    id.toBytes = 0 :: id.algorithm.code.toUInt8 :: 32 :: id.digest.1 := by
  have halg : pushVarint id.algorithm.code = [id.algorithm.code.toUInt8] := by
    cases id.algorithm <;> decide
  rw [toBytes, halg, show pushVarint 0 = [0] by decide, show pushVarint 32 = [32] by decide]
  rfl

/-- **The binary form determines the identifier**, in both directions. -/
theorem fromBytes_eq_ok {b : Bytes} {id : ObjectId} :
    fromBytes b = .ok id ↔ b = id.toBytes := by
  constructor
  · intro h
    simp only [fromBytes, Except.bind_eq_ok, Except.ite_error_eq_ok, ne_eq,
      not_not] at h
    obtain ⟨⟨format, b₁⟩, h₁, rfl, ⟨code, b₂⟩, h₂, alg, halg, ⟨len, b₃⟩, h₃, rfl, h⟩ := h
    split at h
    · next hlen =>
        cases h
        obtain rfl := readVarint_one rfl h₁
        have hcode : code = alg.code ∧ (pushVarint code).length = 1 := by
          simp only [algorithmOfCode] at halg
          split_ifs at halg with hsha hblake
          · subst hsha; cases halg; exact ⟨rfl, rfl⟩
          · subst hblake; cases halg; exact ⟨rfl, rfl⟩
        obtain rfl := readVarint_one hcode.2 h₂
        obtain rfl := readVarint_one rfl h₃
        obtain ⟨rfl, -⟩ := hcode
        rw [toBytes_eq]
        rfl
    · cases h
  · rintro rfl
    obtain ⟨alg, digest, hdigest⟩ := id
    have h₀ : ∀ rest, readVarint (0 :: rest) = .ok (0, rest) := fun _ => rfl
    have h₃₂ : ∀ rest, readVarint (32 :: rest) = .ok (32, rest) := fun _ => rfl
    have halg : ∀ rest, readVarint (alg.code.toUInt8 :: rest) = .ok (alg.code, rest) := by
      cases alg <;> exact fun _ => rfl
    have hcode : algorithmOfCode alg.code = .ok alg := by cases alg <;> rfl
    rw [toBytes_eq]
    simp [fromBytes, h₀, halg, h₃₂, hcode, hdigest]

theorem length_toBytes (id : ObjectId) : id.toBytes.length = 35 := by
  simp [toBytes_eq, id.digest.2]

theorem toBytes_injective {a b : ObjectId} (h : a.toBytes = b.toBytes) : a = b := by
  have ha := fromBytes_eq_ok.mpr (rfl : a.toBytes = a.toBytes)
  rw [h, fromBytes_eq_ok.mpr rfl] at ha
  exact (Except.ok.inj ha).symm

end ObjectId

end RGit
