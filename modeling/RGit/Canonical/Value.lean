/-
RGit/Canonical/Value.lean

The canonical CBOR layer: the restricted value type, its bounded encoder and
its strict decoder.

Two choices differ from the Rust text without changing what it computes.

* The nesting depth is counted down instead of up: `encodeInto` and
  `Decoder.value` recurse on the number of levels that are still allowed, so
  the test `depth > max_depth` is the case `0` and both functions are
  structurally recursive.
* The decoder keeps the unread suffix next to its offset instead of the
  whole input; the offset is only read by the overflow test in `take`.

Unicode normalisation and case folding come from third-party crates and are
the class `Unicode`.
-/
import Mathlib.Algebra.Group.Nat.Defs
import Mathlib.Data.List.Sort
import RGit.Lib.Result
import RGit.Lib.Lists
import RGit.Lib.Words

namespace RGit

/-- A sequence of `u8`. -/
abbrev Bytes := List UInt8

/-! The keys of the maps and sets below have one instance each. -/

instance lawfulBEq_chars : LawfulBEq (List Char) := inferInstance

instance lawfulBEq_bytes : LawfulBEq Bytes := inferInstance

instance transOrd_listBytes : Std.TransOrd (List Bytes) := inferInstance

/-- The functions of the `unicode-normalization` and `unicode-casefold` crates. -/
class Unicode where
  nfc : String → String
  caseFold : String → String

/-- `value.nfc().eq(value.chars())`. -/
def isNfc [Unicode] (s : String) : Bool := Unicode.nfc s == s

/-! ### Values, limits, errors -/

/-- The restricted set of values allowed in canonical CBOR. -/
inductive Value where
  | unsigned (n : UInt64)
  | signed (n : Int64)
  | bytes (b : Bytes)
  | text (s : String)
  | array (vs : List Value)
  | map (es : List (UInt64 × Value))
  | bool (b : Bool)
  | null

mutual

/-- The derived equality of values. -/
def Value.same : Value → Value → Bool
  | .unsigned a, .unsigned b => a == b
  | .signed a, .signed b => a == b
  | .bytes a, .bytes b => a == b
  | .text a, .text b => a == b
  | .array as, .array bs => Value.sameList as bs
  | .map as, .map bs => Value.sameEntries as bs
  | .bool a, .bool b => a == b
  | .null, .null => true
  | _, _ => false

def Value.sameList : List Value → List Value → Bool
  | [], [] => true
  | a :: as, b :: bs => a.same b && Value.sameList as bs
  | _, _ => false

def Value.sameEntries : List (UInt64 × Value) → List (UInt64 × Value) → Bool
  | [], [] => true
  | (k, a) :: as, (l, b) :: bs => k == l && a.same b && Value.sameEntries as bs
  | _, _ => false

end

mutual

theorem Value.same_iff : ∀ a b : Value, a.same b = true ↔ a = b
  | .unsigned _, b => by cases b <;> simp [Value.same]
  | .signed _, b => by cases b <;> simp [Value.same]
  | .bytes _, b => by cases b <;> simp [Value.same]
  | .text _, b => by cases b <;> simp [Value.same]
  | .array as, b => by cases b <;> simp [Value.same, Value.sameList_iff as]
  | .map as, b => by cases b <;> simp [Value.same, Value.sameEntries_iff as]
  | .bool _, b => by cases b <;> simp [Value.same]
  | .null, b => by cases b <;> simp [Value.same]

theorem Value.sameList_iff : ∀ as bs : List Value, Value.sameList as bs = true ↔ as = bs
  | [], bs => by cases bs <;> simp [Value.sameList]
  | a :: as, bs => by
      cases bs <;> simp [Value.sameList, Value.same_iff a, Value.sameList_iff as]

theorem Value.sameEntries_iff :
    ∀ as bs : List (UInt64 × Value), Value.sameEntries as bs = true ↔ as = bs
  | [], bs => by cases bs <;> simp [Value.sameEntries]
  | (k, a) :: as, bs => by
      cases bs <;>
        simp [Value.sameEntries, Value.same_iff a, Value.sameEntries_iff as, Prod.ext_iff]

end

instance : DecidableEq Value := fun a b => decidable_of_iff _ (Value.same_iff a b)

/-- The resource limits of a canonical representation (`usize` fields). -/
structure CanonicalLimits where
  maxBytes : UInt64
  maxByteStringBytes : UInt64
  maxStringBytes : UInt64
  maxDepth : UInt64
  maxCollectionItems : UInt64
  deriving DecidableEq

namespace CanonicalLimits

/-- Limits for graph metadata and small inline blob content. -/
def metadata : CanonicalLimits where
  maxBytes := 1024 * 1024
  maxByteStringBytes := 256 * 1024
  maxStringBytes := 64 * 1024
  maxDepth := 64
  maxCollectionItems := 65536

/-- Limits for chunk payloads and blob descriptors. -/
def bulk : CanonicalLimits where
  maxBytes := 16 * 1024 * 1024
  maxByteStringBytes := 4 * 1024 * 1024
  maxStringBytes := 64 * 1024
  maxDepth := 64
  maxCollectionItems := 1000000

/-- The component-wise stricter combination of two profiles. -/
def restrictedBy (limits ceiling : CanonicalLimits) : CanonicalLimits where
  maxBytes := min limits.maxBytes ceiling.maxBytes
  maxByteStringBytes := min limits.maxByteStringBytes ceiling.maxByteStringBytes
  maxStringBytes := min limits.maxStringBytes ceiling.maxStringBytes
  maxDepth := min limits.maxDepth ceiling.maxDepth
  maxCollectionItems := min limits.maxCollectionItems ceiling.maxCollectionItems

end CanonicalLimits

inductive CanonicalError where
  | sizeLimit
  | depthLimit
  | collectionLimit
  | truncated
  | trailingBytes
  | forbiddenType
  | nonMinimalInteger
  | invalidMapKey
  | mapOrder
  | utf8
  | nonNormalizedText
  | nonCanonical
  | invalidValue
  deriving DecidableEq

/-! ### Big-endian words and UTF-8 -/

/-- `to_be_bytes` of a word of `w` bytes. -/
def toBeBytes : Nat → Nat → Bytes
  | 0, _ => []
  | w + 1, n => UInt8.ofNat (n / 256 ^ w) :: toBeBytes w n

/-- `from_be_bytes`. -/
def fromBeBytes (b : Bytes) : Nat := b.foldl (fun acc byte => acc * 256 + byte.toNat) 0

/-- `str::as_bytes`. -/
def utf8Bytes (s : String) : Bytes := s.toByteArray.data.toList

/-- `std::str::from_utf8`. -/
def fromUtf8 (b : Bytes) : Option String := String.fromUTF8? ⟨b.toArray⟩

/-! ### The encoder -/

def checkCollection (len : Nat) (limits : CanonicalLimits) : Except CanonicalError Unit :=
  if len > limits.maxCollectionItems.toNat then .error .collectionLimit else .ok ()

def extend (out bytes : Bytes) (limits : CanonicalLimits) : Except CanonicalError Bytes :=
  if out.length + bytes.length > limits.maxBytes.toNat then .error .sizeLimit
  else .ok (out ++ bytes)

/-- The head of a CBOR item: major type and shortest argument. -/
def pushHead (out : Bytes) (major value : Nat) (limits : CanonicalLimits) :
    Except CanonicalError Bytes :=
  if value ≤ 23 then
    extend out [UInt8.ofNat (major * 32 + value)] limits
  else if value ≤ 0xff then
    extend out [UInt8.ofNat (major * 32 + 24), UInt8.ofNat value] limits
  else if value ≤ 0xffff then do
    let out ← extend out [UInt8.ofNat (major * 32 + 25)] limits
    extend out (toBeBytes 2 value) limits
  else if value ≤ 0xffffffff then do
    let out ← extend out [UInt8.ofNat (major * 32 + 26)] limits
    extend out (toBeBytes 4 value) limits
  else do
    let out ← extend out [UInt8.ofNat (major * 32 + 27)] limits
    extend out (toBeBytes 8 value) limits

/-- `ordered.sort_by_key(|(key, _)| *key)`. -/
def sortEntries (es : List (UInt64 × Value)) : List (UInt64 × Value) :=
  es.insertionSort (fun a b => a.1 ≤ b.1)

/-- `windows(2).any(|pair| pair[0] == pair[1])` on the keys. -/
def adjacentDuplicate (es : List (UInt64 × Value)) : Bool :=
  anyWindow (fun a b => a.1 == b.1) es

section Encoder

variable [Unicode]

/-- `Value::encode_into`, with `remaining = max_depth + 1 - depth`. -/
def encodeInto (limits : CanonicalLimits) : Nat → Value → Bytes → Except CanonicalError Bytes
  | 0, _, _ => .error .depthLimit
  | _ + 1, .unsigned n, out => pushHead out 0 n.toNat limits
  | _ + 1, .signed n, out =>
      if 0 ≤ n.toInt then pushHead out 0 n.toInt.toNat limits
      else pushHead out 1 (-1 - n.toInt).toNat limits
  | _ + 1, .bytes b, out => do
      if b.length > limits.maxByteStringBytes.toNat then .error .sizeLimit
      else
        let out ← pushHead out 2 b.length limits
        extend out b limits
  | _ + 1, .text s, out => do
      if !isNfc s then .error .invalidValue
      else if (utf8Bytes s).length > limits.maxStringBytes.toNat then .error .sizeLimit
      else
        let out ← pushHead out 3 (utf8Bytes s).length limits
        extend out (utf8Bytes s) limits
  | remaining + 1, .array vs, out => do
      checkCollection vs.length limits
      let out ← pushHead out 4 vs.length limits
      vs.foldlM (fun out v => encodeInto limits remaining v out) out
  | remaining + 1, .map es, out => do
      checkCollection es.length limits
      let out ← pushHead out 5 es.length limits
      let ordered := sortEntries es
      if adjacentDuplicate ordered then .error .invalidValue
      else
        ordered.foldlM (fun out entry => do
          let out ← pushHead out 0 entry.1.toNat limits
          encodeInto limits remaining entry.2 out) out
  | _ + 1, .bool false, out => extend out [0xf4] limits
  | _ + 1, .bool true, out => extend out [0xf5] limits
  | _ + 1, .null, out => extend out [0xf6] limits

/-- `Value::encode_with_limits`. -/
def Value.encodeWithLimits (v : Value) (limits : CanonicalLimits) :
    Except CanonicalError Bytes :=
  encodeInto limits (limits.maxDepth.toNat + 1) v []

/-- `Value::encode`: the bounded metadata profile. -/
def Value.encode (v : Value) : Except CanonicalError Bytes :=
  v.encodeWithLimits .metadata

end Encoder

/-! ### The decoder -/

/-- The decoder's position: bytes consumed so far and bytes still to read. -/
structure Decoder where
  offset : Nat
  rest : Bytes

namespace Decoder

def byte (d : Decoder) : Except CanonicalError (UInt8 × Decoder) :=
  match d.rest with
  | [] => .error .truncated
  | b :: rest => .ok (b, ⟨d.offset + 1, rest⟩)

def take (d : Decoder) (len : Nat) : Except CanonicalError (Bytes × Decoder) :=
  if d.offset + len ≥ 2 ^ 64 then .error .sizeLimit
  else if d.rest.length < len then .error .truncated
  else .ok (d.rest.take len, ⟨d.offset + len, d.rest.drop len⟩)

/-- An argument of `w` bytes that must exceed `bound` to be minimal. -/
def wideArgument (d : Decoder) (w bound : Nat) : Except CanonicalError (Nat × Decoder) := do
  let (b, d) ← d.take w
  if fromBeBytes b ≤ bound then .error .nonMinimalInteger else .ok (fromBeBytes b, d)

def argument (d : Decoder) (additional : Nat) : Except CanonicalError (Nat × Decoder) :=
  if additional ≤ 23 then .ok (additional, d)
  else if additional = 24 then do
    let (b, d) ← d.byte
    if b.toNat < 24 then .error .nonMinimalInteger else .ok (b.toNat, d)
  else if additional = 25 then d.wideArgument 2 0xff
  else if additional = 26 then d.wideArgument 4 0xffff
  else if additional = 27 then d.wideArgument 8 0xffffffff
  else .error .forbiddenType

/-- The three length readers differ in their limit and in its error. -/
def boundedLength (d : Decoder) (additional limit : Nat) (error : CanonicalError) :
    Except CanonicalError (Nat × Decoder) := do
  let (len, d) ← d.argument additional
  if len > limit then .error error else .ok (len, d)

def length (d : Decoder) (additional : Nat) (limits : CanonicalLimits) :=
  d.boundedLength additional limits.maxCollectionItems.toNat .collectionLimit

def stringLength (d : Decoder) (additional : Nat) (limits : CanonicalLimits) :=
  d.boundedLength additional limits.maxStringBytes.toNat .sizeLimit

def byteStringLength (d : Decoder) (additional : Nat) (limits : CanonicalLimits) :=
  d.boundedLength additional limits.maxByteStringBytes.toNat .sizeLimit

/-- `for _ in 0..len { values.push(self.value(depth + 1)?) }`. -/
def repeatValue (read : Decoder → Except CanonicalError (Value × Decoder)) :
    Nat → Decoder → Except CanonicalError (List Value × Decoder)
  | 0, d => .ok ([], d)
  | n + 1, d => do
      let (v, d) ← read d
      let (vs, d) ← repeatValue read n d
      .ok (v :: vs, d)

/-- The entry loop of a map; `previous` is the last key read.  The set of
keys seen is implied by the strict order and adds no further refusal. -/
def repeatEntry (read : Decoder → Except CanonicalError (Value × Decoder)) :
    Nat → Option Nat → Decoder → Except CanonicalError (List (UInt64 × Value) × Decoder)
  | 0, _, d => .ok ([], d)
  | n + 1, previous, d => do
      let (keyInitial, d) ← d.byte
      if keyInitial.toNat / 32 ≠ 0 then .error .invalidMapKey
      else
        let (key, d) ← d.argument (keyInitial.toNat % 32)
        if previous.any (fun old => decide (old ≥ key)) then .error .mapOrder
        else
          let (v, d) ← read d
          let (es, d) ← repeatEntry read n (some key) d
          .ok ((UInt64.ofNat key, v) :: es, d)

variable [Unicode]

/-- The match of `Decoder::value` on the major type; `read` reads a child. -/
def item (limits : CanonicalLimits) (read : Decoder → Except CanonicalError (Value × Decoder))
    (major additional : Nat) (d : Decoder) : Except CanonicalError (Value × Decoder) :=
  match major with
  | 0 => do
      let (n, d) ← d.argument additional
      .ok (.unsigned (UInt64.ofNat n), d)
  | 1 => do
      let (n, d) ← d.argument additional
      if n > 2 ^ 63 - 1 then .error .forbiddenType
      else .ok (.signed (Int64.ofInt (-1 - n)), d)
  | 2 => do
      let (len, d) ← d.byteStringLength additional limits
      let (b, d) ← d.take len
      .ok (.bytes b, d)
  | 3 => do
      let (len, d) ← d.stringLength additional limits
      let (b, d) ← d.take len
      match fromUtf8 b with
      | none => .error .utf8
      | some s => if !isNfc s then .error .nonNormalizedText else .ok (.text s, d)
  | 4 => do
      let (len, d) ← d.length additional limits
      let (vs, d) ← repeatValue read len d
      .ok (.array vs, d)
  | 5 => do
      let (len, d) ← d.length additional limits
      let (es, d) ← repeatEntry read len none d
      .ok (.map es, d)
  | 7 =>
      if additional = 20 then .ok (.bool false, d)
      else if additional = 21 then .ok (.bool true, d)
      else if additional = 22 then .ok (.null, d)
      else .error .forbiddenType
  | _ => .error .forbiddenType

/-- `Decoder::value`, with `remaining = max_depth + 1 - depth`. -/
def value (limits : CanonicalLimits) : Nat → Decoder → Except CanonicalError (Value × Decoder)
  | 0, _ => .error .depthLimit
  | remaining + 1, d => do
      let (initial, d) ← d.byte
      item limits (value limits remaining) (initial.toNat / 32) (initial.toNat % 32) d

end Decoder

/-- `decode_canonical`. -/
def decodeCanonical [Unicode] (input : Bytes) (limits : CanonicalLimits) :
    Except CanonicalError Value := do
  if input.length > limits.maxBytes.toNat then .error .sizeLimit
  else
    let (v, d) ← Decoder.value limits (limits.maxDepth.toNat + 1) ⟨0, input⟩
    if d.rest ≠ [] then .error .trailingBytes
    else
      let encoded ← v.encodeWithLimits limits
      if encoded ≠ input then .error .nonCanonical else .ok v

end RGit
