/-
RGit/Canonical/RoundTrip.lean

Encoder and decoder of the canonical layer against each other.

`Value.norm` is the value a reader gets back: map entries sorted by key,
non-negative `signed` numbers turned into `unsigned` ones, recursively.
Main results, for every profile of limits:

* `decodeCanonical_encode` — what encodes under `L` decodes under `L` to its
  normal form;
* `encodeWithLimits_norm` — a value and its normal form have one encoding;
* `decodeCanonical_ok` — what decodes is in normal form and encodes to the
  bytes it was read from;
* `encodeWithLimits_mono` — looser limits keep an encoding.

The induction is on the remaining depth, so every case about arrays and maps
is a statement about a list of children that are already understood.
-/
import Mathlib.Tactic.Ring
import RGit.Canonical.Value

namespace RGit

/-! ### Normal forms -/

mutual

/-- The value a reader gets back. -/
def Value.norm : Value → Value
  | .signed n =>
      if 0 ≤ n.toInt then .unsigned (UInt64.ofNat n.toInt.toNat) else .signed n
  | .array vs => .array (normList vs)
  | .map es => .map (sortEntries (normEntries es))
  | .unsigned n => .unsigned n
  | .bytes b => .bytes b
  | .text s => .text s
  | .bool b => .bool b
  | .null => .null

def normList : List Value → List Value
  | [] => []
  | v :: vs => v.norm :: normList vs

def normEntries : List (UInt64 × Value) → List (UInt64 × Value)
  | [] => []
  | (k, v) :: es => (k, v.norm) :: normEntries es

end

@[simp] theorem normList_eq (vs : List Value) : normList vs = vs.map Value.norm := by
  induction vs with
  | nil => rfl
  | cons v vs ih => simp [normList, ih]

@[simp] theorem normEntries_eq (es : List (UInt64 × Value)) :
    normEntries es = es.map fun e => (e.1, e.2.norm) := by
  induction es with
  | nil => rfl
  | cons e es ih => obtain ⟨k, v⟩ := e; simp [normEntries, ih]

theorem Value.norm_array (vs : List Value) :
    (Value.array vs).norm = .array (vs.map Value.norm) := by
  rw [Value.norm, normList_eq]

theorem Value.norm_map (es : List (UInt64 × Value)) :
    (Value.map es).norm = .map (sortEntries (es.map fun e => (e.1, e.2.norm))) := by
  rw [Value.norm, normEntries_eq]

/-! ### Sorting entries -/

theorem sortEntries_perm (es : List (UInt64 × Value)) : (sortEntries es).Perm es :=
  List.perm_insertionSort _ es

@[simp] theorem length_sortEntries (es : List (UInt64 × Value)) :
    (sortEntries es).length = es.length := (sortEntries_perm es).length_eq

theorem sortEntries_of_sortedKeys {es : List (UInt64 × Value)} (h : SortedKeys es) :
    sortEntries es = es := by
  refine List.Pairwise.insertionSort_eq ?_
  exact (List.pairwise_map.mp h).imp (fun hlt => le_of_lt hlt)

/-- Sorted entries without equal neighbours have strictly increasing keys. -/
theorem sortedKeys_sortEntries {es : List (UInt64 × Value)}
    (h : adjacentDuplicate (sortEntries es) = false) : SortedKeys (sortEntries es) := by
  have hle : (sortEntries es).Pairwise (fun a b => a.1 ≤ b.1) :=
    List.pairwise_insertionSort _ es
  rw [adjacentDuplicate, anyWindow_eq_false_iff] at h
  have hlt : (sortEntries es).IsChain (fun a b => a.1 < b.1) := by
    refine (isChain_and hle.isChain h).imp ?_
    rintro a b ⟨hab, hne⟩
    exact lt_of_le_of_ne hab (by simpa using hne)
  have : (sortEntries es).Pairwise (fun a b => a.1 < b.1) := by
    have : IsTrans (UInt64 × Value) (fun a b => a.1 < b.1) := ⟨fun _ _ _ => lt_trans⟩
    exact List.isChain_iff_pairwise.mp hlt
  exact List.pairwise_map.mpr this

/-! ### Heads -/

/-- The additional information of the shortest head with argument `n`. -/
def headInfo (n : Nat) : Nat :=
  if n ≤ 23 then n else if n ≤ 0xff then 24 else if n ≤ 0xffff then 25
  else if n ≤ 0xffffffff then 26 else 27

/-- The argument bytes that follow the initial byte. -/
def headArgument (n : Nat) : Bytes :=
  if n ≤ 23 then [] else if n ≤ 0xff then [UInt8.ofNat n]
  else if n ≤ 0xffff then toBeBytes 2 n
  else if n ≤ 0xffffffff then toBeBytes 4 n else toBeBytes 8 n

/-- The head `pushHead` appends. -/
def headBytes (major n : Nat) : Bytes :=
  UInt8.ofNat (major * 32 + headInfo n) :: headArgument n

@[simp] theorem length_toBeBytes (w n : Nat) : (toBeBytes w n).length = w := by
  induction w with
  | zero => rfl
  | succ w ih => simp [toBeBytes, ih]

theorem foldl_toBeBytes (w n acc : Nat) :
    (toBeBytes w n).foldl (fun acc byte => acc * 256 + byte.toNat) acc
      = acc * 256 ^ w + n % 256 ^ w := by
  induction w generalizing acc with
  | zero => simp [toBeBytes, Nat.mod_one]
  | succ w ih =>
      have hb : (UInt8.ofNat (n / 256 ^ w)).toNat = n / 256 ^ w % 256 := by simp
      rw [toBeBytes, List.foldl_cons, ih, hb, Nat.pow_succ, Nat.mod_mul]
      ring

theorem fromBeBytes_toBeBytes {w n : Nat} (h : n < 256 ^ w) :
    fromBeBytes (toBeBytes w n) = n := by
  rw [fromBeBytes, foldl_toBeBytes, Nat.mod_eq_of_lt h]
  omega

theorem foldl_bytes (b : Bytes) (acc : Nat) :
    b.foldl (fun acc byte => acc * 256 + byte.toNat) acc = acc * 256 ^ b.length + fromBeBytes b := by
  induction b generalizing acc with
  | nil => simp [fromBeBytes]
  | cons x b ih =>
      rw [fromBeBytes, List.foldl_cons, List.foldl_cons, ih, ih (0 * 256 + x.toNat),
        List.length_cons, Nat.pow_succ]
      ring

theorem fromBeBytes_cons (x : UInt8) (b : Bytes) :
    fromBeBytes (x :: b) = x.toNat * 256 ^ b.length + fromBeBytes b := by
  rw [fromBeBytes, List.foldl_cons, foldl_bytes, Nat.zero_mul, Nat.zero_add]

theorem fromBeBytes_lt (b : Bytes) : fromBeBytes b < 256 ^ b.length := by
  induction b with
  | nil => simp [fromBeBytes]
  | cons x b ih =>
      have hx := x.toNat_lt
      rw [fromBeBytes_cons, List.length_cons, Nat.pow_succ]
      calc x.toNat * 256 ^ b.length + fromBeBytes b
          < x.toNat * 256 ^ b.length + 256 ^ b.length := by omega
        _ = (x.toNat + 1) * 256 ^ b.length := by ring
        _ ≤ 256 * 256 ^ b.length := Nat.mul_le_mul_right _ (by omega)
        _ = 256 ^ b.length * 256 := Nat.mul_comm _ _

/-- A word does not see what stands above it. -/
theorem toBeBytes_add (w k n : Nat) : toBeBytes w (k * 256 ^ w + n) = toBeBytes w n := by
  induction w generalizing k with
  | zero => rfl
  | succ w ih =>
      have hsplit : k * 256 ^ (w + 1) = k * 256 * 256 ^ w := by ring
      have hbyte : (k * 256 * 256 ^ w + n) / 256 ^ w = k * 256 + n / 256 ^ w := by
        rw [Nat.add_comm, Nat.add_mul_div_right _ _ (Nat.pow_pos (by omega)), Nat.add_comm]
      rw [toBeBytes, toBeBytes, hsplit, ih, hbyte]
      congr 1
      rw [← UInt8.toNat_inj]
      simp

theorem toBeBytes_fromBeBytes (b : Bytes) : toBeBytes b.length (fromBeBytes b) = b := by
  induction b with
  | nil => rfl
  | cons x b ih =>
      have hlt := fromBeBytes_lt b
      have hbyte : (x.toNat * 256 ^ b.length + fromBeBytes b) / 256 ^ b.length = x.toNat := by
        rw [Nat.add_comm, Nat.add_mul_div_right _ _ (Nat.pow_pos (by omega)), Nat.div_eq_of_lt hlt,
          Nat.zero_add]
      rw [List.length_cons, toBeBytes, fromBeBytes_cons, toBeBytes_add, ih, hbyte,
        UInt8.ofNat_toNat]

theorem extend_eq_ok {out b out' : Bytes} {limits : CanonicalLimits} :
    extend out b limits = .ok out' ↔
      out' = out ++ b ∧ (out ++ b).length ≤ limits.maxBytes.toNat := by
  simp only [extend, gt_iff_lt, Except.ite_error_eq_ok, not_lt, Except.ok.injEq,
    List.length_append]
  rw [and_comm, eq_comm]

theorem pushHead_eq_ok {out out' : Bytes} {major n : Nat} {limits : CanonicalLimits} :
    pushHead out major n limits = .ok out' ↔
      out' = out ++ headBytes major n ∧
        (out ++ headBytes major n).length ≤ limits.maxBytes.toNat := by
  unfold pushHead headBytes headInfo headArgument
  split_ifs
  · exact extend_eq_ok
  · exact extend_eq_ok
  all_goals
    simp only [Except.bind_eq_ok, extend_eq_ok]
    constructor
    · rintro ⟨mid, ⟨rfl, -⟩, rfl, h⟩
      simp_all
    · rintro ⟨rfl, h⟩
      simp only [List.length_append, List.length_cons] at h
      refine ⟨_, ⟨rfl, ?_⟩, ?_, ?_⟩
      · simp only [List.length_append, List.length_cons, List.length_nil]; omega
      · simp
      · simp only [List.length_append, List.length_cons, List.length_nil]; omega

/-! ### Reading a head back -/

theorem headInfo_lt (n : Nat) : headInfo n < 32 := by
  unfold headInfo; split_ifs <;> omega

theorem headInitial_toNat {major : Nat} (hm : major < 8) (n : Nat) :
    (UInt8.ofNat (major * 32 + headInfo n)).toNat = major * 32 + headInfo n := by
  have := headInfo_lt n
  rw [UInt8.toNat_ofNat']
  omega

theorem Decoder.take_append (off : Nat) (b rest : Bytes) (h : off + b.length < 2 ^ 64) :
    Decoder.take ⟨off, b ++ rest⟩ b.length = .ok (b, ⟨off + b.length, rest⟩) := by
  simp only [Decoder.take, List.length_append]
  rw [if_neg (by omega), if_neg (by omega)]
  simp

theorem Decoder.wideArgument_toBeBytes {off w n bound : Nat} {rest : Bytes}
    (hn : n < 256 ^ w) (hbound : bound < n) (hoff : off + w < 2 ^ 64) :
    Decoder.wideArgument ⟨off, toBeBytes w n ++ rest⟩ w bound
      = .ok (n, ⟨off + w, rest⟩) := by
  have htake := Decoder.take_append off (toBeBytes w n) rest (by simpa using hoff)
  rw [length_toBeBytes] at htake
  unfold Decoder.wideArgument
  rw [htake, Except.ok_bind]
  simp only [fromBeBytes_toBeBytes hn]
  rw [if_neg (by omega)]

/-- The argument of a shortest head is read back, and nothing after it is touched. -/
theorem Decoder.argument_headArgument {off n : Nat} (rest : Bytes) (hn : n < 2 ^ 64)
    (hoff : off + (headArgument n).length < 2 ^ 64) :
    Decoder.argument ⟨off, headArgument n ++ rest⟩ (headInfo n)
      = .ok (n, ⟨off + (headArgument n).length, rest⟩) := by
  unfold headArgument headInfo at *
  split_ifs at hoff ⊢ with h₁ h₂ h₃ h₄
  · simp [Decoder.argument, h₁]
  · have hb : (UInt8.ofNat n).toNat = n := by rw [UInt8.toNat_ofNat']; omega
    simp only [Decoder.argument, Decoder.byte, List.cons_append, List.nil_append,
      Except.ok_bind, hb]
    rw [if_neg (by omega), if_pos trivial, if_neg (by omega)]
    simp
  all_goals
    simp only [length_toBeBytes] at hoff ⊢
    unfold Decoder.argument
    simp only [show ¬ (25 ≤ 23) by omega, show ¬ (26 ≤ 23) by omega,
      show ¬ (27 ≤ 23) by omega, if_false]
    exact Decoder.wideArgument_toBeBytes (by omega) (by omega) hoff

/-- A shortest head is read back as its initial byte and its argument. -/
theorem Decoder.byte_headBytes {off major n : Nat} {rest : Bytes} :
    Decoder.byte ⟨off, headBytes major n ++ rest⟩
      = .ok (UInt8.ofNat (major * 32 + headInfo n), ⟨off + 1, headArgument n ++ rest⟩) := rfl

theorem Decoder.boundedLength_headArgument {off n limit : Nat} (rest : Bytes)
    (error : CanonicalError) (hn : n ≤ limit) (hlimit : limit < 2 ^ 64)
    (hoff : off + (headArgument n).length < 2 ^ 64) :
    Decoder.boundedLength ⟨off, headArgument n ++ rest⟩ (headInfo n) limit error
      = .ok (n, ⟨off + (headArgument n).length, rest⟩) := by
  unfold Decoder.boundedLength
  rw [Decoder.argument_headArgument rest (by omega) hoff, Except.ok_bind]
  exact if_neg (by omega)

theorem length_headBytes (major n : Nat) :
    (headBytes major n).length = (headArgument n).length + 1 := rfl

theorem utf8Bytes_append (s t : String) : utf8Bytes (s ++ t) = utf8Bytes s ++ utf8Bytes t := by
  simp [utf8Bytes, String.toByteArray_append]

theorem utf8Bytes_injective : Function.Injective utf8Bytes := by
  intro a b h
  exact String.toByteArray_inj.mp (ByteArray.ext (Array.toList_inj.mp h))

theorem fromUtf8_utf8Bytes (s : String) : fromUtf8 (utf8Bytes s) = some s := by
  have hb : (⟨(utf8Bytes s).toArray⟩ : ByteArray) = s.toByteArray := by
    simp [utf8Bytes]
  rw [fromUtf8, hb, String.fromUTF8?, dif_pos s.isValidUTF8]
  rfl

theorem utf8Bytes_of_fromUtf8 {b : Bytes} {s : String} (h : fromUtf8 b = some s) :
    utf8Bytes s = b := by
  unfold fromUtf8 String.fromUTF8? at h
  split at h
  · obtain rfl := Option.some.inj h
    simp [utf8Bytes, String.fromUTF8]
  · cases h

/-! ### What the encoder writes, the decoder reads -/

section RoundTrip

variable [Unicode] {limits : CanonicalLimits}

/-- `e` is one item that reads back as the normal form of `v`. -/
def Reads (limits : CanonicalLimits) (remaining : Nat) (v : Value) (e : Bytes) : Prop :=
  ∀ off rest, off + e.length < 2 ^ 64 →
    Decoder.value limits remaining ⟨off, e ++ rest⟩ = .ok (v.norm, ⟨off + e.length, rest⟩)

/-- The encoder appends one item that reads back. -/
def Writes (limits : CanonicalLimits) (remaining : Nat) (v : Value) (out out' : Bytes) : Prop :=
  ∃ e, out' = out ++ e ∧ out'.length ≤ limits.maxBytes.toNat ∧ Reads limits remaining v e

/-- Reading one item: the initial byte is split, the rest is left to `item`. -/
theorem Decoder.value_headBytes {remaining off major n : Nat} (hm : major < 8)
    {rest : Bytes} :
    Decoder.value limits (remaining + 1) ⟨off, headBytes major n ++ rest⟩ =
      Decoder.item limits (Decoder.value limits remaining) major (headInfo n)
        ⟨off + 1, headArgument n ++ rest⟩ := by
  have hlt := headInfo_lt n
  have hdiv : (major * 32 + headInfo n) / 32 = major := by omega
  have hmod : (major * 32 + headInfo n) % 32 = headInfo n := by omega
  rw [Decoder.value, Decoder.byte_headBytes, Except.ok_bind]
  simp only [headInitial_toNat hm, hdiv, hmod]

/-- An item without children: its head and a payload of the announced length. -/
theorem reads_payload {remaining major n : Nat} {v : Value} {b : Bytes} (hm : major < 8)
    (h : ∀ off rest, off + (headArgument n).length + b.length < 2 ^ 64 →
      Decoder.item limits (Decoder.value limits remaining) major (headInfo n)
          ⟨off, headArgument n ++ (b ++ rest)⟩
        = .ok (v.norm, ⟨off + (headArgument n).length + b.length, rest⟩)) :
    Reads limits (remaining + 1) v (headBytes major n ++ b) := by
  intro off rest hoff
  rw [List.length_append, length_headBytes] at hoff
  rw [List.append_assoc, Decoder.value_headBytes hm, h (off + 1) rest (by omega)]
  simp only [List.length_append, length_headBytes, Except.ok.injEq, Prod.mk.injEq,
    Decoder.mk.injEq, and_true, true_and]
  omega

theorem reads_unsigned {remaining n : Nat} {v : Value} (hn : n < 2 ^ 64)
    (hv : v.norm = .unsigned (UInt64.ofNat n)) :
    Reads limits (remaining + 1) v (headBytes 0 n) := by
  rw [← List.append_nil (headBytes 0 n)]
  refine reads_payload (by omega) fun off rest hoff => ?_
  simp only [Decoder.item, List.nil_append, List.length_nil, Nat.add_zero] at hoff ⊢
  rw [Decoder.argument_headArgument rest hn hoff, Except.ok_bind, hv]

theorem reads_negative {remaining n : Nat} {v : Value} (hn : n < 2 ^ 63)
    (hv : v.norm = .signed (Int64.ofInt (-1 - n))) :
    Reads limits (remaining + 1) v (headBytes 1 n) := by
  rw [← List.append_nil (headBytes 1 n)]
  refine reads_payload (by omega) fun off rest hoff => ?_
  simp only [Decoder.item, List.nil_append, List.length_nil, Nat.add_zero] at hoff ⊢
  rw [Decoder.argument_headArgument rest (by omega) hoff, Except.ok_bind, hv]
  exact if_neg (by omega)

theorem reads_bytes {remaining : Nat} {b : Bytes}
    (hb : b.length ≤ limits.maxByteStringBytes.toNat) :
    Reads limits (remaining + 1) (.bytes b) (headBytes 2 b.length ++ b) := by
  refine reads_payload (by omega) fun off rest hoff => ?_
  have hlen := Decoder.boundedLength_headArgument (b ++ rest) .sizeLimit hb
    limits.maxByteStringBytes.toNat_lt (by omega : off + _ < 2 ^ 64)
  simp only [Decoder.item, Decoder.byteStringLength, hlen, Except.ok_bind]
  rw [Decoder.take_append _ _ _ hoff]
  rfl

theorem reads_text {remaining : Nat} {s : String} (hnfc : isNfc s = true)
    (hs : (utf8Bytes s).length ≤ limits.maxStringBytes.toNat) :
    Reads limits (remaining + 1) (.text s)
      (headBytes 3 (utf8Bytes s).length ++ utf8Bytes s) := by
  refine reads_payload (by omega) fun off rest hoff => ?_
  have hlen := Decoder.boundedLength_headArgument (utf8Bytes s ++ rest) .sizeLimit hs
    limits.maxStringBytes.toNat_lt (by omega : off + _ < 2 ^ 64)
  simp only [Decoder.item, Decoder.stringLength, hlen, Except.ok_bind]
  rw [Decoder.take_append _ _ _ hoff, Except.ok_bind]
  simp [fromUtf8_utf8Bytes, hnfc, Value.norm]

/-- The element loop of an array, given that every element is written and read. -/
theorem foldlM_writes {remaining : Nat}
    (ih : ∀ v out out', encodeInto limits remaining v out = .ok out' →
      Writes limits remaining v out out') :
    ∀ {vs : List Value} {out out' : Bytes}, out.length ≤ limits.maxBytes.toNat →
      vs.foldlM (fun out v => encodeInto limits remaining v out) out = .ok out' →
      ∃ e, out' = out ++ e ∧ out'.length ≤ limits.maxBytes.toNat ∧
        ∀ off rest, off + e.length < 2 ^ 64 →
          Decoder.repeatValue (Decoder.value limits remaining) vs.length ⟨off, e ++ rest⟩
            = .ok (vs.map Value.norm, ⟨off + e.length, rest⟩) := by
  intro vs
  induction vs with
  | nil =>
      intro out out' hout h
      obtain rfl : out = out' := by simpa using h
      exact ⟨[], by simp, hout, fun off rest _ => by simp [Decoder.repeatValue]⟩
  | cons v vs ihvs =>
      intro out out' hout h
      rw [List.foldlM_cons, Except.bind_eq_ok] at h
      obtain ⟨mid, hv, hvs⟩ := h
      obtain ⟨e₁, rfl, hmid, hread⟩ := ih v out mid hv
      obtain ⟨e₂, rfl, hbound, hreads⟩ := ihvs hmid hvs
      refine ⟨e₁ ++ e₂, by simp, hbound, fun off rest hoff => ?_⟩
      rw [List.length_append] at hoff
      have h₁ := hread off (e₂ ++ rest) (by omega)
      have h₂ := hreads (off + e₁.length) rest (by omega)
      simp only [List.length_cons, Decoder.repeatValue, List.append_assoc, h₁, h₂,
        Except.ok_bind]
      simp [Nat.add_assoc]

/-- The entry loop of a map whose keys are sorted and above the previous key. -/
theorem foldlM_writes_entries {remaining : Nat}
    (ih : ∀ v out out', encodeInto limits remaining v out = .ok out' →
      Writes limits remaining v out out') :
    ∀ {es : List (UInt64 × Value)} {out out' : Bytes} {previous : Option Nat},
      SortedKeys es → (∀ old ∈ previous, ∀ e ∈ es, old < e.1.toNat) →
      out.length ≤ limits.maxBytes.toNat →
      es.foldlM (fun out entry => do
        let out ← pushHead out 0 entry.1.toNat limits
        encodeInto limits remaining entry.2 out) out = .ok out' →
      ∃ e, out' = out ++ e ∧ out'.length ≤ limits.maxBytes.toNat ∧
        ∀ off rest, off + e.length < 2 ^ 64 →
          Decoder.repeatEntry (Decoder.value limits remaining) es.length previous
              ⟨off, e ++ rest⟩
            = .ok (es.map fun e => (e.1, e.2.norm), ⟨off + e.length, rest⟩) := by
  intro es
  induction es with
  | nil =>
      intro out out' previous _ _ hout h
      obtain rfl : out = out' := by simpa using h
      exact ⟨[], by simp, hout, fun off rest _ => by simp [Decoder.repeatEntry]⟩
  | cons entry es ihes =>
      intro out out' previous hsorted hprev hout h
      obtain ⟨k, v⟩ := entry
      rw [List.foldlM_cons, Except.bind_eq_ok] at h
      obtain ⟨mid, hmid, hes⟩ := h
      obtain ⟨head, hhead, hv⟩ := Except.bind_eq_ok.mp hmid
      obtain ⟨rfl, -⟩ := pushHead_eq_ok.mp hhead
      obtain ⟨e₁, rfl, hmid, hread⟩ := ih v _ mid hv
      have hnext : ∀ old ∈ some k.toNat, ∀ e ∈ es, old < e.1.toNat := by
        rintro old hold e he
        obtain rfl := Option.mem_some.mp hold
        exact UInt64.lt_iff_toNat_lt.mp (hsorted.head_lt he)
      obtain ⟨e₂, rfl, hbound, hreads⟩ := ihes hsorted.tail hnext hmid hes
      refine ⟨headBytes 0 k.toNat ++ e₁ ++ e₂, by simp, hbound, fun off rest hoff => ?_⟩
      simp only [List.length_append, length_headBytes] at hoff
      have hk := k.toNat_lt
      have hinfo := headInfo_lt k.toNat
      have hkey : previous.any (fun old => decide (old ≥ k.toNat)) = false := by
        cases previous with
        | none => rfl
        | some old =>
            have := hprev old rfl (k, v) (by simp)
            simpa using this
      -- the key's initial byte has major type 0, so it is its own additional information
      have hinit : (UInt8.ofNat (0 * 32 + headInfo k.toNat)).toNat = headInfo k.toNat := by
        rw [headInitial_toNat (by omega)]; omega
      have harg := Decoder.argument_headArgument (e₁ ++ (e₂ ++ rest)) hk
        (by omega : off + 1 + (headArgument k.toNat).length < 2 ^ 64)
      have h₁ := hread (off + 1 + (headArgument k.toNat).length) (e₂ ++ rest) (by omega)
      have h₂ := hreads (off + 1 + (headArgument k.toNat).length + e₁.length) rest (by omega)
      simp only [List.length_cons, Decoder.repeatEntry, List.append_assoc,
        Decoder.byte_headBytes, Except.ok_bind, hinit, Nat.div_eq_of_lt hinfo,
        Nat.mod_eq_of_lt hinfo, ne_eq, not_true_eq_false, if_false, harg, hkey,
        Bool.false_eq_true, h₁, h₂]
      simp only [List.map_cons, List.length_append, length_headBytes, UInt64.ofNat_toNat,
        Except.ok.injEq, Prod.mk.injEq, Decoder.mk.injEq, and_true, true_and]
      omega

theorem reads_array {remaining : Nat} {vs : List Value} {e : Bytes}
    (hlen : vs.length ≤ limits.maxCollectionItems.toNat)
    (h : ∀ off rest, off + e.length < 2 ^ 64 →
      Decoder.repeatValue (Decoder.value limits remaining) vs.length ⟨off, e ++ rest⟩
        = .ok (vs.map Value.norm, ⟨off + e.length, rest⟩)) :
    Reads limits (remaining + 1) (.array vs) (headBytes 4 vs.length ++ e) := by
  refine reads_payload (by omega) fun off rest hoff => ?_
  have hhead := Decoder.boundedLength_headArgument (e ++ rest) .collectionLimit hlen
    limits.maxCollectionItems.toNat_lt (by omega : off + _ < 2 ^ 64)
  simp only [Decoder.item, Decoder.length, hhead, Except.ok_bind, h _ rest hoff,
    Value.norm_array]

theorem reads_map {remaining : Nat} {es : List (UInt64 × Value)} {e : Bytes}
    (hlen : es.length ≤ limits.maxCollectionItems.toNat)
    (h : ∀ off rest, off + e.length < 2 ^ 64 →
      Decoder.repeatEntry (Decoder.value limits remaining) es.length none ⟨off, e ++ rest⟩
        = .ok (sortEntries (es.map fun e => (e.1, e.2.norm)), ⟨off + e.length, rest⟩)) :
    Reads limits (remaining + 1) (.map es) (headBytes 5 es.length ++ e) := by
  refine reads_payload (by omega) fun off rest hoff => ?_
  have hhead := Decoder.boundedLength_headArgument (e ++ rest) .collectionLimit hlen
    limits.maxCollectionItems.toNat_lt (by omega : off + _ < 2 ^ 64)
  simp only [Decoder.item, Decoder.length, hhead, Except.ok_bind, h _ rest hoff,
    Value.norm_map]

omit [Unicode] in
/-- Sorting and normalising the children commute. -/
theorem sortEntries_norm (es : List (UInt64 × Value)) :
    sortEntries (es.map fun e => (e.1, e.2.norm))
      = (sortEntries es).map fun e => (e.1, e.2.norm) := by
  unfold sortEntries
  rw [List.map_insertionSort _ (fun a b : UInt64 × Value => a.1 ≤ b.1)]
  exact fun _ _ _ _ => Iff.rfl

/-- **Everything the encoder writes reads back as its normal form.** -/
theorem encodeInto_writes : ∀ {remaining : Nat} {v : Value} {out out' : Bytes},
    encodeInto limits remaining v out = .ok out' → Writes limits remaining v out out' := by
  intro remaining
  induction remaining with
  | zero => intro v out out' h; cases v <;> cases h
  | succ remaining ih =>
      intro v out out' h
      cases v with
      | unsigned n =>
          obtain ⟨rfl, hlen⟩ := pushHead_eq_ok.mp h
          refine ⟨_, rfl, hlen, reads_unsigned n.toNat_lt ?_⟩
          rw [UInt64.ofNat_toNat, Value.norm]
      | signed n =>
          rw [encodeInto] at h
          have hlo := n.le_toInt
          have hhi := n.toInt_lt
          split at h
          · next hn =>
              obtain ⟨rfl, hlen⟩ := pushHead_eq_ok.mp h
              refine ⟨_, rfl, hlen, reads_unsigned (by omega) ?_⟩
              rw [Value.norm, if_pos hn]
          · next hn =>
              obtain ⟨rfl, hlen⟩ := pushHead_eq_ok.mp h
              refine ⟨_, rfl, hlen, reads_negative (by omega) ?_⟩
              have : (-1 - (((-1 - n.toInt).toNat : Nat) : Int)) = n.toInt := by omega
              rw [Value.norm, if_neg hn, this, Int64.ofInt_toInt]
      | bytes b =>
          simp only [encodeInto, gt_iff_lt, Except.ite_error_eq_ok, not_lt,
            Except.bind_eq_ok, pushHead_eq_ok, extend_eq_ok] at h
          obtain ⟨hb, mid, ⟨rfl, -⟩, rfl, hlen⟩ := h
          exact ⟨_, List.append_assoc .., hlen, reads_bytes hb⟩
      | text s =>
          simp only [encodeInto, gt_iff_lt, Except.ite_error_eq_ok, not_lt,
            Except.bind_eq_ok, pushHead_eq_ok, extend_eq_ok] at h
          obtain ⟨hnfc, hs, mid, ⟨rfl, -⟩, rfl, hlen⟩ := h
          exact ⟨_, List.append_assoc .., hlen, reads_text (by simpa using hnfc) hs⟩
      | array vs =>
          simp only [encodeInto, checkCollection, Except.bind_eq_ok, gt_iff_lt,
            Except.ite_error_eq_ok, not_lt, pushHead_eq_ok] at h
          obtain ⟨-, ⟨hvs, -⟩, mid, ⟨rfl, hhead⟩, hloop⟩ := h
          obtain ⟨e, rfl, hlen, hread⟩ := foldlM_writes (fun _ _ _ => ih) hhead hloop
          exact ⟨_, List.append_assoc .., hlen, reads_array hvs hread⟩
      | map es =>
          simp only [encodeInto, checkCollection, Except.bind_eq_ok, gt_iff_lt,
            Except.ite_error_eq_ok, not_lt, pushHead_eq_ok] at h
          obtain ⟨-, ⟨hes, -⟩, mid, ⟨rfl, hhead⟩, hdup, hloop⟩ := h
          have hsorted := sortedKeys_sortEntries (by simpa using hdup)
          have hfirst : ∀ old ∈ (none : Option Nat), ∀ e ∈ sortEntries es, old < e.1.toNat := by
            simp
          obtain ⟨e, rfl, hlen, hread⟩ := foldlM_writes_entries (fun _ _ _ => ih) hsorted
            hfirst hhead (by simpa [Except.bind_eq_ok] using hloop)
          refine ⟨_, List.append_assoc .., hlen, reads_map hes ?_⟩
          rw [sortEntries_norm]
          simpa using hread
      | bool b =>
          cases b <;>
          · obtain ⟨rfl, hlen⟩ := extend_eq_ok.mp h
            exact ⟨_, rfl, hlen, fun off rest _ => rfl⟩
      | null =>
          obtain ⟨rfl, hlen⟩ := extend_eq_ok.mp h
          exact ⟨_, rfl, hlen, fun off rest _ => rfl⟩

/-! ### One encoding for a value and its normal form -/

omit [Unicode] in
theorem adjacentDuplicate_map_norm (es : List (UInt64 × Value)) :
    adjacentDuplicate (es.map fun e => (e.1, e.2.norm)) = adjacentDuplicate es := by
  unfold adjacentDuplicate
  induction es with
  | nil => rfl
  | cons a es ih =>
      cases es with
      | nil => rfl
      | cons b es => simp only [List.map_cons, anyWindow] at ih ⊢; rw [ih]

theorem encodeInto_norm : ∀ {remaining : Nat} {v : Value} {out : Bytes},
    encodeInto limits remaining v.norm out = encodeInto limits remaining v out := by
  intro remaining
  induction remaining with
  | zero => intro v out; cases v <;> rfl
  | succ remaining ih =>
      intro v out
      cases v with
      | signed n =>
          rw [Value.norm]
          split
          · next hn =>
              have hk : (UInt64.ofNat n.toInt.toNat).toNat = n.toInt.toNat := by
                have := n.toInt_lt
                rw [UInt64.toNat_ofNat']
                omega
              rw [encodeInto, encodeInto, if_pos hn, hk]
          · rfl
      | array vs =>
          rw [Value.norm_array]
          simp only [encodeInto, List.length_map, List.foldlM_map, ih]
      | map es =>
          rw [Value.norm_map, sortEntries_norm]
          have hidem : sortEntries ((sortEntries es).map fun e => (e.1, e.2.norm))
              = (sortEntries es).map fun e => (e.1, e.2.norm) := by
            rw [sortEntries_norm]
            congr 1
            exact List.Pairwise.insertionSort_eq (List.pairwise_insertionSort _ es)
          simp only [encodeInto, List.length_map, length_sortEntries, hidem,
            adjacentDuplicate_map_norm, List.foldlM_map, ih]
      | unsigned n => rw [Value.norm]
      | bytes b => rw [Value.norm]
      | text s => rw [Value.norm]
      | bool b => rw [Value.norm]
      | null => rw [Value.norm]

theorem encodeWithLimits_norm (v : Value) (limits : CanonicalLimits) :
    v.norm.encodeWithLimits limits = v.encodeWithLimits limits := encodeInto_norm

/-- An encoding respects its byte limit. -/
theorem encodeWithLimits_length {v : Value} {b : Bytes}
    (h : v.encodeWithLimits limits = .ok b) : b.length ≤ limits.maxBytes.toNat := by
  obtain ⟨e, -, hlen, -⟩ := encodeInto_writes h
  exact hlen

/-- **Encode, then decode**: what encodes under `limits` decodes under
`limits` to its normal form. -/
theorem decodeCanonical_encode {v : Value} {b : Bytes}
    (h : v.encodeWithLimits limits = .ok b) : decodeCanonical b limits = .ok v.norm := by
  obtain ⟨e, he, hlen, hread⟩ := encodeInto_writes h
  obtain rfl : b = e := he
  have hmax := limits.maxBytes.toNat_lt
  have hvalue := hread 0 [] (by omega)
  rw [List.append_nil] at hvalue
  unfold decodeCanonical
  rw [if_neg (by omega), hvalue, Except.ok_bind]
  simp [encodeWithLimits_norm, h]

/-! ### What the decoder returns -/

omit [Unicode] in
theorem Decoder.repeatValue_norm {read : Decoder → Except CanonicalError (Value × Decoder)}
    (ih : ∀ {d v d'}, read d = .ok (v, d') → v.norm = v) :
    ∀ {n : Nat} {d d' : Decoder} {vs : List Value},
      Decoder.repeatValue read n d = .ok (vs, d') → vs.map Value.norm = vs := by
  intro n
  induction n with
  | zero => intro d d' vs h; cases h; rfl
  | succ n ihn =>
      intro d d' vs h
      simp only [Decoder.repeatValue, Except.bind_eq_ok] at h
      obtain ⟨⟨v, d₁⟩, hv, ⟨ws, d₂⟩, hvs, heq⟩ := h
      cases heq
      rw [List.map_cons, ih hv, ihn hvs]

omit [Unicode] in
theorem Decoder.argument_lt {d d' : Decoder} {additional n : Nat}
    (h : d.argument additional = .ok (n, d')) : n < 2 ^ 64 := by
  have hwide : ∀ {w bound : Nat}, w ≤ 8 → d.wideArgument w bound = .ok (n, d') →
      n < 2 ^ 64 := by
    intro w bound hw h
    simp only [Decoder.wideArgument, Decoder.take, Except.bind_eq_ok,
      Except.ite_error_eq_ok, Except.ok.injEq] at h
    obtain ⟨⟨b, d₁⟩, ⟨-, hrest, hb⟩, -, hn⟩ := h
    cases hb
    cases hn
    have hb := fromBeBytes_lt (d.rest.take w)
    rw [List.length_take, Nat.min_eq_left (by omega)] at hb
    have : 256 ^ w ≤ 256 ^ 8 := Nat.pow_le_pow_right (by omega) hw
    simp only
    omega
  unfold Decoder.argument at h
  split_ifs at h with h₁ h₂
  · cases h; omega
  · simp only [Except.bind_eq_ok, Except.ite_error_eq_ok, Except.ok.injEq] at h
    obtain ⟨⟨b, d₁⟩, -, -, hn⟩ := h
    cases hn
    exact b.toNat_lt.trans (by omega)
  · exact hwide (by omega) h
  · exact hwide (by omega) h
  · exact hwide (by omega) h

omit [Unicode] in
theorem Decoder.repeatEntry_norm {read : Decoder → Except CanonicalError (Value × Decoder)}
    (ih : ∀ {d v d'}, read d = .ok (v, d') → v.norm = v) :
    ∀ {n : Nat} {previous : Option Nat} {d d' : Decoder} {es : List (UInt64 × Value)},
      Decoder.repeatEntry read n previous d = .ok (es, d') →
      SortedKeys es ∧ (∀ old ∈ previous, ∀ e ∈ es, old < e.1.toNat) ∧
        (es.map fun e => (e.1, e.2.norm)) = es := by
  intro n
  induction n with
  | zero => intro previous d d' es h; cases h; exact ⟨.nil, by simp, rfl⟩
  | succ n ihn =>
      intro previous d d' es h
      simp only [Decoder.repeatEntry, Except.bind_eq_ok, Except.ite_error_eq_ok] at h
      obtain ⟨⟨b, d₁⟩, -, -, ⟨k, d₂⟩, hk, hprev, ⟨v, d₃⟩, hv, ⟨fs, d₄⟩, hfs, heq⟩ := h
      cases heq
      obtain ⟨hsorted, hlt, hnorm⟩ := ihn hfs
      have hkn : (UInt64.ofNat k).toNat = k := by
        rw [UInt64.toNat_ofNat', Nat.mod_eq_of_lt (Decoder.argument_lt hk)]
      refine ⟨?_, ?_, ?_⟩
      · refine List.pairwise_cons.mpr ⟨?_, hsorted⟩
        intro k' hk'
        obtain ⟨e, he, rfl⟩ := List.mem_map.mp hk'
        rw [UInt64.lt_iff_toNat_lt, hkn]
        exact hlt k rfl e he
      · intro old hold e he
        have hok : old < k := by simp_all
        rcases List.mem_cons.mp he with rfl | he
        · simpa [hkn] using hok
        · exact hok.trans (hlt k rfl e he)
      · rw [List.map_cons, hnorm, ih hv]

/-- Everything the decoder returns is in normal form. -/
theorem Decoder.value_norm : ∀ {remaining : Nat} {d d' : Decoder} {v : Value},
    Decoder.value limits remaining d = .ok (v, d') → v.norm = v := by
  intro remaining
  induction remaining with
  | zero => intro d d' v h; cases h
  | succ remaining ih =>
      intro d d' v h
      simp only [Decoder.value, Except.bind_eq_ok] at h
      obtain ⟨⟨initial, d₁⟩, -, h⟩ := h
      simp only [Decoder.item] at h
      split at h
      · obtain ⟨⟨n, d₂⟩, -, heq⟩ := Except.bind_eq_ok.mp h
        cases heq; rw [Value.norm]
      · simp only [Except.bind_eq_ok, Except.ite_error_eq_ok] at h
        obtain ⟨⟨n, d₂⟩, -, hn, heq⟩ := h
        cases heq
        have hneg : (Int64.ofInt (-1 - n)).toInt = -1 - n :=
          Int64.toInt_ofInt_of_le (by simp only at hn; omega) (by omega)
        rw [Value.norm, hneg, if_neg (by omega)]
      · simp only [Except.bind_eq_ok] at h
        obtain ⟨⟨n, d₂⟩, -, ⟨b, d₃⟩, -, heq⟩ := h
        cases heq; rw [Value.norm]
      · simp only [Except.bind_eq_ok] at h
        obtain ⟨⟨n, d₂⟩, -, ⟨b, d₃⟩, -, heq⟩ := h
        split at heq
        · cases heq
        · obtain ⟨-, heq⟩ := Except.ite_error_eq_ok.mp heq
          cases heq; rw [Value.norm]
      · simp only [Except.bind_eq_ok] at h
        obtain ⟨⟨n, d₂⟩, -, ⟨vs, d₃⟩, hvs, heq⟩ := h
        cases heq
        rw [Value.norm_array, Decoder.repeatValue_norm ih hvs]
      · simp only [Except.bind_eq_ok] at h
        obtain ⟨⟨n, d₂⟩, -, ⟨es, d₃⟩, hes, heq⟩ := h
        cases heq
        obtain ⟨hsorted, -, hnorm⟩ := Decoder.repeatEntry_norm ih hes
        rw [Value.norm_map, hnorm, sortEntries_of_sortedKeys hsorted]
      · split_ifs at h <;> (cases h; rw [Value.norm])
      · cases h

/-- **Decode, then encode**: what decodes is in normal form and encodes to
the bytes it was read from. -/
theorem decodeCanonical_ok {b : Bytes} {v : Value} (h : decodeCanonical b limits = .ok v) :
    v.norm = v ∧ v.encodeWithLimits limits = .ok b := by
  simp only [decodeCanonical, Except.ite_error_eq_ok, Except.bind_eq_ok] at h
  obtain ⟨-, ⟨w, d⟩, hw, -, e, he, heq, hv⟩ := h
  cases hv
  refine ⟨Decoder.value_norm hw, ?_⟩
  rw [he, not_ne_iff.mp heq]

end RoundTrip

end RGit
