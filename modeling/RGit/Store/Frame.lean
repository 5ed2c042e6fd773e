/-
RGit/Store/Frame.lean

The bytes of a loose record.

`encode_frame` writes a record as magic, seven varints, identifier, payload
and checksum; `parse_record_stream` reads it from a stream, a field at a
time, and keeps what it has read for the checksum.  What one read does to the
stream is `Stream.Reads`; the reads compose, so that the parser accepts
exactly the frames that are written (`parseRecordStream_eq_ok`), and the
frames are prefix-free (`frame_append_inj`).
-/
import RGit.Store.Loose
import RGit.Objects.Varint

namespace RGit

namespace LooseStore

open Discriminant (code)

/-- `b"RGITLOOS"`. -/
def magic : Bytes := [0x52, 0x47, 0x49, 0x54, 0x4c, 0x4f, 0x4f, 0x53]

/-- `b"RGIT-LOOSE-CHECKSUM\0"`. -/
def checksumDomain : Bytes :=
  [0x52, 0x47, 0x49, 0x54, 0x2d, 0x4c, 0x4f, 0x4f, 0x53, 0x45, 0x2d, 0x43, 0x48, 0x45, 0x43, 0x4b,
    0x53, 0x55, 0x4d, 0x00]

/-- `ABSOLUTE_RECORD_MAX`. -/
def absoluteRecordMax : Nat := 16777358

/-! ### Paths -/

def hexDigit (n : UInt8) : UInt8 := if n < 10 then 0x30 + n else 0x57 + n

def hexByte (b : UInt8) : Bytes := [hexDigit (b / 16), hexDigit (b % 16)]

/-- `hex::encode`. -/
def hexEncode (b : Bytes) : Bytes := b.flatMap hexByte

/-- `path_components`: version, algorithm, the first byte of the digest, and
the rest of it with `.rgl`. -/
def pathComponents (id : ObjectId) : List Bytes :=
  [[0x30], hexByte id.algorithm.code.toUInt8, (hexEncode id.digest.1).take 2,
    (hexEncode id.digest.1).drop 2 ++ [0x2e, 0x72, 0x67, 0x6c]]

/-! ### Writing -/

/-- The frame up to its checksum. -/
def frameBody (id : ObjectId) (kind : ObjectKind) (schema : UInt64) (payload : Bytes) : Bytes :=
  magic ++ pushVarint 0 ++ id.toBytes ++ pushVarint (code kind) ++ pushVarint schema ++
    pushVarint payload.length.toUInt64 ++ payload

variable [Hashes]

/-- `Sha256` over the domain and the body. -/
def frameChecksum (body : Bytes) : FixedBytes 32 := Hashes.digest .sha256 (checksumDomain ++ body)

def frame (id : ObjectId) (kind : ObjectKind) (schema : UInt64) (payload : Bytes) : Bytes :=
  frameBody id kind schema payload ++ (frameChecksum (frameBody id kind schema payload)).1

/-- `encode_frame`. -/
def encodeFrameBytes (id : ObjectId) (object : AnyObject) (payload : Bytes) :
    Except LooseStoreError Bytes :=
  if payload.length > payloadLimit object.kind then .error .allocationLimit
  else .ok (frame id object.kind object.schemaVersion payload)

/-! ### Reading -/

/-- A reader with the checksum's input and the count of bytes read so far. -/
structure Stream where
  input : Bytes
  checksum : Bytes
  consumed : Nat

namespace Stream

/-- `u64::checked_add`. -/
def checkedAdd (a b : Nat) : Except LooseStoreError Nat :=
  if a + b < 2 ^ 64 then .ok (a + b) else .error .invalidFrame

/-- `read_hashed`, into a buffer of `n` bytes. -/
def readHashed (n : Nat) (s : Stream) : Except LooseStoreError (Bytes × Stream) :=
  if s.input.length < n then .error .invalidFrame
  else do
    let consumed ← checkedAdd s.consumed n
    .ok (s.input.take n, ⟨s.input.drop n, s.checksum ++ s.input.take n, consumed⟩)

/-- `read_varint` of the loose store: the loop is that of the identifiers,
with one error. -/
def readVarintSlice (input : Bytes) : Except LooseStoreError (UInt64 × Bytes) :=
  (readVarint input).mapError fun _ => .invalidVarint

/-- The loop of `read_varint_stream`: `encoded` is the buffer so far, `groups`
bytes of it are free. -/
def readVarintStreamLoop : Nat → Bytes → Stream → Except LooseStoreError (UInt64 × Stream)
  | 0, _, _ => .error .invalidVarint
  | groups + 1, encoded, s => do
      let (read, s) ← s.readHashed 1
      let byte := read.headD 0
      if encoded.length = 9 ∧ byte > 1 then .error .invalidVarint
      else if byte &&& 0x80 = 0 then
        let (value, rest) ← readVarintSlice (encoded ++ [byte])
        if rest ≠ [] then .error .invalidVarint else .ok (value, s)
      else readVarintStreamLoop groups (encoded ++ [byte]) s

/-- `read_varint_stream`. -/
def readVarintStream (s : Stream) : Except LooseStoreError (UInt64 × Stream) :=
  readVarintStreamLoop 10 [] s

end Stream

/-- `VerifiedRecord`. -/
structure VerifiedRecord where
  payload : Bytes
  object : AnyObject

/-- `validate_logical_record`, with the identifier and the path the caller
expects.  A path is the list of its components. -/
def validateRecord [Unicode] (id : ObjectId) (record : LooseRecord) (expectedId : Option ObjectId)
    (actualPath : Option (List Bytes)) : Except LooseStoreError VerifiedRecord := do
  let object ← validateLogicalRecord id record
  if ∃ expected ∈ expectedId, expected ≠ id then .error .metadataMismatch
  else if ∃ path ∈ actualPath, path.reverse.take 4 ≠ (pathComponents id).reverse then
    .error .pathMismatch
  else .ok ⟨record.payload, object⟩

/-- The part of `parse_record_stream` that reads the identifier. -/
def readId (s : Stream) : Except LooseStoreError (ObjectId × Stream) := do
  let (format, s) ← s.readVarintStream
  let (algorithm, s) ← s.readVarintStream
  let (digestLength, s) ← s.readVarintStream
  if format ≠ 0 ∨ ¬ (algorithm = 0x12 ∨ algorithm = 0x1e) ∨ digestLength ≠ 32 then
    .error .unsupportedFormat
  else
    let (digest, s) ← s.readHashed 32
    let idBytes := pushVarint format ++ pushVarint algorithm ++ pushVarint digestLength ++ digest
    let id ← (ObjectId.fromBytes idBytes).mapError fun _ => .invalidFrame
    .ok (id, s)

/-- `parse_record_stream`. -/
def parseRecordStream [Unicode] (reader : Bytes) (observedLength : Nat)
    (expectedId : Option ObjectId) (actualPath : Option (List Bytes)) :
    Except LooseStoreError VerifiedRecord := do
  let s : Stream := ⟨reader, checksumDomain, 0⟩
  let (read, s) ← s.readHashed 8
  if read ≠ magic then .error .invalidFrame
  else
    let (version, s) ← s.readVarintStream
    if version ≠ 0 then .error .unsupportedFormat
    else
      let (id, s) ← readId s
      let (kindNumber, s) ← s.readVarintStream
      let kind ← Except.ofOption (Discriminant.ofCode kindNumber) .unsupportedFormat
      let (schema, s) ← s.readVarintStream
      if !ObjectKind.supportsSchema kind schema then .error .unsupportedFormat
      else
        let (payloadLength, s) ← s.readVarintStream
        if payloadLength.toNat > payloadLimit kind then .error .allocationLimit
        else
          let length ← Stream.checkedAdd s.consumed payloadLength.toNat
          let expectedLength ← Stream.checkedAdd length 32
          if expectedLength ≠ observedLength then .error .invalidFrame
          else
            let (payload, s) ← s.readHashed payloadLength.toNat
            if s.input.length < 32 then .error .invalidFrame
            else if (Hashes.digest .sha256 s.checksum).1 ≠ s.input.take 32 then .error .checksum
            else validateRecord id ⟨kind, schema, payload⟩ expectedId actualPath

/-! ### What a read does -/

namespace Stream

omit [Hashes]

/-- The bytes `w` are taken from the input and counted. -/
structure Reads (s : Stream) (w : Bytes) (s' : Stream) : Prop where
  input : s.input = w ++ s'.input
  checksum : s'.checksum = s.checksum ++ w
  consumed : s'.consumed = s.consumed + w.length
  bound : s'.consumed < 2 ^ 64

variable {s s' : Stream} {w w' : Bytes}

theorem Reads.of_input {rest : Bytes} (hinput : s.input = w ++ rest)
    (hbound : s.consumed + w.length < 2 ^ 64) :
    Reads s w ⟨rest, s.checksum ++ w, s.consumed + w.length⟩ :=
  ⟨hinput, rfl, rfl, hbound⟩

/-- Reads compose. -/
theorem reads_append_iff : Reads s (w ++ w') s' ↔ ∃ m, Reads s w m ∧ Reads m w' s' := by
  constructor
  · rintro ⟨hinput, hchecksum, hconsumed, hbound⟩
    rw [List.length_append] at hconsumed
    rw [List.append_assoc] at hinput
    refine ⟨_, .of_input hinput (by omega), rfl, ?_, ?_, hbound⟩
    · rw [hchecksum, List.append_assoc]
    · dsimp only
      omega
  · rintro ⟨m, ⟨hinput, hchecksum, hconsumed, -⟩, ⟨hinput', hchecksum', hconsumed', hbound⟩⟩
    refine ⟨?_, ?_, ?_, hbound⟩
    · rw [hinput, hinput', List.append_assoc]
    · rw [hchecksum', hchecksum, List.append_assoc]
    · rw [hconsumed', hconsumed, List.length_append, Nat.add_assoc]

theorem checkedAdd_eq_ok {a b c : Nat} : checkedAdd a b = .ok c ↔ a + b < 2 ^ 64 ∧ c = a + b := by
  rw [checkedAdd, Except.ite_else_error_eq_ok, Except.ok.injEq, eq_comm (a := c)]

theorem readHashed_eq_ok {n : Nat} :
    s.readHashed n = .ok (w, s') ↔ w.length = n ∧ Reads s w s' := by
  rw [readHashed, Except.ite_error_eq_ok, Except.bind_eq_ok]
  constructor
  · rintro ⟨hlen, consumed, hadd, heq⟩
    obtain ⟨hbound, rfl⟩ := checkedAdd_eq_ok.mp hadd
    have htake : (s.input.take n).length = n := List.length_take_of_le (by omega)
    cases heq
    exact ⟨htake, (List.take_append_drop n s.input).symm, rfl, by rw [htake], hbound⟩
  · rintro ⟨rfl, hinput, hchecksum, hconsumed, hbound⟩
    refine ⟨?_, s'.consumed, checkedAdd_eq_ok.mpr ⟨by omega, hconsumed⟩, ?_⟩
    · rw [hinput, List.length_append]
      omega
    · rw [hinput, List.take_left, List.drop_left, ← hchecksum]

theorem readVarintSlice_eq_ok {v : UInt64} {rest : Bytes} :
    readVarintSlice w = .ok (v, rest) ↔ w = pushVarint v ++ rest := by
  rw [readVarintSlice, Except.mapError_eq_ok, readVarint_eq_ok]

/-- The buffer holds bytes that go on; the word is completed from the input. -/
theorem readVarintStreamLoop_eq_ok {groups : Nat} {encoded : Bytes} {v : UInt64}
    (hgroups : groups + encoded.length = 10) (hencoded : ∀ b ∈ encoded, 128 ≤ b.toNat) :
    readVarintStreamLoop groups encoded s = .ok (v, s') ↔
      ∃ w, encoded ++ w = pushVarint v ∧ Reads s w s' := by
  induction groups generalizing encoded s with
  | zero =>
      refine ⟨nofun, ?_⟩
      rintro ⟨w, hw, -⟩
      have hword := word_leb128 v.toNat
      rw [← pushVarint_eq, ← hw] at hword
      obtain ⟨m, hm, -⟩ := hword.of_append hencoded
      have hpos := hm.length_pos
      have hlen := length_pushVarint_le v
      rw [← hw, List.length_append] at hlen
      omega
  | succ groups ih =>
      rw [readVarintStreamLoop, Except.bind_eq_ok]
      constructor
      · rintro ⟨⟨read, m⟩, hread, h⟩
        obtain ⟨hlen, hreads⟩ := readHashed_eq_ok.mp hread
        obtain ⟨byte, rfl⟩ := List.length_eq_one_iff.mp hlen
        obtain ⟨-, h⟩ := Except.ite_error_eq_ok.mp h
        split at h
        · obtain ⟨⟨value, rest⟩, hslice, h⟩ := Except.bind_eq_ok.mp h
          obtain ⟨hrest, h⟩ := Except.ite_error_eq_ok.mp h
          cases h
          rw [readVarintSlice_eq_ok, not_not.mp hrest, List.append_nil] at hslice
          exact ⟨[byte], hslice, hreads⟩
        · next hmore =>
          have hbyte : 128 ≤ byte.toNat := by
            have := mt (high_bit_eq_zero_iff byte).mpr hmore
            omega
          have hnext : ∀ b ∈ encoded ++ [byte], 128 ≤ b.toNat :=
            List.forall_mem_append.mpr ⟨hencoded, by simpa using hbyte⟩
          obtain ⟨w, hw, hreads'⟩ := (ih (by simp; omega) hnext).mp h
          exact ⟨byte :: w, by rw [← hw, List.append_assoc]; rfl,
            reads_append_iff.mpr ⟨m, hreads, hreads'⟩⟩
      · rintro ⟨w, hw, hreads⟩
        have hword := word_leb128 v.toNat
        rw [← pushVarint_eq, ← hw] at hword
        obtain ⟨n, hn, hle⟩ := hword.of_append hencoded
        have hv := v.toNat_lt
        cases hn with
        | @last byte hlast =>
            refine ⟨([byte], s'), readHashed_eq_ok.mpr ⟨rfl, hreads⟩, ?_⟩
            have hten : ¬ (encoded.length = 9 ∧ byte > 1) := by
              rintro ⟨hnine, hbyte⟩
              rw [gt_iff_lt, UInt8.lt_iff_toNat_lt, show (1 : UInt8).toNat = 1 from rfl] at hbyte
              rw [hnine] at hle
              omega
            have hslice : readVarintSlice (encoded ++ [byte]) = .ok (v, []) :=
              readVarintSlice_eq_ok.mpr (by rw [hw, List.append_nil])
            refine (if_neg hten).trans
              ((if_pos ((high_bit_eq_zero_iff byte).mpr hlast)).trans ?_)
            simp [hslice]
        | @more byte w k hmore hword' =>
            obtain ⟨m, hread, hreads'⟩ := reads_append_iff.mp
              (show Reads s ([byte] ++ w) s' from hreads)
            refine ⟨([byte], m), readHashed_eq_ok.mpr ⟨rfl, hread⟩, ?_⟩
            have hten : ¬ (encoded.length = 9 ∧ byte > 1) := by
              rintro ⟨hnine, -⟩
              have hpos := hword'.length_pos
              have hlen := length_pushVarint_le v
              rw [← hw, List.length_append, List.length_cons] at hlen
              omega
            refine (if_neg hten).trans
              ((if_neg (mt (high_bit_eq_zero_iff byte).mp (by omega))).trans ?_)
            have hnext : ∀ b ∈ encoded ++ [byte], 128 ≤ b.toNat :=
              List.forall_mem_append.mpr ⟨hencoded, by simpa using hmore⟩
            exact (ih (by simp; omega) hnext).mpr
              ⟨w, by rw [← hw, List.append_assoc]; rfl, hreads'⟩

/-- The stream reader takes exactly the words that `push_varint` writes. -/
theorem readVarintStream_eq_ok {v : UInt64} :
    s.readVarintStream = .ok (v, s') ↔ Reads s (pushVarint v) s' := by
  rw [readVarintStream, readVarintStreamLoop_eq_ok rfl (by simp)]
  simp

end Stream

/-! ### What the parser accepts -/

section Parser

variable {s s' : Stream} {id : ObjectId}

omit [Hashes] in
theorem readId_eq_ok : readId s = .ok (id, s') ↔ s.Reads id.toBytes s' := by
  simp only [readId, Except.bind_eq_ok, Except.ite_error_eq_ok, Prod.exists,
    Stream.readVarintStream_eq_ok, Stream.readHashed_eq_ok, Except.mapError_eq_ok,
    ObjectId.fromBytes_eq_ok, Except.ok.injEq, Prod.mk.injEq]
  constructor
  · rintro ⟨format, s₁, h₁, algorithm, s₂, h₂, length, s₃, h₃, -, digest, s₄, ⟨-, h₄⟩, id', hid,
      rfl, rfl⟩
    rw [← hid]
    exact Stream.reads_append_iff.mpr ⟨s₃, Stream.reads_append_iff.mpr
      ⟨s₂, Stream.reads_append_iff.mpr ⟨s₁, h₁, h₂⟩, h₃⟩, h₄⟩
  · intro h
    obtain ⟨s₃, h, h₄⟩ := Stream.reads_append_iff.mp h
    obtain ⟨s₂, h, h₃⟩ := Stream.reads_append_iff.mp h
    obtain ⟨s₁, h₁, h₂⟩ := Stream.reads_append_iff.mp h
    refine ⟨0, s₁, h₁, _, s₂, h₂, 32, s₃, h₃, ?_, _, s', ⟨id.digest.2, h₄⟩, id, rfl, rfl, rfl⟩
    cases id.algorithm <;> simp [HashAlgorithm.code]

variable [Unicode] {f : Bytes} {n : Nat} {expectedId : Option ObjectId}
  {actualPath : Option (List Bytes)} {verified : VerifiedRecord}

omit [Unicode] [Hashes] in
/-- The reads of the header and the payload make up the body. -/
theorem reads_frameBody {kind : ObjectKind} {schema : UInt64} {payload : Bytes} :
    s.Reads (frameBody id kind schema payload) s' ↔
      ∃ s₁ s₂ s₃ s₄ s₅ s₆, s.Reads magic s₁ ∧ s₁.Reads (pushVarint 0) s₂ ∧ s₂.Reads id.toBytes s₃ ∧
        s₃.Reads (pushVarint (code kind)) s₄ ∧ s₄.Reads (pushVarint schema) s₅ ∧
        s₅.Reads (pushVarint payload.length.toUInt64) s₆ ∧ s₆.Reads payload s' := by
  simp only [frameBody, Stream.reads_append_iff]
  constructor
  · rintro ⟨s₆, ⟨s₅, ⟨s₄, ⟨s₃, ⟨s₂, ⟨s₁, h₁, h₂⟩, h₃⟩, h₄⟩, h₅⟩, h₆⟩, h₇⟩
    exact ⟨s₁, s₂, s₃, s₄, s₅, s₆, h₁, h₂, h₃, h₄, h₅, h₆, h₇⟩
  · rintro ⟨s₁, s₂, s₃, s₄, s₅, s₆, h₁, h₂, h₃, h₄, h₅, h₆, h₇⟩
    exact ⟨s₆, ⟨s₅, ⟨s₄, ⟨s₃, ⟨s₂, ⟨s₁, h₁, h₂⟩, h₃⟩, h₄⟩, h₅⟩, h₆⟩, h₇⟩

omit [Unicode] [Hashes] in
theorem payloadLimit_le (kind : ObjectKind) : payloadLimit kind ≤ 16777216 := by
  cases kind <;> decide

omit [Unicode] [Hashes] in
theorem lt_of_le_payloadLimit {kind : ObjectKind} {n : Nat} (h : n ≤ payloadLimit kind) :
    n < 2 ^ 64 := by
  have hle := payloadLimit_le kind
  omega

omit [Unicode] [Hashes] in
theorem toNat_toUInt64 {n : Nat} (h : n < 2 ^ 64) : n.toUInt64.toNat = n := by
  rw [Nat.toUInt64_eq, UInt64.toNat_ofNat', Nat.mod_eq_of_lt h]

omit [Unicode] [Hashes] in
theorem length_frameBody_le {kind : ObjectKind} {schema : UInt64} {payload : Bytes}
    (h : payload.length ≤ payloadLimit kind) :
    (frameBody id kind schema payload).length ≤ 16777290 := by
  have hlimit := payloadLimit_le kind
  have hid : id.toBytes.length = 35 := by
    rw [ObjectId.toBytes_eq]
    simp [id.digest.2]
  have hmagic : magic.length = 8 := rfl
  have hzero : (pushVarint 0).length = 1 := by decide
  have hkind := length_pushVarint_le (code kind)
  have hschema := length_pushVarint_le schema
  have hlength := length_pushVarint_le payload.length.toUInt64
  simp only [frameBody, List.length_append]
  omega

omit [Unicode] in
@[simp] theorem length_frame {kind : ObjectKind} {schema : UInt64} {payload : Bytes} :
    (frame id kind schema payload).length = (frameBody id kind schema payload).length + 32 := by
  rw [frame, List.length_append, (frameChecksum _).2]

/-- **The parser accepts exactly the frames that are written**, followed by
anything that the announced length leaves out. -/
theorem parseRecordStream_eq_ok :
    parseRecordStream f n expectedId actualPath = .ok verified ↔
      ∃ (id : ObjectId) (record : LooseRecord) (rest : Bytes),
        f = frame id record.kind record.schema record.payload ++ rest ∧
        n = (frame id record.kind record.schema record.payload).length ∧
        record.kind.supportsSchema record.schema = true ∧
        record.payload.length ≤ payloadLimit record.kind ∧
        validateRecord id record expectedId actualPath = .ok verified := by
  simp only [parseRecordStream, Except.bind_eq_ok, Except.ite_error_eq_ok, Prod.exists,
    Stream.readVarintStream_eq_ok, Stream.readHashed_eq_ok, readId_eq_ok, Except.ofOption_eq_ok,
    ObjectKind.ofCode_eq_some, Stream.checkedAdd_eq_ok, length_frame]
  constructor
  · rintro ⟨_, s₁, ⟨-, h₁⟩, hmagic, version, s₂, h₂, hversion, id, s₃, h₃, number, s₄, h₄, kind,
      rfl, schema, s₅, h₅, hschema, length, s₆, h₆, hlimit, _, ⟨-, rfl⟩, _, ⟨-, rfl⟩, hn, payload,
      s₇, ⟨hlength, h₇⟩, hrest, hsum, hvalid⟩
    obtain rfl := not_not.mp hmagic
    obtain rfl := not_not.mp hversion
    have hword : payload.length.toUInt64 = length := by
      rw [hlength, Nat.toUInt64_eq, UInt64.ofNat_toNat]
    rw [← hword] at h₆
    have hbody := reads_frameBody.mpr ⟨s₁, s₂, s₃, s₄, s₅, s₆, h₁, h₂, h₃, h₄, h₅, h₆, h₇⟩
    refine ⟨id, ⟨kind, schema, payload⟩, s₇.input.drop 32, ?_, ?_, by simpa using hschema,
      by dsimp only; omega, hvalid⟩
    · have hsum := not_not.mp hsum
      rw [hbody.checksum] at hsum
      rw [frame, frameChecksum, hsum, List.append_assoc, List.take_append_drop]
      exact hbody.input
    · have hconsumed := hbody.consumed
      have hpayload := h₇.consumed
      dsimp only at hconsumed ⊢
      omega
  · rintro ⟨id, ⟨kind, schema, payload⟩, rest, hf, hn, hschema, hlimit, hvalid⟩
    dsimp only at hf hn hschema hlimit
    have hlength := toNat_toUInt64 (lt_of_le_payloadLimit hlimit)
    have hbound : (frameBody id kind schema payload).length ≤ _ := length_frameBody_le hlimit
    rw [frame, List.append_assoc] at hf
    have hbody := Stream.Reads.of_input (s := ⟨f, checksumDomain, 0⟩) hf (by dsimp only; omega)
    obtain ⟨s₁, s₂, s₃, s₄, s₅, s₆, h₁, h₂, h₃, h₄, h₅, h₆, h₇⟩ := reads_frameBody.mp hbody
    have hconsumed := h₇.consumed
    dsimp only at hconsumed
    refine ⟨magic, s₁, ⟨rfl, h₁⟩, not_not.mpr rfl, 0, s₂, h₂, not_not.mpr rfl, id, s₃, h₃, _, s₄,
      h₄, kind, rfl, schema, s₅, h₅, by simpa using hschema, _, s₆, h₆, by omega, _,
      ⟨by omega, rfl⟩, _, ⟨by omega, rfl⟩, by omega, payload, _, ⟨hlength.symm, h₇⟩, ?_, ?_,
      hvalid⟩
    · simp [(frameChecksum _).2]
    · rw [not_not]
      exact (List.take_left' (frameChecksum _).2).symm

/-! ### One record, one frame -/

omit [Unicode] in
/-- No frame is the beginning of another one. -/
theorem frame_append_inj {id id' : ObjectId} {record record' : LooseRecord} {x y : Bytes}
    (hlength : record.payload.length < 2 ^ 64) (hlength' : record'.payload.length < 2 ^ 64)
    (h : frame id record.kind record.schema record.payload ++ x =
      frame id' record'.kind record'.schema record'.payload ++ y) :
    id = id' ∧ record = record' ∧ x = y := by
  obtain ⟨kind, schema, payload⟩ := record
  obtain ⟨kind', schema', payload'⟩ := record'
  dsimp only at h hlength hlength'
  simp only [frame, frameBody, ObjectId.toBytes, List.append_assoc] at h
  have h := List.append_cancel_left h
  obtain ⟨-, h⟩ := pushVarint_append_inj h
  obtain ⟨-, h⟩ := pushVarint_append_inj h
  obtain ⟨halgorithm, h⟩ := pushVarint_append_inj h
  obtain ⟨-, h⟩ := pushVarint_append_inj h
  obtain ⟨hdigest, h⟩ := FixedBytes.append_inj h
  obtain ⟨hkind, h⟩ := pushVarint_append_inj h
  obtain ⟨hschema, h⟩ := pushVarint_append_inj h
  obtain ⟨hsize, h⟩ := pushVarint_append_inj h
  have hsize := congrArg UInt64.toNat hsize
  rw [toNat_toUInt64 hlength, toNat_toUInt64 hlength'] at hsize
  obtain ⟨hpayload, h⟩ := List.append_inj h hsize
  have hid : id = id' := by
    cases id
    cases id'
    exact congrArg₂ ObjectId.mk (HashAlgorithm.code_injective halgorithm) hdigest
  obtain rfl := ObjectKind.code_inj.mp hkind
  subst hid hschema hpayload
  exact ⟨rfl, rfl, List.append_cancel_left h⟩

/-- A record that is read back is the one of its fields. -/
theorem validateRecord_eq_ok {record : LooseRecord} :
    validateRecord id record expectedId actualPath = .ok verified ↔
      AnyObject.decodeVerified record.payload id (limitsFor record.kind) = .ok verified.object ∧
        verified.object.kind = record.kind ∧ verified.object.schemaVersion = record.schema ∧
        verified.payload = record.payload ∧ (∀ expected ∈ expectedId, expected = id) ∧
        ∀ path ∈ actualPath, pathComponents id <:+ path := by
  have hsuffix : ∀ path : List Bytes,
      path.reverse.take 4 = (pathComponents id).reverse ↔ pathComponents id <:+ path := by
    intro path
    rw [← List.reverse_prefix, List.prefix_iff_eq_take, List.length_reverse, eq_comm]
    rfl
  simp only [validateRecord, validateLogicalRecord, Except.bind_eq_ok, Except.ite_error_eq_ok,
    Except.mapError_eq_ok, not_or, not_not, not_exists, not_and, hsuffix, Except.ok.injEq]
  obtain ⟨payload, object⟩ := verified
  constructor
  · rintro ⟨_, ⟨_, hdecode, ⟨hkind, hschema⟩, rfl⟩, hexpected, hpath, heq⟩
    cases heq
    exact ⟨hdecode, hkind, hschema, rfl, hexpected, hpath⟩
  · rintro ⟨hdecode, hkind, hschema, rfl, hexpected, hpath⟩
    exact ⟨object, ⟨object, hdecode, ⟨hkind, hschema⟩, rfl⟩, hexpected, hpath, rfl⟩

variable {limits : CanonicalLimits} {object : AnyObject} {payload : Bytes}

theorem decodeVerified_eq_ok :
    AnyObject.decodeVerified payload id limits = .ok object ↔
      AnyObject.decode payload limits = .ok object ∧ object.id id.algorithm = .ok id := by
  simp only [AnyObject.decodeVerified, Except.bind_eq_ok, Except.ite_error_eq_ok, not_not,
    Except.ok.injEq]
  constructor
  · rintro ⟨_, hdecode, _, hid, rfl, rfl⟩
    exact ⟨hdecode, hid⟩
  · rintro ⟨hdecode, hid⟩
    exact ⟨object, hdecode, id, hid, rfl, rfl⟩

/-- The profile of the kind is enough to read an object again. -/
theorem decodeVerified_limitsFor
    (hdecode : AnyObject.decodeVerified payload id limits = .ok object) :
    AnyObject.decodeVerified payload id (limitsFor object.kind) = .ok object := by
  obtain ⟨hobject, hid⟩ := decodeVerified_eq_ok.mp hdecode
  rw [limitsFor_eq]
  exact decodeVerified_eq_ok.mpr ⟨(decode_kindLimits hobject).1, hid⟩

/-- A frame that was written is short enough to be opened, and is read back. -/
theorem parse_of_encodeFrameBytes
    (hdecode : AnyObject.decodeVerified payload id limits = .ok object)
    (hencode : encodeFrameBytes id object payload = .ok f)
    (hpath : ∀ path ∈ actualPath, pathComponents id <:+ path) :
    f.length ≤ absoluteRecordMax ∧
      parseRecordStream f f.length (some id) actualPath = .ok ⟨payload, object⟩ := by
  rw [encodeFrameBytes, Except.ite_error_eq_ok, Except.ok.injEq] at hencode
  obtain ⟨hlimit, rfl⟩ := hencode
  have hlimit : payload.length ≤ payloadLimit object.kind := by omega
  obtain ⟨-, -, -, hsupported, -⟩ := decode_eq_ok.mp (decodeVerified_eq_ok.mp hdecode).1
  constructor
  · have hbody : (frameBody id object.kind object.schemaVersion payload).length ≤ _ :=
      length_frameBody_le hlimit
    rw [length_frame, absoluteRecordMax]
    omega
  · rw [parseRecordStream_eq_ok]
    refine ⟨id, ⟨object.kind, object.schemaVersion, payload⟩, [], (List.append_nil _).symm, rfl,
      hsupported, hlimit, ?_⟩
    exact validateRecord_eq_ok.mpr
      ⟨decodeVerified_limitsFor hdecode, rfl, rfl, rfl, by simp, hpath⟩

/-- An accepted frame is the one that is written for what it holds. -/
theorem encodeFrameBytes_of_parse
    (h : parseRecordStream f f.length expectedId actualPath = .ok verified) :
    ∃ id : ObjectId,
      AnyObject.decodeVerified verified.payload id (limitsFor verified.object.kind) =
        .ok verified.object ∧
      encodeFrameBytes id verified.object verified.payload = .ok f ∧
      (∀ expected ∈ expectedId, expected = id) ∧ ∀ path ∈ actualPath, pathComponents id <:+ path := by
  rw [parseRecordStream_eq_ok] at h
  obtain ⟨id, record, rest, hf, hlength, -, hlimit, hvalid⟩ := h
  obtain ⟨hdecode, hkind, hschema, hpayload, hexpected, hpath⟩ := validateRecord_eq_ok.mp hvalid
  obtain rfl : rest = [] := by
    have hsum := congrArg List.length hf
    rw [List.length_append] at hsum
    exact List.eq_nil_of_length_eq_zero (by omega)
  rw [List.append_nil] at hf
  rw [← hkind, ← hpayload] at hdecode hlimit
  rw [← hkind, ← hschema, ← hpayload] at hf
  refine ⟨id, hdecode, ?_, hexpected, hpath⟩
  rw [encodeFrameBytes, if_neg (by omega), hf]

/-- Two accepted strings of which one begins the other are one string. -/
theorem eq_nil_of_parse {expectedId' : Option ObjectId} {actualPath' : Option (List Bytes)}
    {verified' : VerifiedRecord} {x : Bytes}
    (h : parseRecordStream f f.length expectedId actualPath = .ok verified)
    (h' : parseRecordStream (f ++ x) (f ++ x).length expectedId' actualPath' = .ok verified') :
    x = [] := by
  rw [parseRecordStream_eq_ok] at h h'
  obtain ⟨id, record, rest, hf, hlength, -, hlimit, -⟩ := h
  obtain ⟨id', record', rest', hf', hlength', -, hlimit', -⟩ := h'
  have hjoined := hf'
  rw [hf, List.append_assoc] at hjoined
  obtain ⟨rfl, rfl, -⟩ := frame_append_inj (lt_of_le_payloadLimit hlimit)
    (lt_of_le_payloadLimit hlimit') hjoined
  have hsum : (f ++ x).length = f.length + x.length := List.length_append
  exact List.eq_nil_of_length_eq_zero (by omega)

/-- The store's records are what its frames hold. -/
theorem verifyOpenFile_iff_parse {record : LooseRecord}
    (hlength : record.payload.length < 2 ^ 64) :
    verifyOpenFile id record = .ok object ↔
      parseRecordStream (frame id record.kind record.schema record.payload)
        (frame id record.kind record.schema record.payload).length (some id) none =
          .ok ⟨record.payload, object⟩ := by
  have hvalid : validateRecord id record (some id) none = .ok ⟨record.payload, object⟩ ↔
      validateLogicalRecord id record = .ok object := by
    simp [validateRecord, Except.bind_eq_ok]
  rw [verifyOpenFile, Except.ite_error_eq_ok, Except.ite_error_eq_ok, Bool.not_eq_true',
    Bool.not_eq_false, not_lt, ← hvalid, parseRecordStream_eq_ok]
  constructor
  · rintro ⟨hsupported, hlimit, hvalid⟩
    exact ⟨id, record, [], (List.append_nil _).symm, rfl, hsupported, hlimit, hvalid⟩
  · rintro ⟨id', record', rest, hf, -, hsupported, hlimit, hvalid⟩
    rw [← List.append_nil (frame id record.kind record.schema record.payload)] at hf
    obtain ⟨rfl, rfl, -⟩ := frame_append_inj hlength (lt_of_le_payloadLimit hlimit) hf
    exact ⟨hsupported, hlimit, hvalid⟩

/-- The seven varints of an accepted string are the shortest ones. -/
theorem shortest_of_parse {w₀ w₁ w₂ w₃ digest w₄ w₅ w₆ rest : Bytes} {n₀ n₁ n₂ n₃ n₄ n₅ n₆ : Nat}
    (h : parseRecordStream f f.length expectedId actualPath = .ok verified)
    (hdigest : digest.length = 32)
    (hf : f = magic ++ w₀ ++ w₁ ++ w₂ ++ w₃ ++ digest ++ w₄ ++ w₅ ++ w₆ ++ rest)
    (h₀ : Word w₀ n₀) (h₁ : Word w₁ n₁) (h₂ : Word w₂ n₂) (h₃ : Word w₃ n₃) (h₄ : Word w₄ n₄)
    (h₅ : Word w₅ n₅) (h₆ : Word w₆ n₆) :
    w₀ = leb128 n₀ ∧ w₁ = leb128 n₁ ∧ w₂ = leb128 n₂ ∧ w₃ = leb128 n₃ ∧ w₄ = leb128 n₄ ∧
      w₅ = leb128 n₅ ∧ w₆ = leb128 n₆ := by
  rw [parseRecordStream_eq_ok] at h
  obtain ⟨id, record, rest', hframe, -⟩ := h
  -- a word that stands where the shortest word of a number stands is that word
  have hstep : ∀ {w x y : Bytes} {n : Nat} {v : UInt64}, Word w n → w ++ x = pushVarint v ++ y →
      w = leb128 n ∧ x = y := by
    intro w x y n v hword heq
    rw [pushVarint_eq] at heq
    obtain ⟨rfl, rfl, hrest⟩ := hword.append_inj (word_leb128 _) heq
    exact ⟨rfl, hrest⟩
  rw [hf] at hframe
  simp only [frame, frameBody, ObjectId.toBytes, List.append_assoc] at hframe
  have hrest := List.append_cancel_left hframe
  obtain ⟨hw₀, hrest⟩ := hstep h₀ hrest
  obtain ⟨hw₁, hrest⟩ := hstep h₁ hrest
  obtain ⟨hw₂, hrest⟩ := hstep h₂ hrest
  obtain ⟨hw₃, hrest⟩ := hstep h₃ hrest
  obtain ⟨-, hrest⟩ := List.append_inj hrest (hdigest.trans id.digest.2.symm)
  obtain ⟨hw₄, hrest⟩ := hstep h₄ hrest
  obtain ⟨hw₅, hrest⟩ := hstep h₅ hrest
  obtain ⟨hw₆, -⟩ := hstep h₆ hrest
  exact ⟨hw₀, hw₁, hw₂, hw₃, hw₄, hw₅, hw₆⟩

end Parser

/-! ### The frames -/

/-- **Loose record frames.** What is written for an object is short enough
and is read back under any path of its identifier; what is accepted is what
is written for the object it holds; and so no string that is cut short, goes
on, or spells a number with more bytes than it needs is accepted. -/
theorem record_frames [Unicode] :
    (∀ (id : ObjectId) (object : AnyObject) (payload : Bytes) (limits : CanonicalLimits)
        (f : Bytes) (actualPath : Option (List Bytes)),
      AnyObject.decodeVerified payload id limits = .ok object →
      encodeFrameBytes id object payload = .ok f →
      (∀ path ∈ actualPath, pathComponents id <:+ path) →
        f.length ≤ absoluteRecordMax ∧
          parseRecordStream f f.length (some id) actualPath = .ok ⟨payload, object⟩) ∧
    ∀ (f : Bytes) (expectedId : Option ObjectId) (actualPath : Option (List Bytes))
        (verified : VerifiedRecord),
      parseRecordStream f f.length expectedId actualPath = .ok verified →
        (∃ id : ObjectId,
          AnyObject.decodeVerified verified.payload id (limitsFor verified.object.kind) =
            .ok verified.object ∧
          encodeFrameBytes id verified.object verified.payload = .ok f ∧
          (∀ expected ∈ expectedId, expected = id) ∧
          ∀ path ∈ actualPath, pathComponents id <:+ path) ∧
        (∀ (g x : Bytes) (expectedId' : Option ObjectId) (actualPath' : Option (List Bytes)),
          x ≠ [] → f = g ++ x ∨ g = f ++ x →
            (parseRecordStream g g.length expectedId' actualPath').isOk = false) ∧
        ∀ (w₀ w₁ w₂ w₃ digest w₄ w₅ w₆ rest : Bytes) (n₀ n₁ n₂ n₃ n₄ n₅ n₆ : Nat),
          f = magic ++ w₀ ++ w₁ ++ w₂ ++ w₃ ++ digest ++ w₄ ++ w₅ ++ w₆ ++ rest →
          digest.length = 32 → Word w₀ n₀ → Word w₁ n₁ → Word w₂ n₂ → Word w₃ n₃ → Word w₄ n₄ →
          Word w₅ n₅ → Word w₆ n₆ →
            w₀ = leb128 n₀ ∧ w₁ = leb128 n₁ ∧ w₂ = leb128 n₂ ∧ w₃ = leb128 n₃ ∧ w₄ = leb128 n₄ ∧
              w₅ = leb128 n₅ ∧ w₆ = leb128 n₆ := by
  refine ⟨?_, ?_⟩
  · intro id object payload limits f actualPath hdecode hencode hpath
    exact parse_of_encodeFrameBytes hdecode hencode hpath
  · intro f expectedId actualPath verified h
    refine ⟨encodeFrameBytes_of_parse h, ?_, ?_⟩
    · intro g x expectedId' actualPath' hx hg
      apply Bool.eq_false_iff.mpr
      intro hok
      obtain ⟨verified', h'⟩ := Except.isOk_iff.mp hok
      rcases hg with rfl | rfl
      · exact hx (eq_nil_of_parse h' h)
      · exact hx (eq_nil_of_parse h h')
    · intro w₀ w₁ w₂ w₃ digest w₄ w₅ w₆ rest n₀ n₁ n₂ n₃ n₄ n₅ n₆ hf hdigest h₀ h₁ h₂ h₃ h₄ h₅ h₆
      exact shortest_of_parse h hdigest hf h₀ h₁ h₂ h₃ h₄ h₅ h₆

/-! ### Limits -/

theorem decodeVerified_of_put [Unicode] {id : ObjectId} {payload : Bytes} {loose : LooseStore}
    {outcome : PutLooseOutcome} (h : (put id payload loose).1 = .ok outcome) :
    ∃ object, AnyObject.decodeVerified payload id .bulk = .ok object := by
  rw [put] at h
  split at h
  · cases h
  · cases hprepare : prepareRecord id payload with
    | error e =>
        rw [hprepare] at h
        cases h
    | ok record =>
        obtain ⟨object, hobject, -⟩ := Except.bind_eq_ok.mp hprepare
        exact ⟨object, Except.mapError_eq_ok.mp hobject⟩

/-- **The limit profiles agree.** An object is read under given limits
exactly when its bytes are one canonical value under them and under the
profile of its kind, and the schema checks pass; looser limits read the same
object; and so what `put` admits under the bulk profile has an identifier and
is read back under the profile of its kind. -/
theorem limit_profiles [Unicode] :
    (∀ (b : Bytes) (limits : CanonicalLimits) (o : AnyObject),
      AnyObject.decode b limits = .ok o ↔
        ∃ m, o.value = .map m ∧
          decodeCanonical b ((limits.restrictedBy .bulk).restrictedBy (kindLimits o.kind)) =
            .ok (.map m) ∧
          o.kind.supportsSchema o.schemaVersion = true ∧
          ValidRecord o.kind o.schemaVersion m) ∧
    (∀ (b : Bytes) (limits limits' : CanonicalLimits) (o : AnyObject), limits.AtMost limits' →
      AnyObject.decode b limits = .ok o → AnyObject.decode b limits' = .ok o) ∧
    (∀ (id : ObjectId) (payload : Bytes) (loose : LooseStore) (outcome : PutLooseOutcome),
      (put id payload loose).1 = .ok outcome →
        ∃ object, AnyObject.decodeVerified payload id .bulk = .ok object) ∧
    ∀ (id : ObjectId) (payload : Bytes) (object : AnyObject),
      AnyObject.decodeVerified payload id .bulk = .ok object →
        object.id id.algorithm = .ok id ∧
        (∀ algorithm, (object.id algorithm).isOk = true) ∧
        AnyObject.decodeVerified payload id (limitsFor object.kind) = .ok object ∧
        ∃ f, encodeFrameBytes id object payload = .ok f ∧
          ∀ actualPath : Option (List Bytes), (∀ path ∈ actualPath, pathComponents id <:+ path) →
            parseRecordStream f f.length (some id) actualPath = .ok ⟨payload, object⟩ := by
  refine ⟨?_, ?_, ?_, ?_⟩
  · intro b limits o
    exact decode_iff_kindLimits
  · intro b limits limits' o hle hdecode
    exact decode_mono hle hdecode
  · intro id payload loose outcome h
    exact decodeVerified_of_put h
  · intro id payload object hdecode
    obtain ⟨hobject, hid⟩ := decodeVerified_eq_ok.mp hdecode
    have hframe : encodeFrameBytes id object payload =
        .ok (frame id object.kind object.schemaVersion payload) :=
      if_neg (by simpa using length_le_payloadLimit hobject)
    refine ⟨hid, ?_, decodeVerified_limitsFor hdecode, _, hframe, ?_⟩
    · intro algorithm
      exact Except.isOk_iff.mpr ⟨_, id_isOk_of_decode hobject algorithm⟩
    · intro actualPath hpath
      exact (parse_of_encodeFrameBytes hdecode hframe hpath).2

end LooseStore

end RGit
