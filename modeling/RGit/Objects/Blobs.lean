/-
RGit/Objects/Blobs.lean

The canonical representation of complete bytes.

`Blob.fromBytesFastcdcV0` stores short contents in the blob itself and cuts
long ones into chunks.  Four places state sizes: the chunker, the schema of a
chunk, the validator of a blob and the limits of the encoder.  The chunker's
bounds put every chunk within the schema (`validate_chunk`,
`encode_chunk_isOk`), the sum of the lengths within the validator
(`foldlM_checkedAdd`), and up to 64 GiB the descriptor within the limits
(`encode_chunkedBlob_isOk`).
-/
import RGit.Objects.Admission
import RGit.Objects.FastCdc

namespace RGit

open Discriminant (code)

open CanonicalObject (encode validate)

structure ChunkedBlob where
  blob : Blob
  chunks : List Chunk

/-- The reference that the descriptor keeps of a chunk. -/
def Chunk.reference [Unicode] [Hashes] (algorithm : HashAlgorithm) (chunk : Chunk) :
    Except ObjectError ChunkRef := do
  let id ← CanonicalObject.id chunk algorithm
  .ok ⟨id, UInt64.ofNat chunk.bytes.length⟩

/-- `Blob::from_bytes_fastcdc_v0`. -/
def Blob.fromBytesFastcdcV0 [Unicode] [Hashes] (policyRef : PolicyRef) (bytes : Bytes)
    (hashAlgorithm : HashAlgorithm) : Except ObjectError ChunkedBlob := do
  if bytes.length ≤ maxInlineBlobBytes then
    .ok ⟨⟨policyRef, UInt64.ofNat bytes.length, .inlined bytes, none, none⟩, []⟩
  else
    let chunks := (fastcdcV0Chunks bytes).map fun bytes => (⟨policyRef, bytes⟩ : Chunk)
    let references ← chunks.mapM (Chunk.reference hashAlgorithm)
    .ok ⟨⟨policyRef, UInt64.ofNat bytes.length, .chunks references, some .fastcdcV0, none⟩,
      chunks⟩

/-! ### The chunks -/

theorem length_of_mem_fastcdcV0Chunks {bytes chunk : Bytes} (h : chunk ∈ fastcdcV0Chunks bytes) :
    1 ≤ chunk.length ∧ chunk.length ≤ fastcdcV0MaxSize.toNat := by
  obtain ⟨hinit, hlast⟩ := fastcdcV0Chunks_lengths bytes
  have hne := List.ne_nil_of_mem h
  rw [← List.dropLast_append_getLast hne] at h
  rcases List.mem_append.mp h with h | h
  · obtain ⟨hlow, hhigh⟩ := hinit chunk h
    exact ⟨le_trans (by decide) hlow, hhigh⟩
  · obtain rfl := List.mem_singleton.mp h
    exact hlast _ (List.getLast?_eq_some_getLast hne)

/-- Every chunk but the last one takes up the minimum. -/
theorem length_fastcdcV0Chunks_le (bytes : Bytes) :
    (fastcdcV0Chunks bytes).length ≤ bytes.length / fastcdcV0MinSize.toNat + 1 := by
  have hsum : ((fastcdcV0Chunks bytes).dropLast.map List.length).sum ≤ bytes.length := by
    have hsub := (List.dropLast_sublist (fastcdcV0Chunks bytes)).map List.length
    have hwhole := congrArg List.length (fastcdcV0Chunks_flatten bytes)
    rw [List.length_flatten] at hwhole
    rw [← hwhole]
    exact hsub.sum_le_sum fun _ _ => Nat.zero_le _
  have hlow : ∀ n ∈ (fastcdcV0Chunks bytes).dropLast.map List.length,
      fastcdcV0MinSize.toNat ≤ n := by
    intro n hn
    obtain ⟨chunk, hchunk, rfl⟩ := List.mem_map.mp hn
    exact ((fastcdcV0Chunks_lengths bytes).1 chunk hchunk).1
  have hcount := (List.card_nsmul_le_sum _ _ hlow).trans hsum
  rw [List.length_map, List.length_dropLast, Nat.nsmul_eq_mul] at hcount
  have hdiv := (Nat.le_div_iff_mul_le (by decide)).mpr hcount
  omega

/-! ### Sizes and limits -/

theorem length_raw_policyRef (p : PolicyRef) : p.value.raw.length = 57 := by
  rw [PolicyRef.value, length_raw_map]
  simp [rawEntry, stable, oid, Value.raw, ObjectId.length_toBytes, length_headBytes,
    headArgument, p.policyId.2]

theorem length_raw_chunkRef_le (c : ChunkRef) : c.value.raw.length ≤ 49 := by
  have hlength := length_headBytes_le 0 c.plaintextLength.toNat
  rw [ChunkRef.value, length_raw_map]
  simp [rawEntry, oid, Value.raw, ObjectId.length_toBytes, length_headBytes,
    headArgument] at hlength ⊢
  omega

theorem length_raw_chunkRefs_le (references : List ChunkRef) :
    (Value.array (references.map ChunkRef.value)).raw.length ≤ 49 * references.length + 9 := by
  have hsum : ((references.map ChunkRef.value).map fun v => v.raw.length).sum ≤
      references.length • 49 := by
    have hle : ∀ n ∈ (references.map ChunkRef.value).map fun v => v.raw.length, n ≤ 49 := by
      intro n hn
      obtain ⟨v, hv, rfl⟩ := List.mem_map.mp hn
      obtain ⟨c, -, rfl⟩ := List.mem_map.mp hv
      exact length_raw_chunkRef_le c
    simpa using List.sum_le_card_nsmul _ _ hle
  have hhead := length_headBytes_le 4 (references.map ChunkRef.value).length
  rw [Nat.nsmul_eq_mul] at hsum
  rw [length_raw_array]
  omega

section Limits

variable [Unicode]

theorem fits_policyRef (p : PolicyRef) (remaining : Nat) :
    Fits .bulk (remaining + 2) p.value := by
  simp [PolicyRef.value, Fits, stable, oid, CanonicalLimits.bulk, ObjectId.length_toBytes,
    p.policyId.2]

theorem fits_chunkRef (c : ChunkRef) (remaining : Nat) :
    Fits .bulk (remaining + 2) c.value := by
  simp [ChunkRef.value, Fits, oid, CanonicalLimits.bulk, ObjectId.length_toBytes]

theorem fits_chunkProfile (remaining : Nat) :
    Fits .bulk (remaining + 2) ChunkProfile.fastcdcV0.value := by
  simp [ChunkProfile.value, Fits, CanonicalLimits.bulk]

/-- A typed object of a bulk kind that is valid, fits and is short is encoded,
and what is encoded is accepted. -/
theorem accepted_of_fits {t : TypedObject} (hkind : kindLimits t.kind = .bulk)
    (hvalid : t.validate = .ok ())
    (hfits : Fits .bulk (CanonicalLimits.bulk.maxDepth.toNat + 1) (.map t.fields))
    (hsize : (Value.map t.fields).raw.length ≤ CanonicalLimits.bulk.maxBytes.toNat) :
    ∃ b, t.encode = .ok b ∧ ∃ o, AnyObject.decode b .bulk = .ok o := by
  have hencode : t.encode = .ok (Value.map t.fields).raw := by
    rw [TypedObject.encode_eq_ok, hkind, encodeWithLimits_eq_ok]
    exact ⟨hvalid, hfits, rfl, hsize⟩
  obtain ⟨m, -, -, -, -, -, hdecode⟩ := decode_encoded hencode
  exact ⟨_, hencode, _, hdecode⟩

omit [Unicode] in
theorem validate_chunk {chunk : Chunk} (h : chunk.bytes.length ≤ fastcdcV0MaxSize.toNat) :
    validate chunk = .ok () :=
  if_neg (Nat.not_lt.mpr h)

/-- **A chunk of the chunker is encoded and accepted.** -/
theorem encode_chunk_isOk {chunk : Chunk} (h : chunk.bytes.length ≤ fastcdcV0MaxSize.toNat) :
    ∃ b, encode chunk = .ok b ∧ ∃ o, AnyObject.decode b .bulk = .ok o := by
  have hfields : (TypedObject.chunk chunk).fields = [(0, .unsigned (code ObjectKind.chunk)),
      (1, .unsigned 0), (2, chunk.policyRef.value), (3, .bytes chunk.bytes)] := rfl
  have hmax : chunk.bytes.length ≤ 4194304 := h
  refine accepted_of_fits (t := .chunk chunk) rfl (validate_chunk h) ?_ ?_
  · have hpolicy : Fits .bulk 64 chunk.policyRef.value := fits_policyRef chunk.policyRef 62
    have hbytes : chunk.bytes.length ≤ CanonicalLimits.bulk.maxByteStringBytes.toNat := h
    rw [hfields]
    exact ⟨by simp [CanonicalLimits.bulk], by simp, by simp [hpolicy, hbytes, Fits]⟩
  · have hsize := length_raw_map_le (TypedObject.chunk chunk).fields
    have hkind := length_raw_unsigned_le (code ObjectKind.chunk)
    have hschema := length_raw_unsigned_le 0
    have hbytes := length_raw_bytes_le chunk.bytes
    have hlimit : CanonicalLimits.bulk.maxBytes.toNat = 16777216 := rfl
    rw [hfields] at hsize ⊢
    simp only [List.map_cons, List.map_nil, List.sum_cons, List.sum_nil,
      length_raw_policyRef] at hsize
    omega

/-! ### The descriptor -/

omit [Unicode] in
/-- The sum of the lengths does not overflow when it fits the word. -/
theorem foldlM_checkedAdd {references : List ChunkRef} {sum : UInt64}
    (h : sum.toNat + (references.map (·.plaintextLength.toNat)).sum < 2 ^ 64) :
    references.foldlM (fun sum c => checkedAdd sum c.plaintextLength) sum =
      some (UInt64.ofNat (sum.toNat + (references.map (·.plaintextLength.toNat)).sum)) := by
  induction references generalizing sum with
  | nil => simp
  | cons c references ih =>
      rw [List.map_cons, List.sum_cons] at h ⊢
      have hlt : sum.toNat + c.plaintextLength.toNat < 2 ^ 64 := by omega
      have hadd : checkedAdd sum c.plaintextLength = some (sum + c.plaintextLength) := if_pos hlt
      have hnat : (sum + c.plaintextLength).toNat = sum.toNat + c.plaintextLength.toNat := by
        rw [UInt64.toNat_add, Nat.mod_eq_of_lt hlt]
      rw [List.foldlM_cons, hadd]
      show references.foldlM _ (sum + c.plaintextLength) = _
      rw [ih (by rw [hnat]; omega), hnat, Nat.add_assoc]

/-- The blob that stores its bytes itself. -/
def inlineBlob (policyRef : PolicyRef) (bytes : Bytes) : Blob :=
  ⟨policyRef, UInt64.ofNat bytes.length, .inlined bytes, none, none⟩

/-- The descriptor of the chunks that `bytes` was cut into. -/
def chunkedBlob (policyRef : PolicyRef) (bytes : Bytes) (references : List ChunkRef) : Blob :=
  ⟨policyRef, UInt64.ofNat bytes.length, .chunks references, some .fastcdcV0, none⟩

theorem validate_inlineBlob {policyRef : PolicyRef} {bytes : Bytes}
    (h : bytes.length ≤ maxInlineBlobBytes) : validate (inlineBlob policyRef bytes) = .ok () := by
  have hlt : bytes.length < 2 ^ 64 := h.trans_lt (by decide)
  exact blob_validate_iff.mpr ⟨by simp [inlineBlob], rfl, h, (UInt64.toNat_ofNat_of_lt' hlt).symm⟩

theorem encode_inlineBlob_isOk {policyRef : PolicyRef} {bytes : Bytes}
    (h : bytes.length ≤ maxInlineBlobBytes) :
    ∃ b, encode (inlineBlob policyRef bytes) = .ok b ∧ ∃ o, AnyObject.decode b .bulk = .ok o := by
  have hfields : (TypedObject.blob (inlineBlob policyRef bytes)).fields =
      [(0, .unsigned (code ObjectKind.blob)), (1, .unsigned 0), (2, policyRef.value),
        (3, .unsigned (UInt64.ofNat bytes.length)), (4, .bytes bytes)] := rfl
  have hmax : bytes.length ≤ 65536 := h
  refine accepted_of_fits (t := .blob (inlineBlob policyRef bytes)) rfl
    (validate_inlineBlob h) ?_ ?_
  · have hpolicy : Fits .bulk 64 policyRef.value := fits_policyRef policyRef 62
    have hbytes : bytes.length ≤ CanonicalLimits.bulk.maxByteStringBytes.toNat :=
      h.trans (by decide)
    rw [hfields]
    exact ⟨by simp [CanonicalLimits.bulk], by simp, by simp [hpolicy, hbytes, Fits]⟩
  · have hsize := length_raw_map_le (TypedObject.blob (inlineBlob policyRef bytes)).fields
    have hkind := length_raw_unsigned_le (code ObjectKind.blob)
    have hschema := length_raw_unsigned_le 0
    have hlength := length_raw_unsigned_le (UInt64.ofNat bytes.length)
    have hbytes := length_raw_bytes_le bytes
    have hlimit : CanonicalLimits.bulk.maxBytes.toNat = 16777216 := rfl
    rw [hfields] at hsize ⊢
    simp only [List.map_cons, List.map_nil, List.sum_cons, List.sum_nil,
      length_raw_policyRef] at hsize
    omega

theorem validate_chunkedBlob {policyRef : PolicyRef} {bytes : Bytes} {references : List ChunkRef}
    (hlength : bytes.length < 2 ^ 64) (hlong : maxInlineBlobBytes < bytes.length)
    (h : references.map (·.plaintextLength.toNat) = (fastcdcV0Chunks bytes).map List.length) :
    validate (chunkedBlob policyRef bytes references) = .ok () := by
  have hsum : (references.map (·.plaintextLength.toNat)).sum = bytes.length := by
    rw [h, ← List.length_flatten, fastcdcV0Chunks_flatten]
  refine blob_validate_iff.mpr ⟨by simp [chunkedBlob], rfl, ?_, ?_, ?_⟩
  · exact hlong.trans_eq (UInt64.toNat_ofNat_of_lt' hlength).symm
  · rintro rfl
    rw [List.map_nil, List.sum_nil] at hsum
    omega
  · refine foldlM_chunkRefStep_eq_ok.mpr ⟨fun c hc => ?_, ?_⟩
    · have hmem : c.plaintextLength.toNat ∈ (fastcdcV0Chunks bytes).map List.length :=
        h ▸ List.mem_map_of_mem hc
      obtain ⟨chunk, hchunk, heq⟩ := List.mem_map.mp hmem
      obtain ⟨hlow, hhigh⟩ := length_of_mem_fastcdcV0Chunks hchunk
      rw [heq] at hlow hhigh
      refine ⟨?_, not_lt.mpr (UInt64.le_iff_toNat_le.mpr hhigh)⟩
      intro hzero
      rw [hzero] at hlow
      exact absurd hlow (by decide)
    · have hlt : (0 : UInt64).toNat + (references.map (·.plaintextLength.toNat)).sum < 2 ^ 64 := by
        rwa [hsum, UInt64.toNat_zero, Nat.zero_add]
      rw [foldlM_checkedAdd hlt, hsum, UInt64.toNat_zero, Nat.zero_add]
      rfl

/-- **The descriptor is encoded and accepted**, for bytes up to 64 GiB. -/
theorem encode_chunkedBlob_isOk {policyRef : PolicyRef} {bytes : Bytes}
    {references : List ChunkRef} (hmax : bytes.length ≤ 64 * 1024 ^ 3)
    (hlong : maxInlineBlobBytes < bytes.length)
    (h : references.map (·.plaintextLength.toNat) = (fastcdcV0Chunks bytes).map List.length) :
    ∃ b, encode (chunkedBlob policyRef bytes references) = .ok b ∧
      ∃ o, AnyObject.decode b .bulk = .ok o := by
  have hfields : (TypedObject.blob (chunkedBlob policyRef bytes references)).fields =
      [(0, .unsigned (code ObjectKind.blob)), (1, .unsigned 0), (2, policyRef.value),
        (3, .unsigned (UInt64.ofNat bytes.length)),
        (5, .array (references.map ChunkRef.value)), (7, ChunkProfile.fastcdcV0.value)] := rfl
  have hcount : references.length ≤ 262145 := by
    have hlengths := congrArg List.length h
    have hchunks := length_fastcdcV0Chunks_le bytes
    have hmin : fastcdcV0MinSize.toNat = 262144 := rfl
    rw [List.length_map, List.length_map] at hlengths
    rw [hmin] at hchunks
    omega
  refine accepted_of_fits (t := .blob (chunkedBlob policyRef bytes references)) rfl
    (validate_chunkedBlob (by omega) hlong h) ?_ ?_
  · have hpolicy : Fits .bulk 64 policyRef.value := fits_policyRef policyRef 62
    have hprofile : Fits .bulk 64 ChunkProfile.fastcdcV0.value := fits_chunkProfile 62
    have hreferences : Fits .bulk 64 (.array (references.map ChunkRef.value)) := by
      refine ⟨?_, fun v hv => ?_⟩
      · have hitems : CanonicalLimits.bulk.maxCollectionItems.toNat = 1000000 := rfl
        rw [List.length_map, hitems]
        omega
      · obtain ⟨c, -, rfl⟩ := List.mem_map.mp hv
        exact fits_chunkRef c 61
    rw [hfields]
    refine ⟨by simp [CanonicalLimits.bulk], by simp, ?_⟩
    simp only [List.forall_mem_cons, List.not_mem_nil, false_implies, implies_true, and_true]
    exact ⟨trivial, trivial, hpolicy, trivial, hreferences, hprofile⟩
  · have hsize :=
      length_raw_map_le (TypedObject.blob (chunkedBlob policyRef bytes references)).fields
    have hkind := length_raw_unsigned_le (code ObjectKind.blob)
    have hschema := length_raw_unsigned_le 0
    have hlength := length_raw_unsigned_le (UInt64.ofNat bytes.length)
    have hreferences := length_raw_chunkRefs_le references
    have hprofile : ChunkProfile.fastcdcV0.value.raw.length ≤ 64 := by decide
    have hlimit : CanonicalLimits.bulk.maxBytes.toNat = 16777216 := rfl
    rw [hfields] at hsize ⊢
    simp only [List.map_cons, List.map_nil, List.sum_cons, List.sum_nil,
      length_raw_policyRef] at hsize
    omega

end Limits

/-! ### The whole constructor -/

section Constructor

variable [Unicode] [Hashes]

theorem reference_isOk {chunk : Chunk} (h : chunk.bytes.length ≤ fastcdcV0MaxSize.toNat)
    (algorithm : HashAlgorithm) : ∃ c, chunk.reference algorithm = .ok c := by
  obtain ⟨b, hb, -⟩ := encode_chunk_isOk h
  rw [Chunk.reference, CanonicalObject.id, hb]
  exact ⟨_, rfl⟩

/-- A reference has the identifier and the length of its chunk. -/
theorem reference_eq_ok {chunk : Chunk} {algorithm : HashAlgorithm} {c : ChunkRef}
    (h : chunk.reference algorithm = .ok c) :
    CanonicalObject.id chunk algorithm = .ok c.id ∧
      c.plaintextLength = UInt64.ofNat chunk.bytes.length := by
  obtain ⟨id, hid, hc⟩ := Except.bind_eq_ok.mp h
  cases hc
  exact ⟨hid, rfl⟩

/-- Long bytes: their chunks, and the descriptor with the references to them. -/
theorem fromBytesFastcdcV0_long (policyRef : PolicyRef) (algorithm : HashAlgorithm)
    {bytes : Bytes} (hlong : maxInlineBlobBytes < bytes.length) :
    ∃ references chunks, Blob.fromBytesFastcdcV0 policyRef bytes algorithm =
        .ok ⟨chunkedBlob policyRef bytes references, chunks⟩ ∧
      List.Forall₂ (fun (chunk : Chunk) (reference : ChunkRef) =>
        CanonicalObject.id chunk algorithm = .ok reference.id ∧
          reference.plaintextLength.toNat = chunk.bytes.length) chunks references ∧
      chunks.map (·.bytes) = fastcdcV0Chunks bytes ∧
      ∀ chunk ∈ chunks, chunk.bytes.length ≤ fastcdcV0MaxSize.toNat := by
  let chunks := (fastcdcV0Chunks bytes).map fun bytes => (⟨policyRef, bytes⟩ : Chunk)
  have hbound : ∀ chunk ∈ chunks, chunk.bytes.length ≤ fastcdcV0MaxSize.toNat := by
    intro chunk hchunk
    obtain ⟨part, hpart, rfl⟩ := List.mem_map.mp hchunk
    exact (length_of_mem_fastcdcV0Chunks hpart).2
  have hbytes : chunks.map (·.bytes) = fastcdcV0Chunks bytes := by
    rw [List.map_map]
    exact List.map_id _
  obtain ⟨references, hreferences⟩ := mapM_isOk fun chunk hchunk =>
    reference_isOk (hbound chunk hchunk) algorithm
  refine ⟨references, chunks, ?_, ?_, hbytes, hbound⟩
  · show (if bytes.length ≤ maxInlineBlobBytes then _ else
      chunks.mapM (Chunk.reference algorithm) >>= _) = _
    rw [if_neg (Nat.not_le.mpr hlong), hreferences]
    rfl
  · -- a chunk is short enough for its length to be a word
    obtain ⟨hlen, hzip⟩ := List.forall₂_iff_zip.mp (mapM_eq_ok.mp hreferences)
    refine List.forall₂_iff_zip.mpr ⟨hlen, fun {chunk reference} hmem => ?_⟩
    obtain ⟨hid, hplain⟩ := reference_eq_ok (hzip hmem)
    have hlt := (hbound chunk (List.of_mem_zip hmem).1).trans_lt fastcdcV0MaxSize.toNat_lt
    exact ⟨hid, hplain ▸ UInt64.toNat_ofNat_of_lt' hlt⟩

/-- **Every byte string has its representation.**  The constructor succeeds,
its blob is valid and inline up to 64 KiB; past that its references are those
of the chunks, which make up the bytes.  Every chunk is encoded and accepted,
and up to 64 GiB so is the blob. -/
theorem fromBytesFastcdcV0_spec (policyRef : PolicyRef) (bytes : Bytes)
    (algorithm : HashAlgorithm) (hlength : bytes.length < 2 ^ 64) :
    ∃ result, Blob.fromBytesFastcdcV0 policyRef bytes algorithm = .ok result ∧
      validate result.blob = .ok () ∧
      ((∃ content, result.blob.content = .inlined content) ↔ bytes.length ≤ 64 * 1024) ∧
      (bytes.length ≤ 64 * 1024 → result.blob.content = .inlined bytes ∧ result.chunks = []) ∧
      (64 * 1024 < bytes.length → ∃ references, result.blob.content = .chunks references ∧
        List.Forall₂ (fun (chunk : Chunk) (reference : ChunkRef) =>
            CanonicalObject.id chunk algorithm = .ok reference.id ∧
              reference.plaintextLength.toNat = chunk.bytes.length) result.chunks references ∧
        (result.chunks.map (·.bytes)).flatten = bytes) ∧
      (∀ chunk ∈ result.chunks, ∃ b, encode chunk = .ok b ∧
        ∃ o, AnyObject.decode b .bulk = .ok o) ∧
      (bytes.length ≤ 64 * 1024 ^ 3 → ∃ b, encode result.blob = .ok b ∧
        ∃ o, AnyObject.decode b .bulk = .ok o) := by
  by_cases hshort : bytes.length ≤ maxInlineBlobBytes
  · have hinline : Blob.fromBytesFastcdcV0 policyRef bytes algorithm =
        .ok ⟨inlineBlob policyRef bytes, []⟩ := if_pos hshort
    refine ⟨_, hinline, validate_inlineBlob hshort, ?_, fun _ => ⟨rfl, rfl⟩, fun hlong => ?_, ?_,
      fun _ => encode_inlineBlob_isOk hshort⟩
    · exact iff_of_true ⟨bytes, rfl⟩ hshort
    · exact absurd hshort (Nat.not_le.mpr hlong)
    · exact fun chunk hchunk => absurd hchunk List.not_mem_nil
  · have hlong := Nat.lt_of_not_le hshort
    obtain ⟨references, chunks, hrun, hmatch, hbytes, hbound⟩ :=
      fromBytesFastcdcV0_long policyRef algorithm hlong
    have hlengths : references.map (·.plaintextLength.toNat) =
        (fastcdcV0Chunks bytes).map List.length := by
      have hpairs : List.Forall₂ (· = ·) (references.map (·.plaintextLength.toNat))
          (chunks.map (·.bytes.length)) :=
        List.forall₂_map_left_iff.mpr (List.forall₂_map_right_iff.mpr
          (hmatch.flip.imp fun reference chunk h => h.2))
      rw [List.forall₂_eq_eq_eq] at hpairs
      rw [hpairs, ← hbytes, List.map_map]
      rfl
    refine ⟨_, hrun, validate_chunkedBlob hlength hlong hlengths, ?_, fun h => absurd h hshort,
      fun _ => ⟨references, rfl, hmatch, ?_⟩, fun chunk hchunk => ?_, fun hmax => ?_⟩
    · refine iff_of_false ?_ hshort
      rintro ⟨content, hcontent⟩
      cases hcontent
    · rw [hbytes, fastcdcV0Chunks_flatten]
    · exact encode_chunk_isOk (hbound chunk hchunk)
    · exact encode_chunkedBlob_isOk hmax hlong hlengths

end Constructor

/-- One byte more than a blob stores itself. -/
def longZeros : Bytes := List.replicate 65537 0

def longZerosChunk : Chunk := ⟨samplePolicy, longZeros⟩

abbrev longZerosHashes : Hashes := tableHashes
  [(.sha256, ObjectId.preimage 1 0 (Value.map (CanonicalObject.fields longZerosChunk)).raw,
      sampleDigest 0x3a401feb7eb7a4cd5be48fdd025856d604e28cb45894b3d92c02c8cd3bba3ece)]

theorem fromBytesFastcdcV0_spec_long :
    letI := asciiUnicode
    letI := longZerosHashes
    longZeros.length < 2 ^ 64 ∧ 64 * 1024 < longZeros.length ∧ ∃ result references,
      Blob.fromBytesFastcdcV0 samplePolicy longZeros .sha256 = .ok result ∧
      result.blob.content = .chunks references ∧
      (result.chunks.map (·.bytes)).flatten = longZeros ∧
      ∃ b, encode result.blob = .ok b ∧ ∃ o, AnyObject.decode b .bulk = .ok o := by
  let := asciiUnicode
  let := longZerosHashes
  have hlength : longZeros.length = 65537 := List.length_replicate
  have hword : longZeros.length < 2 ^ 64 := by rw [hlength]; decide
  have hlong : 64 * 1024 < longZeros.length := by rw [hlength]; decide
  obtain ⟨result, hrun, -, -, -, hchunks, -, hblob⟩ :=
    fromBytesFastcdcV0_spec samplePolicy longZeros .sha256 hword
  obtain ⟨references, hcontent, -, hflatten⟩ := hchunks hlong
  exact ⟨hword, hlong, result, references, hrun, hcontent, hflatten,
    hblob (by rw [hlength]; decide)⟩
end RGit
