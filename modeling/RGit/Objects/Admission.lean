/-
RGit/Objects/Admission.lean

What the decoder admits, end to end.

`decode_eq_ok` is the decoder in one statement; from it and the comparison
of the two layers follow the three results about admitted objects: what a
writer encodes is admitted and readable (`decode_of_encode`), which admitted
objects a writer could have encoded (`typed_iff_fits`), and which admitted
objects have exactly the edges of their schema (`references_iff_readable`).
-/
import Mathlib.Data.UInt
import RGit.Objects.EdgeSets

namespace RGit

open Discriminant (code)

open Decode

/-! ### The edges of an admitted object -/

section Edges

variable [Unicode] {m : Entries} {kind : ObjectKind} {schema : UInt64}

theorem policy_part (hm : Admitted (kindLimits kind) (.map m))
    (hrecord : ValidRecord kind schema m) :
    Part (concatEdges ((policyFields kind).map fun (k, role) => addPolicyEdge m k role))
      (.map m) (policySchemaFields kind) := by
  obtain ⟨-, hheader, hshape⟩ := (validateFields_eq_ok hm).mp hrecord.valid
  obtain ⟨policy, h₂⟩ := policyHeader_optional hheader
  have hobject : Part (addPolicyEdge m 2 .objectPolicy) (.map m) [policyAt 2 .objectPolicy] :=
    addPolicyEdge_part ⟨policy, h₂⟩
  cases kind with
  | changeRevision =>
      simp only [validateShapes, changeRevisionShape, Except.bind_eq_ok, Except.exists_unit_iff,
        policyField_eq_ok hm] at hshape
      obtain ⟨-, -, -, -, -, -, -, -, ⟨p, h₁₄⟩, q, h₁₅⟩ := hshape
      exact hobject.cons <| (addPolicyEdge_part ⟨some p, h₁₄⟩).cons
        (addPolicyEdge_part ⟨some q, h₁₅⟩).one
  | lineState =>
      simp only [validateShapes, lineStateShape, Except.bind_eq_ok, Except.exists_unit_iff,
        forM_eq_ok, List.forall_mem_cons, List.not_mem_nil, false_implies, implies_true,
        and_true, policyField_eq_ok hm] at hshape
      obtain ⟨-, -, -, _, -, _, -, -, -, ⟨⟨p, h₈⟩, ⟨q, h₉⟩, ⟨r, h₁₀⟩, s, h₁₁⟩, -⟩ := hshape
      exact hobject.cons <| (addPolicyEdge_part ⟨some p, h₈⟩).cons <|
        (addPolicyEdge_part ⟨some q, h₉⟩).cons <| (addPolicyEdge_part ⟨some r, h₁₀⟩).cons
        (addPolicyEdge_part ⟨some s, h₁₁⟩).one
  | release =>
      simp only [validateShapes, releaseShape, Except.bind_eq_ok, Except.exists_unit_iff,
        policyField_eq_ok hm] at hshape
      obtain ⟨-, -, -, -, ⟨p, h₆⟩, -⟩ := hshape
      exact hobject.cons (addPolicyEdge_part ⟨some p, h₆⟩).one
  | _ => exact hobject.one

/-- All parts of `references` together. -/
theorem references_part (hsupported : kind.supportsSchema schema = true)
    (hm : Admitted (kindLimits kind) (.map m)) (hrecord : ValidRecord kind schema m)
    (hnotes : notesReadable kind m = true) :
    Part (concatEdges ((policyFields kind).map (fun (k, role) => addPolicyEdge m k role) ++
      kindEdges kind m)) (.map m) (schemaFields kind) :=
  (policy_part hm hrecord).append (own_part hsupported hm hrecord hnotes)

omit [Unicode] in
theorem uniqueEdges_spec (edges : List ReferenceEdge) :
    (uniqueEdges edges).Nodup ∧ ∀ e, e ∈ uniqueEdges edges ↔ e ∈ edges := by
  have hloop : ∀ (l unique : List ReferenceEdge), unique.Nodup →
      (l.foldl (fun unique edge => if edge ∈ unique then unique else unique ++ [edge])
        unique).Nodup ∧
      ∀ e, e ∈ l.foldl (fun unique edge => if edge ∈ unique then unique else unique ++ [edge])
        unique ↔ e ∈ unique ∨ e ∈ l := by
    intro l
    induction l with
    | nil => intro unique h; exact ⟨h, by simp⟩
    | cons a l ih =>
        intro unique h
        rw [List.foldl_cons]
        by_cases ha : a ∈ unique
        · rw [if_pos ha]
          obtain ⟨hnodup, hmem⟩ := ih unique h
          refine ⟨hnodup, fun e => ?_⟩
          rw [hmem, List.mem_cons]
          constructor
          · rintro (he | he)
            · exact .inl he
            · exact .inr (.inr he)
          · rintro (he | rfl | he)
            · exact .inl he
            · exact .inl ha
            · exact .inr he
        · rw [if_neg ha]
          have hnodup : (unique ++ [a]).Nodup :=
            List.nodup_append.mpr ⟨h, by simp, by
              intro x hx y hy hxy
              obtain rfl := List.mem_singleton.mp hy
              exact ha (hxy ▸ hx)⟩
          obtain ⟨hnodup, hmem⟩ := ih _ hnodup
          refine ⟨hnodup, fun e => ?_⟩
          rw [hmem, List.mem_append, List.mem_singleton, List.mem_cons, or_assoc]
  obtain ⟨hnodup, hmem⟩ := hloop edges [] List.nodup_nil
  exact ⟨hnodup, fun e => (hmem e).trans (by simp)⟩

omit [Unicode] in
/-- If the whole is read, every part is. -/
theorem concatEdges_part_ok {parts : List Edges} {es : List ReferenceEdge}
    (h : concatEdges parts = .ok es) : ∀ x ∈ parts, ∃ as, x = .ok as := by
  intro x hx
  obtain ⟨before, after, rfl⟩ := List.append_of_mem hx
  obtain ⟨-, rest, -, hrest, -⟩ := (concatEdges_append_eq_ok before (x :: after)).mp h
  obtain ⟨as, -, has, -, -⟩ := (concatEdges_append_eq_ok [x] after).mp hrest
  exact ⟨as, by rwa [concatEdges_singleton] at has⟩

end Edges

/-! ### The decoder in one statement -/

section Decoder

variable [Unicode] {b : Bytes} {limits : CanonicalLimits} {o : AnyObject}

theorem decode_eq_ok :
    AnyObject.decode b limits = .ok o ↔
      ∃ m, o.value = .map m ∧ decodeCanonical b (limits.restrictedBy .bulk) = .ok (.map m) ∧
        o.kind.supportsSchema o.schemaVersion = true ∧
        (∃ e, (Value.map m).encodeWithLimits (limits.restrictedBy (kindLimits o.kind)) = .ok e) ∧
        ValidRecord o.kind o.schemaVersion m := by
  simp only [AnyObject.decode, Except.bind_eq_ok, Except.mapError_eq_ok, asMap_eq_ok,
    field_eq_ok, unsigned_eq_ok, kindOf_eq_ok, Except.ite_error_eq_ok, Except.exists_unit_iff,
    Except.ok.injEq, Bool.not_eq_true', Bool.not_eq_false]
  constructor
  · rintro ⟨_, hdecode, m, rfl, _, h₀, _, rfl, kind, rfl, _, h₁, schema, rfl, hsupported, e, he,
      hvalid, rfl⟩
    exact ⟨m, rfl, hdecode, hsupported, ⟨e, he⟩, h₀, h₁, hvalid⟩
  · obtain ⟨kind, schema, value⟩ := o
    rintro ⟨m, rfl, hdecode, hsupported, ⟨e, he⟩, h₀, h₁, hvalid⟩
    exact ⟨_, hdecode, m, rfl, _, h₀, _, rfl, kind, rfl, _, h₁, schema, rfl, hsupported, e, he,
      hvalid, rfl⟩

theorem admitted_of_decode {m : Entries} {kind : ObjectKind} {e : Bytes}
    (hdecode : decodeCanonical b (limits.restrictedBy .bulk) = .ok (.map m))
    (he : (Value.map m).encodeWithLimits (limits.restrictedBy (kindLimits kind)) = .ok e) :
    Admitted (kindLimits kind) (.map m) := by
  obtain ⟨⟨hnorm, -⟩, -⟩ := Admitted.of_decodeCanonical hdecode
  have hraw := encodeWithLimits_mono (CanonicalLimits.restrictedBy_right _ _) he
  obtain ⟨-, rfl, -⟩ := encodeWithLimits_eq_ok.mp hraw
  exact ⟨hnorm, hraw⟩

omit [Unicode] in
theorem kindLimits_atMost_bulk (kind : ObjectKind) : (kindLimits kind).AtMost .bulk := by
  have hself : CanonicalLimits.bulk.AtMost .bulk := by constructor <;> decide
  cases kind <;> first | exact hself | exact CanonicalLimits.metadata_atMost_bulk

omit [Unicode] in
theorem restrictedBy_bulk (kind : ObjectKind) :
    CanonicalLimits.bulk.restrictedBy (kindLimits kind) = kindLimits kind := by
  cases kind <;> decide

/-- The bytes determine the record, under whatever limits it is read. -/
theorem decodeCanonical_unique {limits' : CanonicalLimits} {v w : Value}
    (hle : limits.AtMost .bulk) (hle' : limits'.AtMost .bulk)
    (hv : decodeCanonical b limits = .ok v) (hw : decodeCanonical b limits' = .ok w) :
    v = w := by
  obtain ⟨hnorm, hv⟩ := decodeCanonical_ok hv
  obtain ⟨hnorm', hw⟩ := decodeCanonical_ok hw
  have h := decodeCanonical_encode (encodeWithLimits_mono hle hv)
  have h' := decodeCanonical_encode (encodeWithLimits_mono hle' hw)
  rw [h, hnorm, hnorm'] at h'
  exact Except.ok.inj h'

end Decoder

/-! ### Writers and readers -/

/-- The record in the bytes, as far as it has a kind. -/
def recordOf [Unicode] (b : Bytes) : Option (ObjectKind × Entries) :=
  match decodeCanonical b .bulk with
  | .ok (.map m) =>
      match lookupKey m 0 with
      | some (.unsigned n) => (kindOf n).toOption.map fun kind => (kind, m)
      | _ => none
  | _ => none

/-- The record in the bytes is one that a typed object can express. -/
def bytesFit [Unicode] (b : Bytes) : Bool := (recordOf b).any fun (kind, m) => typedFits kind m

/-- The release notes in the bytes, if there are any, are an identifier. -/
def notesReadableIn [Unicode] (b : Bytes) : Bool :=
  (recordOf b).any fun (kind, m) => notesReadable kind m

/-! ### Sample parameters

Concrete functions for the external crates, for the inputs of the witnesses
below: normalization and case folding of ASCII text, and a table of digests. -/

abbrev asciiUnicode : Unicode where
  nfc s := s
  caseFold s := s.map Char.toLower

/-- The digests of a table, and zeros elsewhere. -/
abbrev tableHashes (table : List (HashAlgorithm × Bytes × FixedBytes 32)) : Hashes where
  digest algorithm b :=
    match table.find? (fun (a, preimage, _) => a = algorithm && preimage = b) with
    | some (_, _, digest) => digest
    | none => ⟨List.replicate 32 0, List.length_replicate⟩

def sampleStable : FixedBytes 16 := ⟨toBeBytes 16 7, by decide⟩

def sampleDigest (n : Nat) : FixedBytes 32 := ⟨toBeBytes 32 n, by simp⟩

/-! The sample signatures are 64 bytes that are not all zero. -/

theorem length_sampleBytes : (toBeBytes 64 1).length = 64 := by simp

theorem sampleBytes_ne : toBeBytes 64 1 ≠ List.replicate 64 0 := by decide

theorem sampleDigest_ne : (sampleDigest 1).1 ≠ List.replicate 32 0 := by decide

def sampleId : ObjectId := ⟨.sha256, sampleDigest 9⟩

def samplePolicy : PolicyRef := ⟨sampleStable, sampleId⟩

def sampleTime : WallTime := ⟨0, 0⟩

section Main

variable [Unicode] {b : Bytes} {limits : CanonicalLimits} {o : AnyObject}

theorem TypedObject.supportsSchema (t : TypedObject) :
    t.kind.supportsSchema t.schemaVersion = true := by
  cases t <;> rfl

omit [Unicode] in
theorem notesReadable_of_fits {kind : ObjectKind} {m : Entries} (h : typedFits kind m = true) :
    notesReadable kind m = true := by
  cases kind with
  | release =>
      obtain ⟨-, hnotes⟩ := releaseFits_iff.mp h
      obtain ⟨notes, hlookup⟩ := optionalOidField_eq_ok.mp hnotes
      cases notes with
      | none => simp [notesReadable, hlookup]
      | some id =>
          have hoid : Decode.oid (RGit.oid id) 11 = .ok id := oid_eq_ok.mpr rfl
          simp only [notesReadable, hlookup, Option.map_some]
          split
          · rfl
          · rfl
          · next v _ hv =>
              cases hv
              simp [hoid, Except.isOk, Except.toBool]
  | _ => rfl

omit [Unicode] in
theorem references_eq_ok {m : Entries} (hvalue : o.value = .map m) {edges : List ReferenceEdge} :
    o.references = .ok edges ↔
      ∃ es, concatEdges ((policyFields o.kind).map (fun (k, role) => addPolicyEdge m k role) ++
        kindEdges o.kind m) = .ok es ∧ edges = uniqueEdges es := by
  simp only [AnyObject.references, hvalue, Except.bind_eq_ok, asMap_eq_ok, Value.map.injEq,
    exists_eq_left', Except.ok.injEq, eq_comm (a := edges)]

theorem recordOf_of_decode {m : Entries} {kind : ObjectKind}
    (hdecode : decodeCanonical b (limits.restrictedBy .bulk) = .ok (.map m))
    (hkind : lookupKey m 0 = some (.unsigned (code kind))) : recordOf b = some (kind, m) := by
  obtain ⟨hnorm, henc⟩ := decodeCanonical_ok hdecode
  have hbulk := decodeCanonical_encode
    (encodeWithLimits_mono (CanonicalLimits.restrictedBy_right limits .bulk) henc)
  rw [hnorm] at hbulk
  have hcode : kindOf (code kind) = .ok kind := kindOf_eq_ok.mpr rfl
  simp [recordOf, hbulk, hkind, hcode, Except.toOption]

/-- The bytes of a typed object are read as the normal form of its record. -/
theorem decode_encoded {t : TypedObject} (h : t.encode = .ok b) :
    ∃ m, Value.map m = (Value.map t.fields).norm ∧ Admitted (kindLimits t.kind) (.map m) ∧
      ValidRecord t.kind t.schemaVersion m ∧ typedFits t.kind m = true ∧
      (Value.map m).encodeWithLimits (kindLimits t.kind) = .ok b ∧
      AnyObject.decode b .bulk = .ok ⟨t.kind, t.schemaVersion, .map m⟩ := by
  obtain ⟨hvalid, henc⟩ := TypedObject.encode_eq_ok.mp h
  obtain ⟨hadmitted, -⟩ := Admitted.of_encode henc
  obtain ⟨m, hm⟩ : ∃ m, (Value.map t.fields).norm = .map m := ⟨_, Value.norm_map _⟩
  rw [hm] at hadmitted
  obtain ⟨hrecord, hfits⟩ := validRecord_of_typed t hadmitted hvalid hm.symm
  have hread : decodeCanonical b .bulk = .ok (.map m) := by
    rw [← hm]
    exact decodeCanonical_encode (encodeWithLimits_mono (kindLimits_atMost_bulk t.kind) henc)
  have hagain : (Value.map m).encodeWithLimits (kindLimits t.kind) = .ok b := by
    rw [← hm, encodeWithLimits_norm, henc]
  refine ⟨m, hm.symm, hadmitted, hrecord, hfits, hagain, ?_⟩
  refine decode_eq_ok.mpr ⟨m, rfl, hread, t.supportsSchema, ⟨b, ?_⟩, hrecord⟩
  rw [restrictedBy_bulk]
  exact hagain

/-- **What a writer encodes is admitted**, with the same kind, schema and
identifier, and its references can be read. -/
theorem decode_of_encode [Hashes] (t : TypedObject) (h : t.encode = .ok b) :
    ∃ o : AnyObject, AnyObject.decode b .bulk = .ok o ∧ o.kind = t.kind ∧
      o.schemaVersion = t.schemaVersion ∧ (∃ edges, o.references = .ok edges) ∧
      ∀ algorithm, ∃ id, o.id algorithm = .ok id ∧ t.id algorithm = .ok id := by
  obtain ⟨m, -, hadmitted, hrecord, hfits, hagain, hdecode⟩ := decode_encoded h
  refine ⟨⟨t.kind, t.schemaVersion, .map m⟩, hdecode, rfl, rfl, ?_, fun algorithm => ?_⟩
  · obtain ⟨es, hes, -⟩ :=
      references_part t.supportsSchema hadmitted hrecord (notesReadable_of_fits hfits)
    exact ⟨uniqueEdges es, (references_eq_ok rfl).mpr ⟨es, hes, rfl⟩⟩
  · refine ⟨ObjectId.fromPayload (code t.kind) t.schemaVersion b algorithm, ?_, ?_⟩
    · simp [AnyObject.id, hagain, Except.mapError]
    · simp [TypedObject.id_eq, h]

def sampleChunk : Chunk := ⟨samplePolicy, [1, 2, 3]⟩

def sampleChunkBytes : Bytes :=
  toBeBytes 68 0xa40001010002a200500000000000000000000000000000000701582300122000000000000000000000000000000000000000000000000000000000000000090343010203

def sampleChunkPreimage : Bytes := ObjectId.preimage 1 0 sampleChunkBytes

abbrev sampleChunkHashes : Hashes := tableHashes
  [(.sha256, sampleChunkPreimage,
      sampleDigest 0x3787dd60d3a87ae1fb0fcc5ee40aaf3b956cb0aaaa9d2a0ec621c1de83bb28e9),
    (.blake3, sampleChunkPreimage,
      sampleDigest 0x93c8ec3447cc4d0f58efe933ecdb33455296ad35d167d1927d6d3f0c329f897a)]

omit [Unicode] in
theorem decode_of_encode_chunk :
    letI := asciiUnicode
    letI := sampleChunkHashes
    (TypedObject.chunk sampleChunk).encode = .ok sampleChunkBytes ∧
      ∃ o : AnyObject, AnyObject.decode sampleChunkBytes .bulk = .ok o ∧ o.kind = .chunk ∧
        o.schemaVersion = 0 ∧ (∃ edges, o.references = .ok edges) ∧
        ∀ algorithm, ∃ id, o.id algorithm = .ok id ∧
          (TypedObject.chunk sampleChunk).id algorithm = .ok id :=
  letI := asciiUnicode
  letI := sampleChunkHashes
  have h : (TypedObject.chunk sampleChunk).encode = .ok sampleChunkBytes := by decide
  ⟨h, decode_of_encode (.chunk sampleChunk) h⟩

theorem fits_of_typed (h : AnyObject.decode b limits = .ok o) {t : TypedObject}
    (hkind : t.kind = o.kind) (hvalid : t.validate = .ok ()) (henc : t.encode = .ok b) :
    bytesFit b = true := by
  obtain ⟨m, hvalue, hdecode, -, ⟨e, he⟩, hrecord⟩ := decode_eq_ok.mp h
  have hadmitted := admitted_of_decode hdecode he
  obtain ⟨-, henc⟩ := TypedObject.encode_eq_ok.mp henc
  -- both layers read the same record from the bytes
  have hsame : (Value.map t.fields).norm = .map m :=
    decodeCanonical_unique (kindLimits_atMost_bulk t.kind)
      (CanonicalLimits.restrictedBy_right limits .bulk) (decodeCanonical_encode henc) hdecode
  rw [bytesFit, recordOf_of_decode hdecode hrecord.kind_eq, Option.any_some]
  rw [← hkind] at hadmitted ⊢
  exact (validRecord_of_typed t hadmitted hvalid hsame.symm).2

theorem typed_of_fits (h : AnyObject.decode b limits = .ok o) (hfits : bytesFit b = true) :
    ∃ t : TypedObject, t.kind = o.kind ∧ t.schemaVersion = o.schemaVersion ∧
      t.validate = .ok () ∧ t.encode = .ok b := by
  obtain ⟨m, hvalue, hdecode, hsupported, ⟨e, he⟩, hrecord⟩ := decode_eq_ok.mp h
  have hadmitted := admitted_of_decode hdecode he
  obtain ⟨-, hraw⟩ := Admitted.of_decodeCanonical hdecode
  rw [bytesFit, recordOf_of_decode hdecode hrecord.kind_eq, Option.any_some] at hfits
  obtain ⟨t, hkind, hschema, hvalid, heq⟩ :=
    typed_of_validRecord hsupported hadmitted hrecord hfits
  refine ⟨t, hkind, hschema, hvalid, TypedObject.encode_eq_ok.mpr ⟨hvalid, ?_⟩⟩
  rw [← encodeWithLimits_norm, ← heq, hkind, hadmitted.2, hraw]

/-- **Which admitted objects a writer could have encoded**: those whose wall
time fits an `i64` and whose release notes are an identifier. -/
theorem typed_iff_fits (h : AnyObject.decode b limits = .ok o) :
    (∃ t : TypedObject, t.kind = o.kind ∧ t.schemaVersion = o.schemaVersion ∧
      t.validate = .ok () ∧ t.encode = .ok b) ↔ bytesFit b = true := by
  constructor
  · rintro ⟨t, hkind, -, hvalid, henc⟩
    exact fits_of_typed h hkind hvalid henc
  · exact typed_of_fits h

omit [Unicode] in
theorem typed_iff_fits_chunk :
    letI := asciiUnicode
    ∃ o : AnyObject, AnyObject.decode sampleChunkBytes .bulk = .ok o ∧
      ((∃ t : TypedObject, t.kind = o.kind ∧ t.schemaVersion = o.schemaVersion ∧
        t.validate = .ok () ∧ t.encode = .ok sampleChunkBytes) ↔
        bytesFit sampleChunkBytes = true) := by
  let := asciiUnicode
  obtain ⟨o, ho⟩ : ∃ o, AnyObject.decode sampleChunkBytes .bulk = .ok o :=
    Except.isOk_iff.mp (by decide)
  exact ⟨o, ho, typed_iff_fits ho⟩

/-- A snapshot whose wall time is `2 ^ 63` seconds after the epoch. -/
def lateSnapshotBytes : Bytes :=
  Value.raw (.map
    [(0, .unsigned (code ObjectKind.snapshot)), (1, .unsigned 0), (2, samplePolicy.value),
      (3, oid sampleId), (4, .array []), (5, stable sampleStable), (6, stable sampleStable),
      (7, stable sampleStable), (8, .unsigned 0),
      (9, .map [(0, .unsigned (2 ^ 63)), (1, .unsigned 0)])])

omit [Unicode] in
theorem typed_none_lateSnapshot :
    letI := asciiUnicode
    ∃ o : AnyObject, AnyObject.decode lateSnapshotBytes .bulk = .ok o ∧
      ¬∃ t : TypedObject, t.kind = o.kind ∧ t.schemaVersion = o.schemaVersion ∧
        t.validate = .ok () ∧ t.encode = .ok lateSnapshotBytes := by
  let := asciiUnicode
  obtain ⟨o, ho⟩ : ∃ o, AnyObject.decode lateSnapshotBytes .bulk = .ok o :=
    Except.isOk_iff.mp (by decide +kernel)
  refine ⟨o, ho, ?_⟩
  rintro ⟨t, hkind, -, hvalid, henc⟩
  have hfits := fits_of_typed ho hkind hvalid henc
  have hlate : bytesFit lateSnapshotBytes = false := by decide +kernel
  rw [hlate] at hfits
  cases hfits

/-- **Which admitted objects have exactly the edges of their schema**: all
but the releases whose notes are there and are not an identifier. -/
theorem references_iff_readable (h : AnyObject.decode b limits = .ok o) :
    (∃ edges, o.references = .ok edges ∧ edges.Nodup ∧
      ∀ e, e ∈ edges ↔ ∃ f ∈ schemaFields o.kind, Carries o.value f e) ↔
      notesReadableIn b = true := by
  obtain ⟨m, hvalue, hdecode, hsupported, ⟨e, he⟩, hrecord⟩ := decode_eq_ok.mp h
  have hadmitted := admitted_of_decode hdecode he
  have hread : notesReadableIn b = notesReadable o.kind m := by
    simp [notesReadableIn, recordOf_of_decode hdecode hrecord.kind_eq]
  rw [hread]
  constructor
  · rintro ⟨edges, hedges, -, -⟩
    obtain ⟨es, hes, -⟩ := (references_eq_ok hvalue).mp hedges
    by_contra hnotes
    obtain ⟨kind, schema, value⟩ := o
    -- only a release can have unreadable notes, and then its own part fails
    cases kind with
    | release =>
        obtain ⟨as, has⟩ := concatEdges_part_ok hes (addEdge m 11 .releaseNotes (some .blob))
          (by simp [kindEdges])
        exact notesEdge_error (Bool.eq_false_iff.mpr hnotes) has
    | _ => exact hnotes rfl
  · intro hnotes
    obtain ⟨es, hes, hmem⟩ := references_part hsupported hadmitted hrecord hnotes
    obtain ⟨hnodup, hunique⟩ := uniqueEdges_spec es
    refine ⟨uniqueEdges es, (references_eq_ok hvalue).mpr ⟨es, hes, rfl⟩, hnodup, fun e => ?_⟩
    rw [hunique, hmem, hvalue]

omit [Unicode] in
theorem references_iff_readable_chunk :
    letI := asciiUnicode
    ∃ o : AnyObject, AnyObject.decode sampleChunkBytes .bulk = .ok o ∧
      ((∃ edges, o.references = .ok edges ∧ edges.Nodup ∧
        ∀ e, e ∈ edges ↔ ∃ f ∈ schemaFields o.kind, Carries o.value f e) ↔
        notesReadableIn sampleChunkBytes = true) := by
  let := asciiUnicode
  obtain ⟨o, ho⟩ : ∃ o, AnyObject.decode sampleChunkBytes .bulk = .ok o :=
    Except.isOk_iff.mp (by decide)
  exact ⟨o, ho, references_iff_readable ho⟩

/-- A release whose notes are `true`. -/
def oddReleaseBytes : Bytes :=
  Value.raw (.map
    [(0, .unsigned (code ObjectKind.release)), (1, .unsigned 0), (2, samplePolicy.value),
      (3, stable sampleStable), (4, .unsigned 0), (5, oid sampleId), (6, samplePolicy.value),
      (7, oid sampleId), (8, oid sampleId), (9, oid sampleId), (10, .text "1.0"),
      (11, .bool true), (12, .array []), (13, .array []), (14, .array []),
      (15, sampleTime.value),
      (16, .array [.map [(0, .unsigned (code SignatureAlgorithm.ed25519)),
        (1, stable sampleStable), (2, .bytes (toBeBytes 32 1)), (3, .bytes (toBeBytes 64 1)),
        (4, .unsigned (code SignaturePurpose.release))]])])

omit [Unicode] in
theorem references_none_oddRelease :
    letI := asciiUnicode
    ∃ o : AnyObject, AnyObject.decode oddReleaseBytes .bulk = .ok o ∧
      ¬∃ edges, o.references = .ok edges ∧ edges.Nodup ∧
        ∀ e, e ∈ edges ↔ ∃ f ∈ schemaFields o.kind, Carries o.value f e := by
  let := asciiUnicode
  obtain ⟨o, ho⟩ : ∃ o, AnyObject.decode oddReleaseBytes .bulk = .ok o :=
    Except.isOk_iff.mp (by decide +kernel)
  refine ⟨o, ho, ?_⟩
  rintro ⟨edges, hedges, -⟩
  have hread : (AnyObject.decode oddReleaseBytes .bulk >>= AnyObject.references).isOk = false := by
    decide +kernel
  rw [ho, Except.ok_bind, hedges] at hread
  cases hread

end Main

end RGit
