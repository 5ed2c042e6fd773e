/-
RGit/Objects/Manifests.lean

The identity of a directory.

A manifest writes its entries in the order of their canonical names, which
the decoder demands; so the bytes depend on the set of the entries alone, and
every part of an entry can be read back from them (`manifest_encode_eq_iff`).
-/
import RGit.Canonical.AtOnce
import RGit.Objects.Admission

namespace RGit

open CanonicalObject Decode

section Manifests

variable [Unicode]

/-! ### One entry -/

omit [Unicode] in
theorem ManifestTarget.parts_injective {s t : ManifestTarget} (h : s.parts = t.parts) : s = t := by
  have hmode : ∀ {a b : FileMode}, Discriminant.code a = Discriminant.code b → a = b :=
    Discriminant.code_injective (by decide)
  cases s with
  | file blob mode =>
      cases t with
      | file blob' mode' =>
          simp only [parts, Prod.mk.injEq, true_and, Option.some.injEq] at h
          obtain ⟨rfl, hcode⟩ := h
          rw [hmode hcode]
      | _ => simp [parts] at h
  | _ => cases t <;> simp_all [parts]

/-- An entry is read back from its record. -/
theorem ManifestEntry.norm_value_injective {limits : CanonicalLimits} {e e' : ManifestEntry}
    (he : Admitted limits e.value.norm) (h : e.value.norm = e'.value.norm) : e = e' := by
  obtain ⟨m, hm, ⟨h₀, h₁, h₂, h₄, h₃⟩, -⟩ := (manifestEntry_eq_norm_iff he).mp rfl
  obtain ⟨m', hm', ⟨h₀', h₁', h₂', h₄', h₃'⟩, -⟩ := (manifestEntry_eq_norm_iff he).mp h
  obtain rfl := Value.map.inj (hm.symm.trans hm')
  have hname : e.name = e'.name := by
    rw [h₀, Option.some.injEq, Value.text.injEq] at h₀'
    exact PathSegment.ext_value h₀'
  have htarget : e.target = e'.target := by
    rw [h₁, Option.some.injEq, Value.unsigned.injEq] at h₁'
    rw [h₂, Option.some.injEq, oid_inj] at h₂'
    have hmode : e.target.parts.2.2 = e'.target.parts.2.2 := by
      rw [h₃] at h₃'
      exact Option.map_injective (fun _ _ => Value.unsigned.inj) h₃'
    exact ManifestTarget.parts_injective (Prod.ext h₁' (Prod.ext h₂' hmode))
  have hpolicy : e.policyRef = e'.policyRef := by
    rwa [h₄, Option.some.injEq, policyRef_inj] at h₄'
  obtain ⟨name, target, policyRef⟩ := e
  obtain ⟨name', target', policyRef'⟩ := e'
  cases hname
  cases htarget
  cases hpolicy
  rfl

/-- Entries are read back from their records, in order. -/
theorem map_norm_value_injective {limits : CanonicalLimits} {es es' : List ManifestEntry}
    (hes : ∀ e ∈ es, Admitted limits e.value.norm)
    (h : es.map (fun e => e.value.norm) = es'.map fun e => e.value.norm) : es = es' := by
  induction es generalizing es' with
  | nil =>
      rw [List.map_nil, eq_comm, List.map_eq_nil_iff] at h
      exact h.symm
  | cons e es ih =>
      cases es' with
      | nil => cases h
      | cons e' es' =>
          rw [List.map_cons, List.map_cons, List.cons.injEq] at h
          obtain ⟨he, hes⟩ := List.forall_mem_cons.mp hes
          rw [ManifestEntry.norm_value_injective he h.1, ih hes h.2]

/-! ### The whole manifest -/

variable {o o' : Manifest}

theorem sortedEntries_perm (o : Manifest) : o.sortedEntries.Perm o.entries :=
  List.perm_insertionSort _ _

/-- The order of a valid manifest's entries does not matter. -/
theorem sortedEntries_congr (ho : validate o = .ok ()) (ho' : validate o' = .ok ())
    (h : ∀ e, e ∈ o.entries ↔ e ∈ o'.entries) : o.sortedEntries = o'.sortedEntries := by
  obtain ⟨-, hfolds⟩ := manifest_validate_iff.mp ho
  obtain ⟨-, hfolds'⟩ := manifest_validate_iff.mp ho'
  have hperm : o.entries.Perm o'.entries :=
    (List.perm_ext_iff_of_nodup (hfolds.of_map _) (hfolds'.of_map _)).mpr h
  have hsorted : o.sortedEntries.Perm o'.sortedEntries :=
    ((sortedEntries_perm o).trans hperm).trans (sortedEntries_perm o').symm
  refine hsorted.eq_of_pairwise ?_ (List.pairwise_map.mp (manifestOrder_sortedEntries hfolds))
    (List.pairwise_map.mp (manifestOrder_sortedEntries hfolds'))
  intro a b _ _ hab hba
  rw [Std.OrientedCmp.gt_of_lt hab] at hba
  cases hba

/-- What is read from the bytes of a manifest. -/
theorem manifest_encoded {b : Bytes} (h : encode o = .ok b) :
    ∃ m, AnyObject.decode b .bulk = .ok ⟨.manifest, 0, .map m⟩ ∧
      Admitted (kindLimits .manifest) (.map m) ∧ lookupKey m 2 = some o.policyRef.value ∧
      lookupKey m 3 = some (.array (o.sortedEntries.map fun e => e.value.norm)) := by
  obtain ⟨m, hm, hadmitted, -, -, -, hdecode⟩ := decode_encoded (t := .manifest o) h
  obtain ⟨⟨-, -, h₂, h₃⟩, -⟩ := (manifest_fields_iff hadmitted).mp hm
  exact ⟨m, hdecode, hadmitted, h₂, h₃⟩

theorem validate_of_encode {b : Bytes} (h : encode o = .ok b) : validate o = .ok () := by
  rw [encode] at h
  exact (Except.bind_unit_eq_ok.mp h).1

/-- **A directory has one identity**: two manifests have the same bytes exactly
when they have the same policy and the same entries, in whatever order.  The
bytes hold the entries in strictly increasing order of their canonical names. -/
theorem manifest_encode_eq_iff [Hashes] {o o' : Manifest} {b b' : Bytes} (h : encode o = .ok b)
    (h' : encode o' = .ok b') :
    (b = b' ↔ o.policyRef = o'.policyRef ∧ ∀ e, e ∈ o.entries ↔ e ∈ o'.entries) ∧
      (o.policyRef = o'.policyRef → (∀ e, e ∈ o.entries ↔ e ∈ o'.entries) →
        ∀ algorithm, CanonicalObject.id o algorithm = CanonicalObject.id o' algorithm) ∧
      ∃ (m : Entries) (es : List ManifestEntry),
        AnyObject.decode b .bulk = .ok ⟨.manifest, 0, .map m⟩ ∧
        lookupKey m 3 = some (.array (es.map fun e => e.value.norm)) ∧ es.Perm o.entries ∧
        es.Pairwise fun e f => compare e.name.canonicalBytes f.name.canonicalBytes = .lt := by
  have hvalid := validate_of_encode h
  have hvalid' := validate_of_encode h'
  obtain ⟨m, hdecode, hadmitted, h₂, h₃⟩ := manifest_encoded h
  obtain ⟨m', hdecode', -, h₂', h₃'⟩ := manifest_encoded h'
  have hencode : o.policyRef = o'.policyRef → (∀ e, e ∈ o.entries ↔ e ∈ o'.entries) →
      encode o = encode o' := by
    intro hpolicy hentries
    have hvalue : canonicalValue o = canonicalValue o' := by
      show Value.map (Manifest.fields o) = Value.map (Manifest.fields o')
      rw [Manifest.fields, Manifest.fields, hpolicy, sortedEntries_congr hvalid hvalid' hentries]
    rw [encode, encode, hvalue, hvalid, hvalid']
  refine ⟨⟨?_, ?_⟩, fun hpolicy hentries algorithm => ?_, ?_⟩
  · rintro rfl
    rw [hdecode] at hdecode'
    cases hdecode'
    constructor
    · rwa [h₂, Option.some.injEq, policyRef_inj] at h₂'
    · rw [h₃, Option.some.injEq, Value.array.injEq] at h₃'
      have hsame : o.sortedEntries = o'.sortedEntries :=
        map_norm_value_injective
          (fun e he => (hadmitted.of_lookup h₃).of_mem (List.mem_map_of_mem he)) h₃'
      intro e
      rw [← (sortedEntries_perm o).mem_iff, hsame, (sortedEntries_perm o').mem_iff]
  · rintro ⟨hpolicy, hentries⟩
    exact Except.ok.inj (h.symm.trans ((hencode hpolicy hentries).trans h'))
  · rw [CanonicalObject.id, CanonicalObject.id, hencode hpolicy hentries]
  · obtain ⟨-, hfolds⟩ := manifest_validate_iff.mp hvalid
    exact ⟨m, o.sortedEntries, hdecode, h₃, sortedEntries_perm o,
      List.pairwise_map.mp (manifestOrder_sortedEntries hfolds)⟩

end Manifests

section Sample

local instance manifestsUnicode : Unicode := asciiUnicode

def sampleEntry (name : String) (h : validateSegment name false = .ok ()) : ManifestEntry :=
  ⟨⟨name, h⟩, .file sampleId .regular, samplePolicy⟩

/-- A directory with the entries `b` and `aa`, in this order. -/
def shortFirst : Manifest := ⟨samplePolicy, [sampleEntry "b" (by decide), sampleEntry "aa" (by decide)]⟩

def longFirst : Manifest := ⟨samplePolicy, [sampleEntry "aa" (by decide), sampleEntry "b" (by decide)]⟩

theorem manifest_encode_eq_iff_reversed :
    ∃ b b', encode shortFirst = .ok b ∧ encode longFirst = .ok b' ∧ b = b' := by
  let := sampleChunkHashes
  have h : (encode shortFirst).isOk = true := by
    rw [encode, encodeWithLimits_eq_atOnce]
    decide +kernel
  have h' : (encode longFirst).isOk = true := by
    rw [encode, encodeWithLimits_eq_atOnce]
    decide +kernel
  obtain ⟨b, h⟩ := Except.isOk_iff.mp h
  obtain ⟨b', h'⟩ := Except.isOk_iff.mp h'
  refine ⟨b, b', h, h', (manifest_encode_eq_iff h h').1.mpr ⟨rfl, fun e => ?_⟩⟩
  simp [shortFirst, longFirst, or_comm]

end Sample

end RGit
