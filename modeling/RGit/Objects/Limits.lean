/-
RGit/Objects/Limits.lean

Which limits an object is read under.

`AnyObject::decode` parses under the bulk profile, since it does not know the
kind yet, and encodes the result again under the profile of the kind.  The
two together are one parse under the profile of the kind
(`decode_iff_kindLimits`), so looser limits accept more and accept it as the
same object (`decode_mono`).
-/
import RGit.Objects.Admission

namespace RGit

variable {limits limits' ceiling : CanonicalLimits} {b : Bytes}

theorem CanonicalLimits.AtMost.restrictedBy (h : limits.AtMost limits')
    (ceiling : CanonicalLimits) :
    (limits.restrictedBy ceiling).AtMost (limits'.restrictedBy ceiling) :=
  ⟨min_le_min_right _ h.bytes, min_le_min_right _ h.byteStrings, min_le_min_right _ h.strings,
    min_le_min_right _ h.depth, min_le_min_right _ h.items⟩

/-- A ceiling that is below another one is the only one that counts. -/
theorem CanonicalLimits.restrictedBy_restrictedBy (h : limits'.AtMost ceiling) :
    (limits.restrictedBy ceiling).restrictedBy limits' = limits.restrictedBy limits' := by
  simp only [CanonicalLimits.restrictedBy, min_assoc, min_eq_right h.bytes,
    min_eq_right h.byteStrings, min_eq_right h.strings, min_eq_right h.depth,
    min_eq_right h.items]

variable [Unicode] {o : AnyObject}

theorem decodeCanonical_mono (h : limits.AtMost limits') {v : Value}
    (hv : decodeCanonical b limits = .ok v) : decodeCanonical b limits' = .ok v := by
  obtain ⟨hnorm, henc⟩ := decodeCanonical_ok hv
  have hdecode := decodeCanonical_encode (encodeWithLimits_mono h henc)
  rwa [hnorm] at hdecode

/-- **One parse under the profile of the kind**, and the checks of the
schema. -/
theorem decode_iff_kindLimits :
    AnyObject.decode b limits = .ok o ↔
      ∃ m, o.value = .map m ∧
        decodeCanonical b ((limits.restrictedBy .bulk).restrictedBy (kindLimits o.kind)) =
          .ok (.map m) ∧
        o.kind.supportsSchema o.schemaVersion = true ∧
        ValidRecord o.kind o.schemaVersion m := by
  have hkind := kindLimits_atMost_bulk o.kind
  rw [decode_eq_ok, CanonicalLimits.restrictedBy_restrictedBy hkind]
  constructor
  · rintro ⟨m, hvalue, hread, hsupported, ⟨e, he⟩, hrecord⟩
    refine ⟨m, hvalue, ?_, hsupported, hrecord⟩
    obtain ⟨hnorm, henc⟩ := decodeCanonical_ok hread
    -- the two encodings differ in their limits only
    have hsame : e = b := by
      obtain ⟨-, rfl, -⟩ := encodeWithLimits_eq_ok.mp he
      obtain ⟨-, rfl, -⟩ := encodeWithLimits_eq_ok.mp henc
      rfl
    subst hsame
    have hdecode := decodeCanonical_encode he
    rwa [hnorm] at hdecode
  · rintro ⟨m, hvalue, hread, hsupported, hrecord⟩
    have hbulk : (limits.restrictedBy (kindLimits o.kind)).AtMost (limits.restrictedBy .bulk) := by
      rw [← CanonicalLimits.restrictedBy_restrictedBy hkind]
      exact CanonicalLimits.restrictedBy_left _ _
    exact ⟨m, hvalue, decodeCanonical_mono hbulk hread, hsupported,
      ⟨b, (decodeCanonical_ok hread).2⟩, hrecord⟩

/-- Looser limits read the same object. -/
theorem decode_mono (h : limits.AtMost limits') (hdecode : AnyObject.decode b limits = .ok o) :
    AnyObject.decode b limits' = .ok o := by
  obtain ⟨m, hvalue, hread, hsupported, hrecord⟩ := decode_iff_kindLimits.mp hdecode
  exact decode_iff_kindLimits.mpr ⟨m, hvalue,
    decodeCanonical_mono ((h.restrictedBy _).restrictedBy _) hread, hsupported, hrecord⟩

/-- What is read under any limits is read under those of its kind. -/
theorem decode_kindLimits (hdecode : AnyObject.decode b limits = .ok o) :
    AnyObject.decode b (kindLimits o.kind) = .ok o ∧
      b.length ≤ (kindLimits o.kind).maxBytes.toNat := by
  obtain ⟨m, hvalue, hread, hsupported, hrecord⟩ := decode_iff_kindLimits.mp hdecode
  have hread := decodeCanonical_mono (CanonicalLimits.restrictedBy_right _ _) hread
  have hself : ((kindLimits o.kind).restrictedBy .bulk).restrictedBy (kindLimits o.kind) =
      kindLimits o.kind := by
    cases o.kind <;> decide
  refine ⟨decode_iff_kindLimits.mpr ⟨m, hvalue, ?_, hsupported, hrecord⟩, ?_⟩
  · rwa [hself]
  · exact encodeWithLimits_length (decodeCanonical_ok hread).2

/-- `id` finds nothing to refuse in an object that was read. -/
theorem id_isOk_of_decode [Hashes] (hdecode : AnyObject.decode b limits = .ok o)
    (algorithm : HashAlgorithm) :
    o.id algorithm = .ok (ObjectId.fromPayload (Discriminant.code o.kind) o.schemaVersion b
      algorithm) := by
  obtain ⟨m, hvalue, hread, -⟩ := decode_iff_kindLimits.mp hdecode
  obtain ⟨-, henc⟩ := decodeCanonical_ok hread
  have henc := encodeWithLimits_mono (CanonicalLimits.restrictedBy_right _ _) henc
  rw [AnyObject.id, hvalue, henc]
  rfl

end RGit
