/-
RGit/Canonical/AtOnce.lean

Encoding at once.

`Value::encode_into` compares the size with its limit at every item, and what is
written so far is a nest of appends: to run it on a sample object takes a number
of steps that is quadratic in the encoding.  `encodeAtOnce` takes the raw encoding and compares its
length once; where that is not what the encoder returns it runs the encoder, so
the two are one function (`encodeWithLimits_eq_atOnce`).  A sample is run with
the encoder replaced.
-/
import RGit.Canonical.Canonicity

namespace RGit

variable [Unicode] {limits : CanonicalLimits}

/-- `Fits`, as a check. -/
def fitsCheck (limits : CanonicalLimits) : Nat → Value → Bool
  | 0, _ => false
  | _ + 1, .bytes b => b.length ≤ limits.maxByteStringBytes.toNat
  | _ + 1, .text s => isNfc s && (utf8Bytes s).length ≤ limits.maxStringBytes.toNat
  | remaining + 1, .array vs =>
      vs.length ≤ limits.maxCollectionItems.toNat && vs.all (fitsCheck limits remaining)
  | remaining + 1, .map es =>
      es.length ≤ limits.maxCollectionItems.toNat && decide (es.map (·.1)).Nodup &&
        es.all fun e => fitsCheck limits remaining e.2
  | _ + 1, _ => true

theorem fitsCheck_iff : ∀ {remaining : Nat} {v : Value},
    fitsCheck limits remaining v = true ↔ Fits limits remaining v := by
  intro remaining
  induction remaining with
  | zero =>
      intro v
      cases v <;> simp [fitsCheck, Fits]
  | succ remaining ih =>
      intro v
      cases v <;> simp [fitsCheck, Fits, ih, and_assoc]

/-- The raw encoding where it is the encoding; otherwise the encoder is run. -/
def Value.encodeAtOnce (v : Value) (limits : CanonicalLimits) : Except CanonicalError Bytes :=
  if fitsCheck limits (limits.maxDepth.toNat + 1) v && v.raw.length ≤ limits.maxBytes.toNat then
    .ok v.raw
  else v.encodeWithLimits limits

theorem encodeWithLimits_eq_atOnce : Value.encodeWithLimits = Value.encodeAtOnce := by
  funext v limits
  rw [Value.encodeAtOnce]
  split
  next h =>
    simp only [Bool.and_eq_true, fitsCheck_iff, decide_eq_true_eq] at h
    exact encodeWithLimits_eq_ok.mpr ⟨h.1, rfl, h.2⟩
  next => rfl

/-- What is read is canonical, so that it need not be encoded again. -/
theorem decodeCanonical_eq_atOnce : decodeCanonical = parseWhole := by
  funext b limits
  exact decodeCanonical_eq_parseWhole b

end RGit
