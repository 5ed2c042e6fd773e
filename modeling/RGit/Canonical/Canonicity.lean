/-
RGit/Canonical/Canonicity.lean

The decoder accepts one spelling of each value.

Its local checks (shortest heads, strictly increasing keys, the range of
negatives, normalized text, the limits) already force canonical bytes: what
it reads from the input is the raw encoding of the value it returns, and
that value fits the limits (`Decoder.value_reads`).  The comparison with the
re-encoded value at the end of `decode_canonical` therefore never fails.
-/
import RGit.Canonical.Raw

namespace RGit

/-! ### Reading a head -/

section Heads

variable {d d' : Decoder} {n : Nat}

theorem Decoder.byte_eq_ok {b : UInt8} : d.byte = .ok (b, d') ↔
    d.rest = b :: d'.rest ∧ d'.offset = d.offset + 1 := by
  obtain ⟨offset, rest⟩ := d
  obtain ⟨offset', rest'⟩ := d'
  cases rest with
  | nil => simp [Decoder.byte]
  | cons x rest =>
      simp only [Decoder.byte, Except.ok.injEq, Prod.mk.injEq, Decoder.mk.injEq, List.cons.injEq]
      constructor
      · rintro ⟨rfl, rfl, rfl⟩
        exact ⟨⟨rfl, rfl⟩, rfl⟩
      · rintro ⟨⟨rfl, rfl⟩, rfl⟩
        exact ⟨rfl, rfl, rfl⟩

/-- What `take` returns stood at the front of the input. -/
theorem Decoder.take_eq_ok {b : Bytes} (h : d.take n = .ok (b, d')) :
    d.rest = b ++ d'.rest ∧ b.length = n := by
  simp only [Decoder.take, Except.ite_error_eq_ok, Except.ok.injEq, Prod.mk.injEq] at h
  obtain ⟨-, hlen, rfl, rfl⟩ := h
  refine ⟨(List.take_append_drop n d.rest).symm, ?_⟩
  rw [List.length_take]
  omega

/-- A wide argument is the big-endian word of its value. -/
theorem Decoder.wideArgument_eq_ok {w bound : Nat} (h : d.wideArgument w bound = .ok (n, d')) :
    d.rest = toBeBytes w n ++ d'.rest ∧ bound < n ∧ n < 256 ^ w := by
  simp only [Decoder.wideArgument, Except.bind_eq_ok, Except.ite_error_eq_ok, Except.ok.injEq,
    Prod.mk.injEq] at h
  obtain ⟨⟨b, d₁⟩, htake, hbound, rfl, rfl⟩ := h
  obtain ⟨hrest, rfl⟩ := Decoder.take_eq_ok htake
  rw [toBeBytes_fromBeBytes]
  exact ⟨hrest, by omega, fromBeBytes_lt b⟩

/-- **Arguments are minimal.**  The additional information and the bytes that
follow are those of the shortest head. -/
theorem Decoder.argument_eq_ok {additional : Nat} (h : d.argument additional = .ok (n, d')) :
    additional = headInfo n ∧ d.rest = headArgument n ++ d'.rest := by
  unfold Decoder.argument at h
  unfold headInfo headArgument
  split_ifs at h with h₁ h₂ h₃ h₄ h₅
  · cases h
    simp [h₁]
  · simp only [Except.bind_eq_ok, Except.ite_error_eq_ok, Except.ok.injEq, Prod.mk.injEq] at h
    obtain ⟨⟨b, d₁⟩, hbyte, hmin, rfl, rfl⟩ := h
    obtain ⟨hrest, -⟩ := Decoder.byte_eq_ok.mp hbyte
    have hlt := b.toNat_lt
    simp only at hmin ⊢
    rw [if_neg (by omega), if_pos (by omega), if_neg (by omega), if_pos (by omega)]
    exact ⟨h₂, by simpa using hrest⟩
  all_goals
    obtain ⟨hrest, hmin, hlt⟩ := Decoder.wideArgument_eq_ok h
    norm_num at hmin hlt
    split_ifs <;> first | omega | exact ⟨by assumption, hrest⟩

/-- The initial byte and the argument are one head. -/
theorem Decoder.head_eq_ok {initial : UInt8} (h : d.argument (initial.toNat % 32) = .ok (n, d')) :
    initial :: d.rest = headBytes (initial.toNat / 32) n ++ d'.rest := by
  obtain ⟨hinfo, hrest⟩ := Decoder.argument_eq_ok h
  have hinitial : UInt8.ofNat (initial.toNat / 32 * 32 + headInfo n) = initial := by
    rw [← hinfo, Nat.div_add_mod', UInt8.ofNat_toNat]
  rw [headBytes, hinitial, hrest, List.cons_append]

theorem Decoder.boundedLength_eq_ok {additional limit : Nat} {e : CanonicalError} :
    d.boundedLength additional limit e = .ok (n, d') ↔
      d.argument additional = .ok (n, d') ∧ n ≤ limit := by
  simp only [Decoder.boundedLength, Except.bind_eq_ok, Except.ite_error_eq_ok, Except.ok.injEq]
  constructor
  · rintro ⟨⟨n, d₁⟩, harg, hle, heq⟩
    cases heq
    exact ⟨harg, by omega⟩
  · rintro ⟨harg, hle⟩
    exact ⟨_, harg, by simpa using hle, rfl⟩

end Heads

/-! ### Reading a value -/

section Canonicity

variable [Unicode] {limits : CanonicalLimits}

/-- A reader that consumes the encoding of what it returns. -/
def ReadsRaw (limits : CanonicalLimits) (remaining : Nat)
    (read : Decoder → Except CanonicalError (Value × Decoder)) : Prop :=
  ∀ d d' v, read d = .ok (v, d') → d.rest = v.raw ++ d'.rest ∧ Fits limits remaining v

theorem Decoder.repeatValue_reads {remaining : Nat}
    {read : Decoder → Except CanonicalError (Value × Decoder)}
    (hread : ReadsRaw limits remaining read) :
    ∀ {n : Nat} {d d' : Decoder} {vs : List Value},
      Decoder.repeatValue read n d = .ok (vs, d') →
      vs.length = n ∧ d.rest = vs.flatMap Value.raw ++ d'.rest ∧
        ∀ v ∈ vs, Fits limits remaining v := by
  intro n
  induction n with
  | zero =>
      intro d d' vs h
      cases h
      simp
  | succ n ih =>
      intro d d' vs h
      simp only [Decoder.repeatValue, Except.bind_eq_ok] at h
      obtain ⟨⟨v, d₁⟩, hv, ⟨ws, d₂⟩, hws, heq⟩ := h
      cases heq
      obtain ⟨hrest, hfits⟩ := hread _ _ _ hv
      obtain ⟨rfl, hrest', hall⟩ := ih hws
      refine ⟨rfl, ?_, List.forall_mem_cons.mpr ⟨hfits, hall⟩⟩
      rw [hrest, hrest', List.flatMap_cons, List.append_assoc]

theorem Decoder.repeatEntry_reads {remaining : Nat}
    {read : Decoder → Except CanonicalError (Value × Decoder)}
    (hread : ReadsRaw limits remaining read) :
    ∀ {n : Nat} {previous : Option Nat} {d d' : Decoder} {es : List (UInt64 × Value)},
      Decoder.repeatEntry read n previous d = .ok (es, d') →
      es.length = n ∧ d.rest = es.flatMap rawEntry ++ d'.rest ∧
        ∀ e ∈ es, Fits limits remaining e.2 := by
  intro n
  induction n with
  | zero =>
      intro previous d d' es h
      cases h
      simp
  | succ n ih =>
      intro previous d d' es h
      simp only [Decoder.repeatEntry, Except.bind_eq_ok, Except.ite_error_eq_ok] at h
      obtain ⟨⟨b, d₁⟩, hb, hmajor, ⟨k, d₂⟩, hk, -, ⟨v, d₃⟩, hv, ⟨fs, d₄⟩, hfs, heq⟩ := h
      cases heq
      obtain ⟨hbyte, -⟩ := Decoder.byte_eq_ok.mp hb
      have hkey := Decoder.head_eq_ok hk
      obtain ⟨hrest, hfits⟩ := hread _ _ _ hv
      obtain ⟨rfl, hrest', hall⟩ := ih hfs
      refine ⟨rfl, ?_, List.forall_mem_cons.mpr ⟨hfits, hall⟩⟩
      -- the key is one unsigned head, whose argument is a `u64`
      have hentry : rawEntry (UInt64.ofNat k, v) = headBytes 0 k ++ v.raw := by
        rw [rawEntry, UInt64.toNat_ofNat', Nat.mod_eq_of_lt (Decoder.argument_lt hk)]
      rw [not_not.mp hmajor] at hkey
      rw [hbyte, hkey, hrest, hrest', List.flatMap_cons, hentry]
      simp only [List.append_assoc]

/-- **What the decoder reads is the encoding of what it returns.** -/
theorem Decoder.value_reads : ∀ remaining : Nat,
    ReadsRaw limits remaining (Decoder.value limits remaining) := by
  intro remaining
  induction remaining with
  | zero =>
      intro d d' v h
      cases h
  | succ remaining ih =>
      intro d d' v h
      simp only [Decoder.value, Except.bind_eq_ok] at h
      obtain ⟨⟨initial, d₁⟩, hinitial, h⟩ := h
      obtain ⟨hbyte, -⟩ := Decoder.byte_eq_ok.mp hinitial
      rw [hbyte]
      simp only at h ⊢
      generalize hmajor : initial.toNat / 32 = major at h
      -- one case for each major type; each starts with a head
      have hhead : ∀ {n : Nat} {d₂ : Decoder},
          d₁.argument (initial.toNat % 32) = .ok (n, d₂) →
            initial :: d₁.rest = headBytes major n ++ d₂.rest := fun harg => by
        rw [← hmajor]
        exact Decoder.head_eq_ok harg
      simp only [Decoder.item] at h
      split at h
      · obtain ⟨⟨n, d₂⟩, harg, heq⟩ := Except.bind_eq_ok.mp h
        cases heq
        refine ⟨?_, trivial⟩
        rw [hhead harg, Value.raw, UInt64.toNat_ofNat', Nat.mod_eq_of_lt (Decoder.argument_lt harg)]
      · simp only [Except.bind_eq_ok, Except.ite_error_eq_ok] at h
        obtain ⟨⟨n, d₂⟩, harg, hn, heq⟩ := h
        cases heq
        have hneg : (Int64.ofInt (-1 - n)).toInt = -1 - n :=
          Int64.toInt_ofInt_of_le (by simp only at hn; omega) (by omega)
        refine ⟨?_, trivial⟩
        rw [hhead harg, Value.raw, hneg, if_neg (by omega)]
        congr 3
        omega
      · simp only [Except.bind_eq_ok] at h
        obtain ⟨⟨n, d₂⟩, hlen, ⟨b, d₃⟩, htake, heq⟩ := h
        cases heq
        obtain ⟨harg, hle⟩ := Decoder.boundedLength_eq_ok.mp hlen
        obtain ⟨hrest, rfl⟩ := Decoder.take_eq_ok htake
        refine ⟨?_, hle⟩
        rw [hhead harg, hrest, Value.raw, List.append_assoc]
      · simp only [Except.bind_eq_ok] at h
        obtain ⟨⟨n, d₂⟩, hlen, ⟨b, d₃⟩, htake, h⟩ := h
        obtain ⟨harg, hle⟩ := Decoder.boundedLength_eq_ok.mp hlen
        obtain ⟨hrest, rfl⟩ := Decoder.take_eq_ok htake
        split at h
        · cases h
        next s hs =>
          obtain ⟨hnfc, heq⟩ := Except.ite_error_eq_ok.mp h
          cases heq
          have hutf8 : utf8Bytes s = b := utf8Bytes_of_fromUtf8 hs
          refine ⟨?_, by simpa using hnfc, hutf8 ▸ hle⟩
          rw [hhead harg, hrest, Value.raw, hutf8, List.append_assoc]
      · simp only [Except.bind_eq_ok] at h
        obtain ⟨⟨n, d₂⟩, hlen, ⟨vs, d₃⟩, hvs, heq⟩ := h
        cases heq
        obtain ⟨harg, hle⟩ := Decoder.boundedLength_eq_ok.mp hlen
        obtain ⟨rfl, hrest, hfits⟩ := Decoder.repeatValue_reads ih hvs
        refine ⟨?_, hle, hfits⟩
        rw [hhead harg, hrest, Value.raw_array, List.append_assoc]
      · simp only [Except.bind_eq_ok] at h
        obtain ⟨⟨n, d₂⟩, hlen, ⟨es, d₃⟩, hes, heq⟩ := h
        cases heq
        obtain ⟨harg, hle⟩ := Decoder.boundedLength_eq_ok.mp hlen
        obtain ⟨rfl, hrest, hfits⟩ := Decoder.repeatEntry_reads ih hes
        obtain ⟨hsorted, -, -⟩ := Decoder.repeatEntry_norm Decoder.value_norm hes
        refine ⟨?_, hle, hsorted.nodup, hfits⟩
        rw [hhead harg, hrest, raw_map_sorted hsorted, List.append_assoc]
      · -- the three simple values are single bytes
        have hsimple : ∀ {k : Nat}, initial.toNat % 32 = k → initial = UInt8.ofNat (7 * 32 + k) := by
          rintro k rfl
          rw [← hmajor, Nat.div_add_mod', UInt8.ofNat_toNat]
        split_ifs at h with h₁ h₂ h₃
        · cases h
          exact ⟨by rw [hsimple h₁]; rfl, trivial⟩
        · cases h
          exact ⟨by rw [hsimple h₂]; rfl, trivial⟩
        · cases h
          exact ⟨by rw [hsimple h₃]; rfl, trivial⟩
      · cases h

/-- The encoding of a value that was read is the input it was read from. -/
theorem encodeWithLimits_of_value {b : Bytes} {v : Value} {d : Decoder}
    (hlen : b.length ≤ limits.maxBytes.toNat)
    (hread : Decoder.value limits (limits.maxDepth.toNat + 1) ⟨0, b⟩ = .ok (v, d))
    (hend : d.rest = []) : v.encodeWithLimits limits = .ok b := by
  obtain ⟨hrest, hfits⟩ := Decoder.value_reads _ _ _ _ hread
  have hraw : b = v.raw := by
    rw [hend, List.append_nil] at hrest
    exact hrest
  exact encodeWithLimits_eq_ok.mpr ⟨hfits, hraw, hraw ▸ hlen⟩

/-! ### Both directions -/

/-- `decode_canonical` without the comparison at its end. -/
def parseWhole (input : Bytes) (limits : CanonicalLimits) : Except CanonicalError Value := do
  if input.length > limits.maxBytes.toNat then .error .sizeLimit
  else
    let (v, d) ← Decoder.value limits (limits.maxDepth.toNat + 1) ⟨0, input⟩
    if d.rest ≠ [] then .error .trailingBytes else .ok v

theorem decodeCanonical_eq_parseWhole (b : Bytes) : decodeCanonical b limits = parseWhole b limits := by
  unfold decodeCanonical parseWhole
  split
  · rfl
  next hlen =>
    cases hread : Decoder.value limits (limits.maxDepth.toNat + 1) ⟨0, b⟩ with
    | error e => rfl
    | ok p =>
        obtain ⟨v, d⟩ := p
        simp only [Except.ok_bind]
        split
        · rfl
        next hend =>
          rw [encodeWithLimits_of_value (by omega) hread (not_not.mp hend)]
          simp

/-- **Encode, then decode.**  What encodes under `limits` is read back under
`limits`, with its maps sorted and its non-negative numbers unsigned. -/
theorem canonical_roundTrip (limits : CanonicalLimits) (v : Value) (b : Bytes)
    (h : v.encodeWithLimits limits = .ok b) : decodeCanonical b limits = .ok v.norm :=
  decodeCanonical_encode h

/-- **One spelling for each value.**  What the decoder reads to the end of the
input encodes to that input; the comparison at the end of `decode_canonical`
refuses nothing; and equal values come from equal bytes. -/
theorem canonical_spelling (limits : CanonicalLimits) (b : Bytes) :
    (b.length ≤ limits.maxBytes.toNat → ∀ v d,
      Decoder.value limits (limits.maxDepth.toNat + 1) ⟨0, b⟩ = .ok (v, d) → d.rest = [] →
        v.encodeWithLimits limits = .ok b) ∧
    decodeCanonical b limits = parseWhole b limits ∧
    ∀ limits' b' v, decodeCanonical b limits = .ok v → decodeCanonical b' limits' = .ok v →
      b = b' := by
  refine ⟨fun hlen v d => encodeWithLimits_of_value hlen, decodeCanonical_eq_parseWhole b, ?_⟩
  intro limits' b' v h h'
  obtain ⟨-, henc⟩ := decodeCanonical_ok h
  obtain ⟨-, henc'⟩ := decodeCanonical_ok h'
  rw [(encodeWithLimits_eq_ok.mp henc).2.1, (encodeWithLimits_eq_ok.mp henc').2.1]

end Canonicity

/-- A map out of order, with a number of each sign. -/
def unsortedMap : Value := .map [(300, .signed 5), (1, .array [.signed (-2), .null])]

theorem canonical_roundTrip_unsortedMap :
    letI : Unicode := ⟨id, id⟩
    unsortedMap.encodeWithLimits .metadata = .ok [0xa2, 1, 0x82, 0x21, 0xf6, 0x19, 1, 44, 5] ∧
      decodeCanonical [0xa2, 1, 0x82, 0x21, 0xf6, 0x19, 1, 44, 5] .metadata =
        .ok unsortedMap.norm :=
  letI : Unicode := ⟨id, id⟩
  have h : unsortedMap.encodeWithLimits .metadata =
      .ok [0xa2, 1, 0x82, 0x21, 0xf6, 0x19, 1, 44, 5] := by decide
  ⟨h, canonical_roundTrip .metadata unsortedMap _ h⟩

theorem canonical_spelling_negative :
    letI : Unicode := ⟨id, id⟩
    (Value.map [(1, .signed (-3))]).encodeWithLimits .metadata = .ok [0xa1, 1, 0x22] :=
  letI : Unicode := ⟨id, id⟩
  (canonical_spelling .metadata [0xa1, 1, 0x22]).1 (by decide) _ ⟨3, []⟩
    rfl rfl

end RGit
