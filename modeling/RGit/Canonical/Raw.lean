/-
RGit/Canonical/Raw.lean

The encoder in closed form.

`Value.raw` is the encoding without any limit, a function of the value
alone; `Fits` collects every limit that does not count output bytes.  The
encoder succeeds exactly when the value fits and the output is short enough,
and then it appends the raw encoding (`encodeInto_eq_ok`).  Three facts that
the object layer needs follow at once:

* looser limits keep an encoding (`encodeWithLimits_mono`);
* the parts of an encodable value are encodable (`Fits.of_mem_array`,
  `Fits.of_mem_map`);
* the bytes of a fixed-shape record can be written down (`raw_map_sorted`).
-/
import Mathlib.Algebra.Order.BigOperators.Group.List
import RGit.Canonical.RoundTrip

namespace RGit

/-! ### Encodings without limits -/

mutual

/-- The canonical encoding of a value, limits aside. -/
def Value.raw : Value → Bytes
  | .unsigned n => headBytes 0 n.toNat
  | .signed n =>
      if 0 ≤ n.toInt then headBytes 0 n.toInt.toNat
      else headBytes 1 (-1 - n.toInt).toNat
  | .bytes b => headBytes 2 b.length ++ b
  | .text s => headBytes 3 (utf8Bytes s).length ++ utf8Bytes s
  | .array vs => headBytes 4 vs.length ++ rawList vs
  | .map es =>
      headBytes 5 es.length ++
        ((rawEntries es).insertionSort (fun a b => a.1 ≤ b.1)).flatMap (·.2)
  | .bool false => [0xf4]
  | .bool true => [0xf5]
  | .null => [0xf6]

def rawList : List Value → Bytes
  | [] => []
  | v :: vs => v.raw ++ rawList vs

def rawEntries : List (UInt64 × Value) → List (UInt64 × Bytes)
  | [] => []
  | (k, v) :: es => (k, headBytes 0 k.toNat ++ v.raw) :: rawEntries es

end

/-- One map entry: its key as an unsigned item, then its value. -/
def rawEntry (e : UInt64 × Value) : Bytes := headBytes 0 e.1.toNat ++ e.2.raw

theorem rawList_eq (vs : List Value) : rawList vs = vs.flatMap Value.raw := by
  induction vs with
  | nil => rfl
  | cons v vs ih => rw [rawList, ih, List.flatMap_cons]

theorem rawEntries_eq (es : List (UInt64 × Value)) :
    rawEntries es = es.map fun e => (e.1, rawEntry e) := by
  induction es with
  | nil => rfl
  | cons e es ih => obtain ⟨k, v⟩ := e; rw [rawEntries, ih]; rfl

theorem Value.raw_array (vs : List Value) :
    (Value.array vs).raw = headBytes 4 vs.length ++ vs.flatMap Value.raw := by
  rw [Value.raw, rawList_eq]

theorem Value.raw_map (es : List (UInt64 × Value)) :
    (Value.map es).raw = headBytes 5 es.length ++ (sortEntries es).flatMap rawEntry := by
  rw [Value.raw, rawEntries_eq, sortEntries,
    ← List.map_insertionSort (fun a b : UInt64 × Value => a.1 ≤ b.1) _
      (fun e => (e.1, rawEntry e)) es (fun _ _ _ _ => Iff.rfl), List.flatMap_map]

theorem raw_map_sorted {es : List (UInt64 × Value)} (h : SortedKeys es) :
    (Value.map es).raw = headBytes 5 es.length ++ es.flatMap rawEntry := by
  rw [Value.raw_map, sortEntries_of_sortedKeys h]

/-! ### The limits that do not count output bytes -/

section Fits

variable [Unicode]

/-- Every limit but the total size: depth, collections, strings, NFC, keys. -/
def Fits (limits : CanonicalLimits) : Nat → Value → Prop
  | 0, _ => False
  | _ + 1, .bytes b => b.length ≤ limits.maxByteStringBytes.toNat
  | _ + 1, .text s => isNfc s = true ∧ (utf8Bytes s).length ≤ limits.maxStringBytes.toNat
  | remaining + 1, .array vs =>
      vs.length ≤ limits.maxCollectionItems.toNat ∧ ∀ v ∈ vs, Fits limits remaining v
  | remaining + 1, .map es =>
      es.length ≤ limits.maxCollectionItems.toNat ∧ (es.map (·.1)).Nodup ∧
        ∀ e ∈ es, Fits limits remaining e.2
  | _ + 1, _ => True

variable {limits limits' : CanonicalLimits}

omit [Unicode] in
theorem nodup_iff_adjacentDuplicate (es : List (UInt64 × Value)) :
    (es.map (·.1)).Nodup ↔ adjacentDuplicate (sortEntries es) = false := by
  constructor
  · intro h
    have hsorted : ((sortEntries es).map (·.1)).Nodup :=
      ((sortEntries_perm es).map _).nodup_iff.mpr h
    rw [adjacentDuplicate, anyWindow_eq_false_iff]
    have hchain : (sortEntries es).Pairwise (fun a b => a.1 ≠ b.1) :=
      List.pairwise_map.mp hsorted
    exact hchain.isChain.imp (fun a b hab => by simpa using hab)
  · intro h
    exact ((sortEntries_perm es).map _).nodup_iff.mp (sortedKeys_sortEntries h).nodup

omit [Unicode] in
/-- The element loop appends the raw encodings, if every element fits. -/
theorem foldlM_encode {α : Type} {step : Bytes → α → Except CanonicalError Bytes}
    {fits : α → Prop} {raw : α → Bytes} {bound : Nat}
    (hstep : ∀ a out out', step out a = .ok out' ↔
      fits a ∧ out' = out ++ raw a ∧ (out ++ raw a).length ≤ bound) :
    ∀ {l : List α} {out out' : Bytes}, out.length ≤ bound →
      (l.foldlM step out = .ok out' ↔
        (∀ a ∈ l, fits a) ∧ out' = out ++ l.flatMap raw ∧
          (out ++ l.flatMap raw).length ≤ bound) := by
  intro l
  induction l with
  | nil =>
      intro out out' hout
      simp [hout, eq_comm]
  | cons a l ih =>
      intro out out' hout
      simp only [List.foldlM_cons, Except.bind_eq_ok, hstep, List.forall_mem_cons,
        List.flatMap_cons]
      constructor
      · rintro ⟨mid, ⟨ha, rfl, hmid⟩, h⟩
        obtain ⟨has, rfl, hlen⟩ := (ih hmid).mp h
        exact ⟨⟨ha, has⟩, by simp, by simpa using hlen⟩
      · rintro ⟨⟨ha, has⟩, rfl, hlen⟩
        have hmid : (out ++ raw a).length ≤ bound := by
          simp only [List.length_append] at hlen ⊢
          omega
        exact ⟨_, ⟨ha, rfl, hmid⟩, (ih hmid).mpr ⟨has, by simp, by simpa using hlen⟩⟩

omit [Unicode] in
theorem length_append_le_of_append {a b c : Bytes} {n : Nat}
    (h : (a ++ (b ++ c)).length ≤ n) : (a ++ b).length ≤ n := by
  simp only [List.length_append] at h ⊢
  omega

/-- **The encoder in closed form.** -/
theorem encodeInto_eq_ok : ∀ {remaining : Nat} {v : Value} {out out' : Bytes},
    encodeInto limits remaining v out = .ok out' ↔
      Fits limits remaining v ∧ out' = out ++ v.raw ∧
        (out ++ v.raw).length ≤ limits.maxBytes.toNat := by
  intro remaining
  induction remaining with
  | zero => intro v out out'; cases v <;> simp [encodeInto, Fits]
  | succ remaining ih =>
      intro v out out'
      cases v with
      | unsigned n => rw [encodeInto, pushHead_eq_ok]; simp [Fits, Value.raw]
      | signed n =>
          simp only [encodeInto, Fits, Value.raw, true_and]
          split <;> exact pushHead_eq_ok
      | bytes b =>
          simp only [encodeInto, gt_iff_lt, Except.ite_error_eq_ok, not_lt,
            Except.bind_eq_ok, pushHead_eq_ok, extend_eq_ok, Fits, Value.raw]
          refine and_congr_right fun _ => ⟨?_, ?_⟩
          · rintro ⟨mid, ⟨rfl, -⟩, rfl, hlen⟩
            exact ⟨List.append_assoc .., by simpa using hlen⟩
          · rintro ⟨rfl, hlen⟩
            refine ⟨_, ⟨rfl, ?_⟩, (List.append_assoc ..).symm, by simpa using hlen⟩
            simp only [List.length_append] at hlen ⊢
            omega
      | text s =>
          simp only [encodeInto, gt_iff_lt, Except.ite_error_eq_ok, not_lt,
            Except.bind_eq_ok, pushHead_eq_ok, extend_eq_ok, Fits, Value.raw,
            Bool.not_eq_true', Bool.not_eq_false, and_assoc]
          refine and_congr_right fun _ => and_congr_right fun _ => ⟨?_, ?_⟩
          · rintro ⟨mid, rfl, -, rfl, hlen⟩
            exact ⟨List.append_assoc .., by simpa using hlen⟩
          · rintro ⟨rfl, hlen⟩
            refine ⟨_, rfl, ?_, (List.append_assoc ..).symm, by simpa using hlen⟩
            simp only [List.length_append] at hlen ⊢
            omega
      | array vs =>
          have hitem : ∀ (v : Value) (out out' : Bytes),
              encodeInto limits remaining v out = .ok out' ↔
                Fits limits remaining v ∧ out' = out ++ v.raw ∧
                  (out ++ v.raw).length ≤ limits.maxBytes.toNat := fun _ _ _ => ih
          simp only [encodeInto, checkCollection, Except.bind_eq_ok, gt_iff_lt,
            Except.ite_error_eq_ok, not_lt, pushHead_eq_ok, Fits, Value.raw_array]
          constructor
          · rintro ⟨-, ⟨hvs, -⟩, mid, ⟨rfl, hhead⟩, hloop⟩
            obtain ⟨hfits, rfl, hlen⟩ := (foldlM_encode hitem hhead).mp hloop
            exact ⟨⟨hvs, hfits⟩, List.append_assoc .., by simpa using hlen⟩
          · rintro ⟨⟨hvs, hfits⟩, rfl, hlen⟩
            have hhead := length_append_le_of_append hlen
            refine ⟨(), ⟨hvs, trivial⟩, _, ⟨rfl, hhead⟩, ?_⟩
            refine (foldlM_encode hitem hhead).mpr ⟨hfits, ?_, ?_⟩
            · exact (List.append_assoc ..).symm
            · simpa using hlen
      | map es =>
          have hentry : ∀ (e : UInt64 × Value) (out out' : Bytes),
              (do let out ← pushHead out 0 e.1.toNat limits
                  encodeInto limits remaining e.2 out) = Except.ok out' ↔
                Fits limits remaining e.2 ∧ out' = out ++ rawEntry e ∧
                  (out ++ rawEntry e).length ≤ limits.maxBytes.toNat := by
            intro e out out'
            simp only [Except.bind_eq_ok, pushHead_eq_ok, ih, rawEntry]
            constructor
            · rintro ⟨mid, ⟨rfl, -⟩, hfits, rfl, hlen⟩
              exact ⟨hfits, List.append_assoc .., by simpa using hlen⟩
            · rintro ⟨hfits, rfl, hlen⟩
              exact ⟨_, ⟨rfl, length_append_le_of_append hlen⟩, hfits,
                (List.append_assoc ..).symm, by simpa using hlen⟩
          simp only [encodeInto, checkCollection, Except.bind_eq_ok, gt_iff_lt,
            Except.ite_error_eq_ok, not_lt, Fits, Value.raw_map,
            nodup_iff_adjacentDuplicate, Bool.not_eq_true]
          constructor
          · rintro ⟨-, ⟨hes, -⟩, mid, hmid, hdup, hloop⟩
            obtain ⟨rfl, hhead⟩ := pushHead_eq_ok.mp hmid
            obtain ⟨hfits, rfl, hlen⟩ := (foldlM_encode hentry hhead).mp
              (by simpa [Except.bind_eq_ok] using hloop)
            refine ⟨⟨hes, hdup, fun e he => ?_⟩, List.append_assoc .., by simpa using hlen⟩
            exact hfits e ((sortEntries_perm es).mem_iff.mpr he)
          · rintro ⟨⟨hes, hdup, hfits⟩, rfl, hlen⟩
            have hhead := length_append_le_of_append hlen
            refine ⟨(), ⟨hes, trivial⟩, _, pushHead_eq_ok.mpr ⟨rfl, hhead⟩, hdup, ?_⟩
            have hloop := (foldlM_encode hentry hhead (l := sortEntries es)).mpr
              ⟨fun e he => hfits e ((sortEntries_perm es).mem_iff.mp he),
                (List.append_assoc ..).symm, by simpa using hlen⟩
            simpa [Except.bind_eq_ok] using hloop
      | bool b => cases b <;> simp [encodeInto, extend_eq_ok, Fits, Value.raw]
      | null => simp [encodeInto, extend_eq_ok, Fits, Value.raw]

theorem encodeWithLimits_eq_ok {v : Value} {b : Bytes} :
    v.encodeWithLimits limits = .ok b ↔
      Fits limits (limits.maxDepth.toNat + 1) v ∧ b = v.raw ∧
        v.raw.length ≤ limits.maxBytes.toNat := by
  rw [Value.encodeWithLimits, encodeInto_eq_ok, List.nil_append]

/-! ### Comparing limits -/

/-- Every component of the first profile is at most that of the second. -/
structure CanonicalLimits.AtMost (limits limits' : CanonicalLimits) : Prop where
  bytes : limits.maxBytes ≤ limits'.maxBytes
  byteStrings : limits.maxByteStringBytes ≤ limits'.maxByteStringBytes
  strings : limits.maxStringBytes ≤ limits'.maxStringBytes
  depth : limits.maxDepth ≤ limits'.maxDepth
  items : limits.maxCollectionItems ≤ limits'.maxCollectionItems

omit [Unicode] in
theorem CanonicalLimits.restrictedBy_left (limits limits' : CanonicalLimits) :
    (limits.restrictedBy limits').AtMost limits :=
  ⟨min_le_left _ _, min_le_left _ _, min_le_left _ _, min_le_left _ _, min_le_left _ _⟩

omit [Unicode] in
theorem CanonicalLimits.restrictedBy_right (limits limits' : CanonicalLimits) :
    (limits.restrictedBy limits').AtMost limits' :=
  ⟨min_le_right _ _, min_le_right _ _, min_le_right _ _, min_le_right _ _, min_le_right _ _⟩

omit [Unicode] in
theorem CanonicalLimits.AtMost.trans {a b c : CanonicalLimits} (hab : a.AtMost b)
    (hbc : b.AtMost c) : a.AtMost c :=
  ⟨hab.bytes.trans hbc.bytes, hab.byteStrings.trans hbc.byteStrings,
    hab.strings.trans hbc.strings, hab.depth.trans hbc.depth, hab.items.trans hbc.items⟩

omit [Unicode] in
theorem CanonicalLimits.metadata_atMost_bulk : metadata.AtMost bulk := by
  constructor <;> decide

theorem Fits.mono (h : limits.AtMost limits') : ∀ {remaining remaining' : Nat} {v : Value},
    remaining ≤ remaining' → Fits limits remaining v → Fits limits' remaining' v := by
  intro remaining
  induction remaining with
  | zero => intro remaining' v _ hv; cases v <;> exact hv.elim
  | succ remaining ih =>
      intro remaining' v hle hv
      obtain ⟨next, rfl⟩ : ∃ next, remaining' = next + 1 := ⟨remaining' - 1, by omega⟩
      have hbs := UInt64.le_iff_toNat_le.mp h.byteStrings
      have hss := UInt64.le_iff_toNat_le.mp h.strings
      have his := UInt64.le_iff_toNat_le.mp h.items
      cases v with
      | bytes b => exact le_trans hv hbs
      | text s => exact ⟨hv.1, hv.2.trans hss⟩
      | array vs => exact ⟨hv.1.trans his, fun v hmem => ih (by omega) (hv.2 v hmem)⟩
      | map es =>
          exact ⟨hv.1.trans his, hv.2.1, fun e hmem => ih (by omega) (hv.2.2 e hmem)⟩
      | unsigned n => trivial
      | signed n => trivial
      | bool b => trivial
      | null => trivial

/-- Looser limits keep an encoding. -/
theorem encodeWithLimits_mono (h : limits.AtMost limits') {v : Value} {b : Bytes}
    (hb : v.encodeWithLimits limits = .ok b) : v.encodeWithLimits limits' = .ok b := by
  obtain ⟨hfits, hraw, hlen⟩ := encodeWithLimits_eq_ok.mp hb
  have hdepth := UInt64.le_iff_toNat_le.mp h.depth
  have hbytes := UInt64.le_iff_toNat_le.mp h.bytes
  exact encodeWithLimits_eq_ok.mpr ⟨hfits.mono h (by omega), hraw, by omega⟩

/-! ### Sizes -/

omit [Unicode] in
theorem length_headBytes_le (major n : Nat) : (headBytes major n).length ≤ 9 := by
  rw [length_headBytes, headArgument]
  split_ifs <;> simp

omit [Unicode] in
theorem length_raw_array (vs : List Value) :
    (Value.array vs).raw.length =
      (headBytes 4 vs.length).length + (vs.map fun v => v.raw.length).sum := by
  rw [Value.raw_array, List.length_append, List.length_flatMap]

omit [Unicode] in
theorem length_raw_map (es : List (UInt64 × Value)) :
    (Value.map es).raw.length =
      (headBytes 5 es.length).length + (es.map fun e => (rawEntry e).length).sum := by
  have hperm := (sortEntries_perm es).map fun e => (rawEntry e).length
  rw [Value.raw_map, List.length_append, List.length_flatMap, hperm.sum_nat]

omit [Unicode] in
theorem length_raw_unsigned_le (n : UInt64) : (Value.unsigned n).raw.length ≤ 9 :=
  length_headBytes_le 0 n.toNat

omit [Unicode] in
theorem length_raw_bytes_le (b : Bytes) : (Value.bytes b).raw.length ≤ b.length + 9 := by
  have hhead := length_headBytes_le 2 b.length
  rw [Value.raw, List.length_append]
  omega

omit [Unicode] in
/-- A map takes at most nine bytes more than its values, and nine more for
each key. -/
theorem length_raw_map_le (es : List (UInt64 × Value)) :
    (Value.map es).raw.length ≤ (es.map fun e => e.2.raw.length + 9).sum + 9 := by
  have hhead := length_headBytes_le 5 es.length
  have hentries : (es.map fun e => (rawEntry e).length).sum ≤
      (es.map fun e => e.2.raw.length + 9).sum := by
    refine List.sum_le_sum fun e _ => ?_
    have hkey := length_headBytes_le 0 e.1.toNat
    rw [rawEntry, List.length_append]
    omega
  rw [length_raw_map]
  omega

/-! ### The parts of an encodable value -/

theorem Fits.of_mem_array {remaining : Nat} {vs : List Value} {v : Value}
    (h : Fits limits remaining (.array vs)) (hv : v ∈ vs) :
    Fits limits (remaining - 1) v := by
  cases remaining with
  | zero => exact h.elim
  | succ remaining => exact h.2 v hv

theorem Fits.of_mem_map {remaining : Nat} {es : List (UInt64 × Value)} {e : UInt64 × Value}
    (h : Fits limits remaining (.map es)) (he : e ∈ es) :
    Fits limits (remaining - 1) e.2 := by
  cases remaining with
  | zero => exact h.elim
  | succ remaining => exact h.2.2 e he

omit [Unicode] in
theorem length_raw_le_array {vs : List Value} {v : Value} (hv : v ∈ vs) :
    v.raw.length ≤ (Value.array vs).raw.length := by
  have hsub : List.Sublist v.raw (vs.flatMap Value.raw) :=
    List.sublist_flatten_of_mem (List.mem_map_of_mem hv)
  rw [Value.raw_array, List.length_append]
  exact hsub.length_le.trans (Nat.le_add_left _ _)

omit [Unicode] in
theorem length_raw_le_map {es : List (UInt64 × Value)} {e : UInt64 × Value} (he : e ∈ es) :
    e.2.raw.length ≤ (Value.map es).raw.length := by
  have hmem : e ∈ sortEntries es := (sortEntries_perm es).mem_iff.mpr he
  have hsub : List.Sublist (rawEntry e) ((sortEntries es).flatMap rawEntry) :=
    List.sublist_flatten_of_mem (List.mem_map_of_mem hmem)
  have hentry : e.2.raw.length ≤ (rawEntry e).length := by
    rw [rawEntry, List.length_append]
    exact Nat.le_add_left _ _
  rw [Value.raw_map, List.length_append]
  exact hentry.trans (hsub.length_le.trans (Nat.le_add_left _ _))

end Fits

end RGit
