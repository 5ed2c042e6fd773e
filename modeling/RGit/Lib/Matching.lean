/-
RGit/Lib/Matching.lean

Greedy matching.

`greedy` gives each request the first unused candidate that answers it.  In
general that can miss an assignment; it cannot when candidates and requests
have signatures and answering means having the same one, because then any
two candidates for a request are as good as each other (`greedy_iff_perm`).

Nothing here mentions the modelled program.
-/
import Mathlib.Data.Fintype.EquivFin
import Mathlib.Data.List.FinRange
import Mathlib.Data.List.Perm.Basic

universe u

section Matching

variable {A S : Type u}

/-- The first candidate that is not used and answers. -/
def firstUnused (xs : List A) (used : List Nat) (holds : A → Bool) : Option Nat :=
  (xs.zipIdx.find? fun (x, i) => !used.contains i && holds x).map (·.2)

/-- Every request takes the first unused candidate that answers it. -/
def greedy (xs : List A) : List (A → Bool) → List Nat → Option (List Nat)
  | [], used => some used
  | holds :: requests, used =>
      (firstUnused xs used holds).bind fun i => greedy xs requests (i :: used)

/-- The candidates that are not used. -/
def unused (xs : List A) (used : List Nat) : List A :=
  (xs.zipIdx.filter fun (_, i) => !used.contains i).map (·.1)

variable {xs : List A} {used : List Nat} {holds : A → Bool}

theorem firstUnused_eq_none :
    firstUnused xs used holds = none ↔ ∀ x ∈ unused xs used, holds x = false := by
  rw [firstUnused, Option.map_eq_none_iff, List.find?_eq_none]
  constructor
  · intro h x hx
    obtain ⟨⟨y, i⟩, hp, rfl⟩ := List.mem_map.mp hx
    obtain ⟨hmem, hfree⟩ := List.mem_filter.mp hp
    have hnone := h (y, i) hmem
    simp only [hfree, Bool.true_and, Bool.not_eq_true] at hnone
    exact hnone
  · rintro h ⟨y, i⟩ hmem
    show ¬(!used.contains i && holds y) = true
    cases hfree : used.contains i with
    | true => simp
    | false =>
        have hfalse := h y (List.mem_map.mpr
          ⟨(y, i), List.mem_filter.mpr ⟨hmem, by simp only [hfree, Bool.not_false]⟩, rfl⟩)
        simp [hfalse]

theorem firstUnused_eq_some {i : Nat} (h : firstUnused xs used holds = some i) :
    i ∉ used ∧ ∃ x, xs[i]? = some x ∧ holds x = true := by
  obtain ⟨⟨x, j⟩, hfind, rfl⟩ := Option.map_eq_some_iff.mp h
  have hmem := List.mem_of_find?_eq_some hfind
  have htest := List.find?_some hfind
  simp only [Bool.and_eq_true, Bool.not_eq_true', List.contains_eq_mem, decide_eq_false_iff_not]
    at htest
  exact ⟨htest.1, x, List.mk_mem_zipIdx_iff_getElem?.mp hmem, htest.2⟩

/-- Using one more candidate takes it out of the unused ones. -/
theorem unused_perm {i : Nat} {x : A} (hi : i ∉ used) (hx : xs[i]? = some x) :
    (unused xs used).Perm (x :: unused xs (i :: used)) := by
  have hnodup : (xs.zipIdx.filter fun (_, j) => !used.contains j).Nodup := by
    refine List.Nodup.filter _ (List.Nodup.of_map (·.2) ?_)
    rw [List.zipIdx_map_snd]
    exact List.nodup_range'
  have hmem : (x, i) ∈ xs.zipIdx.filter fun (_, j) => !used.contains j := by
    refine List.mem_filter.mpr ⟨List.mk_mem_zipIdx_iff_getElem?.mpr hx, ?_⟩
    simp [hi]
  classical
  have herase : (xs.zipIdx.filter fun (_, j) => !used.contains j).erase (x, i) =
      xs.zipIdx.filter fun (_, j) => !(i :: used).contains j := by
    rw [hnodup.erase_eq_filter, List.filter_filter]
    refine List.filter_congr ?_
    rintro ⟨y, j⟩ hj
    have hpair : (y, j) = (x, i) ↔ j = i := by
      refine ⟨fun h => (Prod.mk.inj h).2, ?_⟩
      rintro rfl
      have hy := List.mk_mem_zipIdx_iff_getElem?.mp hj
      rw [hx] at hy
      rw [Option.some.inj hy]
    by_cases hji : j = i
    · obtain ⟨rfl, rfl⟩ := Prod.mk.inj (hpair.mpr hji)
      simp
    · have hne : ¬(y, j) = (x, i) := fun h => hji (hpair.mp h)
      simp [hji, hne]
  have hperm := (List.perm_cons_erase hmem).map (·.1)
  rw [herase] at hperm
  exact hperm

theorem length_unused (hnodup : used.Nodup) (hbound : ∀ i ∈ used, i < xs.length) :
    used.length + (unused xs used).length = xs.length := by
  induction used with
  | nil => simp [unused]
  | cons i used ih =>
      obtain ⟨hi, hnodup⟩ := List.nodup_cons.mp hnodup
      have hlt := hbound i List.mem_cons_self
      have hrest := ih hnodup fun j hj => hbound j (List.mem_cons_of_mem _ hj)
      have hperm := (unused_perm hi (List.getElem?_eq_getElem hlt)).length_eq
      rw [List.length_cons] at hperm ⊢
      omega

/-- What the greedy pass chose: a new candidate for each request. -/
theorem greedy_chosen {requests : List (A → Bool)} {used' : List Nat}
    (h : greedy xs requests used = some used') :
    ∃ chosen : List Nat, used' = chosen.reverse ++ used ∧
      List.Forall₂ (fun holds i => ∃ x, xs[i]? = some x ∧ holds x = true) requests chosen ∧
      (used.Nodup → used'.Nodup) := by
  induction requests generalizing used with
  | nil =>
      obtain rfl := Option.some.inj h
      exact ⟨[], rfl, .nil, id⟩
  | cons holds requests ih =>
      rw [greedy] at h
      obtain ⟨i, hfirst, h⟩ := Option.bind_eq_some_iff.mp h
      obtain ⟨hi, hholds⟩ := firstUnused_eq_some hfirst
      obtain ⟨chosen, rfl, hchosen, hnodup⟩ := ih h
      refine ⟨i :: chosen, by simp, .cons hholds hchosen, ?_⟩
      intro hused
      exact hnodup (List.nodup_cons.mpr ⟨hi, hused⟩)

/-- **With signatures the greedy pass finds an assignment when there is one.** -/
theorem greedy_iff_perm {sig : A → Option S} {requests : List (A → Bool)} {wanted : List S}
    (hsig : List.Forall₂ (fun holds r => ∀ a, holds a = true ↔ sig a = some r) requests wanted)
    (hnodup : used.Nodup) (hbound : ∀ i ∈ used, i < xs.length) :
    (∃ used', greedy xs requests used = some used' ∧ used'.length = xs.length) ↔
      (wanted.map some).Perm ((unused xs used).map sig) := by
  induction hsig generalizing used with
  | nil =>
      have hlength := length_unused hnodup hbound
      rw [List.map_nil, List.nil_perm, List.map_eq_nil_iff, ← List.length_eq_zero_iff]
      constructor
      · rintro ⟨used', h, hall⟩
        obtain rfl := Option.some.inj h
        omega
      · intro hzero
        exact ⟨used, rfl, by omega⟩
  | @cons holds r requests wanted hholds hrest ih =>
      rw [greedy, List.map_cons]
      cases hfirst : firstUnused xs used holds with
      | none =>
          constructor
          · rintro ⟨used', h, -⟩
            cases h
          · intro hperm
            obtain ⟨a, ha, hsiga⟩ := List.mem_map.mp (hperm.mem_iff.mp List.mem_cons_self)
            have hfalse := firstUnused_eq_none.mp hfirst a ha
            rw [(hholds a).mpr hsiga] at hfalse
            cases hfalse
      | some i =>
          obtain ⟨hi, x, hx, htrue⟩ := firstUnused_eq_some hfirst
          have hlt : i < xs.length := (List.getElem?_eq_some_iff.mp hx).1
          have hperm := (unused_perm hi hx).map sig
          rw [List.map_cons, (hholds x).mp htrue] at hperm
          rw [Option.bind_some, ih (List.nodup_cons.mpr ⟨hi, hnodup⟩) (by
            intro j hj
            rcases List.mem_cons.mp hj with rfl | hj
            · exact hlt
            · exact hbound j hj)]
          rw [hperm.congr_right, List.perm_cons]

/-! ### Assignments as bijections -/

theorem ofFn_perm_of_equiv {m n : Nat} (f : Fin m ≃ Fin n) (g : Fin n → S) :
    (List.ofFn (g ∘ f)).Perm (List.ofFn g) := by
  obtain rfl : m = n := by simpa using Fintype.card_congr f
  exact Equiv.Perm.ofFn_comp_perm f g

/-- The greedy pass uses every candidate exactly when requests and candidates
can be put in a bijection. -/
theorem greedy_iff_bijection {sig : A → Option S} {requests : List (A → Bool)} {wanted : List S}
    (hsig : List.Forall₂ (fun holds r => ∀ a, holds a = true ↔ sig a = some r) requests wanted) :
    (∃ used, greedy xs requests [] = some used ∧ used.length = xs.length) ↔
      ∃ f : Fin requests.length ≃ Fin xs.length, ∀ i, requests.get i (xs.get (f i)) = true := by
  constructor
  · rintro ⟨used, h, hall⟩
    obtain ⟨chosen, rfl, hchosen, hnodup⟩ := greedy_chosen h
    have hnodup' := hnodup List.nodup_nil
    rw [List.append_nil, List.nodup_reverse] at hnodup'
    rw [List.append_nil, List.length_reverse] at hall
    have hlength := hchosen.length_eq
    have hget : ∀ i : Fin requests.length, ∃ x, xs[chosen[i]]? = some x ∧ requests.get i x = true :=
      fun i => hchosen.get i.2 (hlength ▸ i.2)
    have hlt : ∀ i : Fin requests.length, chosen[i] < xs.length := by
      intro i
      obtain ⟨x, hx, -⟩ := hget i
      exact (List.getElem?_eq_some_iff.mp hx).1
    let f : Fin requests.length → Fin xs.length := fun i => ⟨chosen[i], hlt i⟩
    have hinjective : Function.Injective f := by
      intro i j hij
      have hsame : chosen[i] = chosen[j] := congrArg Fin.val hij
      exact Fin.ext ((List.Nodup.getElem_inj_iff hnodup').mp hsame)
    have hbijective : Function.Bijective f :=
      (Fintype.bijective_iff_injective_and_card f).mpr ⟨hinjective, by simp [hlength, hall]⟩
    refine ⟨Equiv.ofBijective f hbijective, fun i => ?_⟩
    obtain ⟨x, hx, htrue⟩ := hget i
    have hvalue : xs.get (f i) = x := (List.getElem?_eq_some_iff.mp hx).2
    rw [Equiv.ofBijective_apply, hvalue]
    exact htrue
  · rintro ⟨f, hf⟩
    refine (greedy_iff_perm hsig List.nodup_nil (by simp)).mpr ?_
    have hunused : unused xs [] = xs := by simp [unused]
    rw [hunused]
    have hwanted : wanted.map some = List.ofFn fun i : Fin requests.length => sig (xs.get (f i)) := by
      refine List.ext_getElem (by simp [hsig.length_eq]) fun i hi hi' => ?_
      rw [List.getElem_map, List.getElem_ofFn]
      rw [List.length_ofFn] at hi'
      exact ((hsig.get hi' (by simpa using hi) _).mp (hf ⟨i, hi'⟩)).symm
    have hxs : xs.map sig = List.ofFn fun i : Fin xs.length => sig (xs.get i) := by
      refine List.ext_getElem (by simp) fun i hi hi' => ?_
      rw [List.getElem_map, List.getElem_ofFn]
      rfl
    rw [hwanted, hxs]
    exact ofFn_perm_of_equiv f fun i => sig (xs.get i)

end Matching
