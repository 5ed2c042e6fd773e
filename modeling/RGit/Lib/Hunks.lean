/-
RGit/Lib/Hunks.lean

Hunks of a sequence: ranges of positions with a replacement each.

`applied` says position by position what a set of hunks makes of a sequence.
A list of hunks in which each is clear of the next (`Hunk.Before`) can be
spliced in one pass from the left, and the pass computes `applied`
(`splice_eq_applied`).  In a sorted list, being clear of the next one is the
same as no two distinct hunks clashing (`isChain_before_iff`).

Nothing here mentions the modelled program.
-/
import Mathlib.Data.List.Basic
import Mathlib.Data.List.Range

universe u

/-- Replace the elements from `start` to `stop` by `text`. -/
structure Hunk (α : Type u) where
  start : ℕ
  stop : ℕ
  text : α
  deriving DecidableEq

namespace Hunk

variable {α : Type u}

/-- The range is one. -/
def Valid (h : Hunk α) : Prop := h.start ≤ h.stop

/-- Two hunks overlap, or touch where one of them is an insertion. -/
def Clash (a b : Hunk α) : Prop :=
  (a.start < b.stop ∧ b.start < a.stop) ∨
    ((a.stop = b.start ∨ b.stop = a.start) ∧ (a.start = a.stop ∨ b.start = b.stop))

/-- `a` ends where `b` starts or earlier, with nothing inserted where they touch. -/
def Before (a b : Hunk α) : Prop :=
  a.stop ≤ b.start ∧ (a.stop = b.start → a.start ≠ a.stop ∧ b.start ≠ b.stop)

theorem Before.trans {a b c : Hunk α} (hb : b.Valid) (hab : a.Before b) (hbc : b.Before c) :
    a.Before c := by
  obtain ⟨hab, hab'⟩ := hab
  obtain ⟨hbc, hbc'⟩ := hbc
  unfold Valid at hb
  refine ⟨by omega, fun h => ?_⟩
  have hb' := hab' (by omega)
  omega

theorem Before.start_lt {a b : Hunk α} (ha : a.Valid) (h : a.Before b) : a.start < b.start := by
  obtain ⟨hle, htouch⟩ := h
  unfold Valid at ha
  by_contra hge
  exact (htouch (by omega)).1 (by omega)

theorem Before.not_clash {a b : Hunk α} (ha : a.Valid) (hb : b.Valid) (h : a.Before b) :
    ¬a.Clash b := by
  obtain ⟨hle, htouch⟩ := h
  unfold Valid at ha hb
  rintro (⟨-, hlt⟩ | ⟨hab | hba, hempty⟩)
  · omega
  · have := htouch hab
    omega
  · have := htouch (by omega)
    omega

theorem Clash.symm {a b : Hunk α} (h : a.Clash b) : b.Clash a := by
  rcases h with ⟨h, h'⟩ | ⟨h, h'⟩
  · exact .inl ⟨h', h⟩
  · exact .inr ⟨h.symm, h'.symm⟩

/-- Hunks that start together clash. -/
theorem clash_of_start_eq {a b : Hunk α} (ha : a.Valid) (hb : b.Valid)
    (h : a.start = b.start) : a.Clash b := by
  unfold Valid at ha hb
  by_cases hempty : a.start = a.stop ∨ b.start = b.stop
  · exact .inr ⟨by omega, hempty⟩
  · exact .inl (by omega)

/-- Of two hunks that do not clash, the one that sorts first is clear of the other. -/
theorem before_of_not_clash {a b : Hunk α} (hb : b.Valid)
    (hle : a.start < b.start ∨ (a.start = b.start ∧ a.stop ≤ b.stop)) (h : ¬a.Clash b) :
    a.Before b := by
  unfold Valid at hb
  simp only [Clash, not_or, not_and] at h
  obtain ⟨hover, htouch⟩ := h
  have hstop : a.stop ≤ b.start := by
    by_contra hlt
    exact hover (by omega) (by omega)
  refine ⟨hstop, fun heq => ?_⟩
  have := htouch (.inl heq)
  omega

theorem pairwise_of_isChain {l : List (Hunk α)} (hvalid : ∀ h ∈ l, h.Valid)
    (hchain : l.IsChain Before) : l.Pairwise Before := by
  induction l with
  | nil => exact .nil
  | cons a l ih =>
      have hrest := ih (fun h hh => hvalid h (List.mem_cons_of_mem _ hh)) hchain.tail
      cases l with
      | nil => exact List.pairwise_singleton _ _
      | cons b l =>
          have hab : a.Before b := (List.isChain_cons_cons.mp hchain).1
          refine List.pairwise_cons.mpr ⟨fun c hc => ?_, hrest⟩
          rcases List.mem_cons.mp hc with rfl | hc
          · exact hab
          · exact hab.trans (hvalid b (by simp)) ((List.pairwise_cons.mp hrest).1 c hc)

/-- In a sorted list, clear of the next one and free of clashes are the same. -/
theorem isChain_before_iff {l : List (Hunk α)} (hvalid : ∀ h ∈ l, h.Valid)
    (hsorted : l.Pairwise fun a b =>
      a ≠ b ∧ (a.start < b.start ∨ (a.start = b.start ∧ a.stop ≤ b.stop))) :
    l.IsChain Before ↔ ∀ a ∈ l, ∀ b ∈ l, a ≠ b → ¬a.Clash b := by
  constructor
  · intro hchain a ha b hb hne
    have hclear : l.Pairwise fun a b => ¬a.Clash b :=
      (pairwise_of_isChain hvalid hchain).imp_of_mem fun ha hb h =>
        h.not_clash (hvalid _ ha) (hvalid _ hb)
    have hsymm : Std.Symm fun a b : Hunk α => ¬a.Clash b :=
      ⟨fun _ _ h hclash => h hclash.symm⟩
    exact hclear.forall ha hb hne
  · intro h
    refine List.Pairwise.isChain (hsorted.imp_of_mem fun {a b} ha hb hab => ?_)
    exact before_of_not_clash (hvalid b hb) hab.2 (h a ha b hb hab.1)

/-! ### Applying hunks -/

section Apply

variable (lines : List α)

/-- The replacement that starts at a position. -/
def textAt (hunks : List (Hunk α)) (i : ℕ) : List α :=
  ((hunks.find? fun h => h.start == i).map (·.text)).toList

/-- The element at a position, unless a hunk covers it. -/
def keptAt (hunks : List (Hunk α)) (i : ℕ) : List α :=
  if hunks.any fun h => h.start ≤ i && i < h.stop then [] else lines[i]?.toList

/-- A sequence with a set of hunks applied, position by position from `k`. -/
def appliedFrom (k : ℕ) (hunks : List (Hunk α)) : List α :=
  (List.range' k (lines.length + 1 - k)).flatMap fun i => textAt hunks i ++ keptAt lines hunks i

/-- A sequence with a set of hunks applied. -/
def applied (hunks : List (Hunk α)) : List α := appliedFrom lines 0 hunks

/-- The pass from the left. -/
def splice : ℕ → List (Hunk α) → List α
  | cursor, [] => lines.drop cursor
  | cursor, h :: hunks => (lines.take h.start).drop cursor ++ h.text :: splice h.stop hunks

variable {lines} {hunks : List (Hunk α)}

theorem textAt_eq_nil {i : ℕ} (h : ∀ a ∈ hunks, a.start ≠ i) : textAt hunks i = [] := by
  have hfind : hunks.find? (fun a => a.start == i) = none :=
    List.find?_eq_none.mpr fun a ha => by simpa using h a ha
  rw [textAt, hfind]
  rfl

theorem keptAt_eq {i : ℕ} (h : ∀ a ∈ hunks, i < a.start ∨ a.stop ≤ i) :
    keptAt lines hunks i = lines[i]?.toList := by
  rw [keptAt, if_neg]
  simp only [List.any_eq_true, Bool.and_eq_true, decide_eq_true_eq, not_exists, not_and]
  intro a ha hle
  have := h a ha
  omega

theorem keptAt_eq_nil {i : ℕ} {a : Hunk α} (ha : a ∈ hunks) (hle : a.start ≤ i)
    (hlt : i < a.stop) : keptAt lines hunks i = [] := by
  rw [keptAt, if_pos]
  exact List.any_eq_true.mpr ⟨a, ha, by simp [hle, hlt]⟩

theorem flatMap_getElem? (lines : List α) (k n : ℕ) :
    (List.range' k n).flatMap (fun i => lines[i]?.toList) = (lines.drop k).take n := by
  induction n generalizing k with
  | zero => simp
  | succ n ih =>
      rw [List.range'_succ, List.flatMap_cons, ih]
      by_cases hk : k < lines.length
      · rw [List.getElem?_eq_getElem hk, List.drop_eq_getElem_cons hk]
        rfl
      · rw [List.getElem?_eq_none (by omega), List.drop_eq_nil_of_le (by omega),
          List.drop_eq_nil_of_le (by omega)]
        simp

theorem appliedFrom_split {k m : ℕ} (hkm : k ≤ m) (hm : m ≤ lines.length + 1) :
    appliedFrom lines k hunks =
      ((List.range' k (m - k)).flatMap fun i => textAt hunks i ++ keptAt lines hunks i) ++
        appliedFrom lines m hunks := by
  have hrange : List.range' k (m - k) ++ List.range' m (lines.length + 1 - m) =
      List.range' k (lines.length + 1 - k) := by
    have happend := @List.range'_append_1 k (m - k) (lines.length + 1 - m)
    rwa [show k + (m - k) = m by omega,
      show m - k + (lines.length + 1 - m) = lines.length + 1 - k by omega] at happend
  rw [appliedFrom, ← hrange, List.flatMap_append]
  rfl

/-- Before its first hunk a sequence is kept. -/
theorem flatMap_before {k m : ℕ} (h : ∀ a ∈ hunks, m ≤ a.start) :
    ((List.range' k (m - k)).flatMap fun i => textAt hunks i ++ keptAt lines hunks i) =
      (lines.take m).drop k := by
  rw [List.drop_take, ← flatMap_getElem?]
  refine List.flatMap_congr fun i hi => ?_
  have hi := List.mem_range'_1.mp hi
  rw [textAt_eq_nil fun a ha => by have := h a ha; omega,
    keptAt_eq fun a ha => by have := h a ha; omega]
  rfl

/-- A hunk has no effect past its end. -/
theorem appliedFrom_cons {a : Hunk α} {k : ℕ} (hstart : a.start < k) (hstop : a.stop ≤ k) :
    appliedFrom lines k (a :: hunks) = appliedFrom lines k hunks := by
  refine List.flatMap_congr fun i hi => ?_
  have hi := List.mem_range'_1.mp hi
  have hne : (a.start == i) = false := by
    rw [beq_eq_false_iff_ne]
    omega
  have hcover : (decide (a.start ≤ i) && decide (i < a.stop)) = false := by
    simp only [Bool.and_eq_false_iff, decide_eq_false_iff_not]
    omega
  simp only [textAt, keptAt, List.find?_cons, hne, List.any_cons, hcover, Bool.false_or]

/-- A non-empty hunk stands for all its positions. -/
theorem flatMap_cover {a : Hunk α} (hlt : a.start < a.stop)
    (hafter : ∀ b ∈ hunks, a.stop ≤ b.start) :
    ((List.range' a.start (a.stop - a.start)).flatMap fun i =>
      textAt (a :: hunks) i ++ keptAt lines (a :: hunks) i) = [a.text] := by
  obtain ⟨n, hn⟩ : ∃ n, a.stop - a.start = n + 1 := ⟨a.stop - a.start - 1, by omega⟩
  have hrest : ((List.range' (a.start + 1) n).flatMap fun i =>
      textAt (a :: hunks) i ++ keptAt lines (a :: hunks) i) = [] := by
    refine List.flatMap_eq_nil_iff.mpr fun i hi => ?_
    have hi := List.mem_range'_1.mp hi
    have hnone : ∀ b ∈ a :: hunks, b.start ≠ i := by
      rintro b hb rfl
      rcases List.mem_cons.mp hb with rfl | hb
      · omega
      · have := hafter b hb
        omega
    rw [textAt_eq_nil hnone, keptAt_eq_nil List.mem_cons_self (by omega) (by omega)]
    rfl
  rw [hn, List.range'_succ, List.flatMap_cons, hrest, List.append_nil,
    keptAt_eq_nil List.mem_cons_self le_rfl hlt, List.append_nil]
  simp [textAt]

/-- One step of the pass. -/
theorem appliedFrom_step {a : Hunk α} (ha : a.Valid) (hlen : a.stop ≤ lines.length)
    (hafter : ∀ b ∈ hunks, a.Before b) :
    appliedFrom lines a.start (a :: hunks) = a.text :: appliedFrom lines a.stop hunks := by
  unfold Valid at ha
  rcases Nat.lt_or_eq_of_le ha with hlt | heq
  · rw [appliedFrom_split ha (by omega), flatMap_cover hlt fun b hb => (hafter b hb).1,
      appliedFrom_cons hlt le_rfl]
    rfl
  · -- an insertion keeps the element at its position, and the next hunk starts later
    have hlater : ∀ b ∈ hunks, a.start < b.start := by
      intro b hb
      obtain ⟨hle, htouch⟩ := hafter b hb
      rcases Nat.lt_or_eq_of_le hle with hlt | htouches
      · omega
      · have := htouch htouches
        omega
    have hone : ∀ l : List (Hunk α), appliedFrom lines a.start l =
        textAt l a.start ++ keptAt lines l a.start ++ appliedFrom lines (a.start + 1) l := by
      intro l
      rw [appliedFrom_split (Nat.le_succ a.start) (by omega), Nat.succ_eq_add_one,
        show a.start + 1 - a.start = 1 by omega]
      simp
    have htext : textAt (a :: hunks) a.start = [a.text] := by simp [textAt]
    have hkept : keptAt lines (a :: hunks) a.start = lines[a.start]?.toList := by
      refine keptAt_eq fun b hb => ?_
      rcases List.mem_cons.mp hb with rfl | hb
      · omega
      · exact .inl (hlater b hb)
    rw [← heq, hone, hone hunks, htext, hkept, textAt_eq_nil fun b hb => by have := hlater b hb; omega,
      keptAt_eq fun b hb => .inl (hlater b hb), appliedFrom_cons (by omega) (by omega)]
    rfl

/-- **The pass applies the hunks.** -/
theorem splice_eq_appliedFrom {k : ℕ} (hk : k ≤ lines.length) (hvalid : ∀ h ∈ hunks, h.Valid)
    (hlen : ∀ h ∈ hunks, h.stop ≤ lines.length) (hstart : ∀ h ∈ hunks, k ≤ h.start)
    (hpairwise : hunks.Pairwise Before) : splice lines k hunks = appliedFrom lines k hunks := by
  induction hunks generalizing k with
  | nil =>
      rw [splice, appliedFrom_split (show k ≤ lines.length + 1 by omega) le_rfl,
        flatMap_before (by simp), List.take_of_length_le (by omega)]
      simp [appliedFrom]
  | cons a hunks ih =>
      rw [List.pairwise_cons] at hpairwise
      have ha := hvalid a List.mem_cons_self
      have hastop := hlen a List.mem_cons_self
      have hafter : ∀ h ∈ a :: hunks, a.start ≤ h.start := by
        intro h hh
        rcases List.mem_cons.mp hh with rfl | hh
        · exact le_rfl
        · exact le_trans ha (hpairwise.1 h hh).1
      have hrest := ih (k := a.stop) hastop
        (fun h hh => hvalid h (List.mem_cons_of_mem _ hh))
        (fun h hh => hlen h (List.mem_cons_of_mem _ hh)) (fun h hh => (hpairwise.1 h hh).1)
        hpairwise.2
      unfold Valid at ha
      rw [splice, hrest, appliedFrom_split (hstart a List.mem_cons_self) (by omega),
        flatMap_before hafter, appliedFrom_step ha hastop hpairwise.1]

/-! ### Sets of hunks -/

/-- What is applied depends on the set of hunks only. -/
theorem applied_congr {hunks' : List (Hunk α)} (hmem : ∀ h, h ∈ hunks ↔ h ∈ hunks')
    (hinj : ∀ a ∈ hunks, ∀ b ∈ hunks, a.start = b.start → a = b) :
    applied lines hunks = applied lines hunks' := by
  have hfind : ∀ i, hunks.find? (fun h => h.start == i) = hunks'.find? fun h => h.start == i := by
    intro i
    cases hleft : hunks.find? fun h => h.start == i with
    | none =>
        refine (List.find?_eq_none.mpr fun a ha => ?_).symm
        exact List.find?_eq_none.mp hleft a ((hmem a).mpr ha)
    | some a =>
        have ha := List.mem_of_find?_eq_some hleft
        have hstart : a.start = i := by simpa using List.find?_some hleft
        cases hright : hunks'.find? fun h => h.start == i with
        | none =>
            have hno := List.find?_eq_none.mp hright a ((hmem a).mp ha)
            simp [hstart] at hno
        | some b =>
            have hb := (hmem b).mpr (List.mem_of_find?_eq_some hright)
            have hstart' : b.start = i := by simpa using List.find?_some hright
            rw [hinj a ha b hb (hstart.trans hstart'.symm)]
  have hany : ∀ p : Hunk α → Bool, hunks.any p = hunks'.any p := by
    intro p
    rw [Bool.eq_iff_iff, List.any_eq_true, List.any_eq_true]
    simp only [hmem]
  rw [applied, applied, appliedFrom, appliedFrom]
  refine List.flatMap_congr fun i _ => ?_
  rw [textAt, hfind, keptAt, hany]
  rfl

theorem drop_eq_append {i i' : ℕ} (hle : i ≤ i') (l : List α) :
    l.drop i = (l.take i').drop i ++ l.drop i' := by
  have hdrop : l.drop i' = (l.drop i).drop (i' - i) := by
    rw [List.drop_drop, Nat.add_sub_cancel' hle]
  rw [List.drop_take, hdrop, List.take_append_drop]

/-- The pass may pause anywhere before the first hunk. -/
theorem splice_pause {i i' : ℕ} (hle : i ≤ i') (h : ∀ a ∈ hunks, i' ≤ a.start) :
    splice lines i hunks = (lines.take i').drop i ++ splice lines i' hunks := by
  cases hunks with
  | nil => exact drop_eq_append hle lines
  | cons a hunks =>
      have htake := drop_eq_append hle (lines.take a.start)
      rw [List.take_take, Nat.min_eq_left (h a List.mem_cons_self)] at htake
      rw [splice, splice, htake, List.append_assoc]

end Apply

/-! ### Changing the elements -/

section Map

variable {β : Type*} (f : α → β)

/-- A hunk with another replacement in the same place. -/
def map (h : Hunk α) : Hunk β := ⟨h.start, h.stop, f h.text⟩

theorem splice_map (lines : List α) (k : ℕ) (hunks : List (Hunk α)) :
    splice (lines.map f) k (hunks.map (map f)) = (splice lines k hunks).map f := by
  induction hunks generalizing k with
  | nil => exact List.map_drop.symm
  | cons h hunks ih =>
      rw [List.map_cons, splice, ih, splice, List.map_append, List.map_drop, List.map_take]
      rfl

theorem applied_map (lines : List α) (hunks : List (Hunk α)) :
    applied (lines.map f) (hunks.map (map f)) = (applied lines hunks).map f := by
  rw [applied, applied, appliedFrom, appliedFrom, List.map_flatMap, List.length_map]
  refine List.flatMap_congr fun i _ => ?_
  have htext : textAt (hunks.map (map f)) i = (textAt hunks i).map f := by
    have hstart : (fun h : Hunk β => h.start == i) ∘ map f = fun h => h.start == i := rfl
    rw [textAt, textAt, List.find?_map, hstart]
    cases hunks.find? fun h => h.start == i <;> rfl
  have hkept : keptAt (lines.map f) (hunks.map (map f)) i = (keptAt lines hunks i).map f := by
    have hcover : (fun h : Hunk β => decide (h.start ≤ i) && decide (i < h.stop)) ∘ map f =
        fun h => decide (h.start ≤ i) && decide (i < h.stop) := rfl
    rw [keptAt, keptAt, List.any_map, hcover, List.getElem?_map]
    split
    · rfl
    · cases lines[i]? <;> rfl
  rw [htext, hkept, List.map_append]

end Map

end Hunk
