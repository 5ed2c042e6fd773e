/-
RGit/Lib/Topological.lean

Topological orders of a finite relation.

`Follows R order` says that every element of a list comes after all its
`R`-predecessors.  An element is `Open` when it may come next.  Taking the
least open element again and again gives the least such list
(`Follows.isLE_of_least`), and when `R` has no cycle some element is always
open (`exists_open`).  `MaximalIn` is about the other end: the elements of a
set with nothing of the set after them.

Nothing here mentions the modelled program.
-/
import RGit.Lib.Lists
import Mathlib.Order.WellFoundedSet
import Mathlib.Logic.Relation

universe u

section Topological

variable {α : Type u} {R : α → α → Prop}

/-- Every element comes after its predecessors. -/
def Follows (R : α → α → Prop) (order : List α) : Prop :=
  ∀ above n below, order = above ++ n :: below → ∀ p, R p n → p ∈ above

/-- An element may be put last when its predecessors are in. -/
theorem Follows.concat {order : List α} {n : α} (h : Follows R order)
    (hn : ∀ p, R p n → p ∈ order) : Follows R (order ++ [n]) := by
  intro above m below hsplit p hp
  rcases List.append_eq_append_iff.mp hsplit with ⟨more, rfl, hrest⟩ | ⟨more, rfl, hrest⟩
  · rcases List.append_eq_singleton_iff.mp hrest.symm with ⟨rfl, hm⟩ | ⟨-, hm⟩
    · obtain ⟨rfl, -⟩ := List.cons.inj hm
      rw [List.append_nil]
      exact hn p hp
    · cases hm
  · cases more with
    | nil =>
        obtain ⟨rfl, -⟩ := List.cons.inj hrest
        rw [List.append_nil] at hn
        exact hn p hp
    | cons m' more =>
        obtain ⟨rfl, -⟩ := List.cons.inj hrest
        exact h above m more rfl p hp

/-- What leads to an element is in. -/
theorem Follows.mem_of_path {order : List α} {p n : α} (h : Follows R order)
    (hpath : Relation.ReflTransGen R p n) (hn : n ∈ order) : p ∈ order := by
  induction hpath using Relation.ReflTransGen.head_induction_on with
  | refl => exact hn
  | head hstep _ ih =>
      obtain ⟨above, below, hsplit⟩ := List.append_of_mem ih
      rw [hsplit]
      exact List.mem_append_left _ (h above _ below hsplit _ hstep)

/-- What everything leads to is last. -/
theorem Follows.getLast?_eq {order : List α} {n : α} (h : Follows R order) (hnodup : order.Nodup)
    (hn : n ∈ order) (hall : ∀ p ∈ order, Relation.ReflTransGen R p n) :
    order.getLast? = some n := by
  rcases List.eq_nil_or_concat order with rfl | ⟨above, last, rfl⟩
  · cases hn
  · rw [List.concat_eq_append] at *
    rw [List.getLast?_concat]
    have hlast : last ∉ above := fun hmem =>
      (List.nodup_append.mp hnodup).2.2 last hmem last (List.mem_singleton.mpr rfl) rfl
    rcases Relation.ReflTransGen.cases_head (hall last (by simp)) with rfl | ⟨q, hstep, hrest⟩
    · rfl
    · -- what the last one leads to would come after it
      have hq := h.mem_of_path hrest hn
      rcases List.mem_append.mp hq with hq | hq
      · obtain ⟨front, back, rfl⟩ := List.append_of_mem hq
        have hmem := h front q (back ++ [last]) (by simp) last hstep
        exact absurd (List.mem_append_left _ hmem) hlast
      · obtain rfl := List.mem_singleton.mp hq
        exact absurd (h above q [] rfl q hstep) hlast

/-- The elements of `nodes` that may come after the ones in `above`. -/
def Open (R : α → α → Prop) (nodes above : List α) (n : α) : Prop :=
  n ∈ nodes ∧ n ∉ above ∧ ∀ p, R p n → p ∈ above

/-- As long as an element is missing, some element is open, unless `R` has a
cycle. -/
theorem exists_open {nodes above : List α} (hnodes : ∀ p n, R p n → n ∈ nodes → p ∈ nodes)
    (hacyclic : ∀ n, ¬ Relation.TransGen R n n) (hmissing : ∃ n ∈ nodes, n ∉ above) :
    ∃ n, Open R nodes above n := by
  have : IsStrictOrder α (Relation.TransGen R) :=
    { irrefl := hacyclic
      trans := fun _ _ _ => Relation.TransGen.trans }
  have hfinite : {n | n ∈ nodes ∧ n ∉ above}.Finite :=
    (nodes.finite_toSet).subset fun n hn => hn.1
  have hwf := hfinite.wellFoundedOn (r := Relation.TransGen R)
  obtain ⟨n, hn, hnew⟩ := hmissing
  obtain ⟨⟨m, hm, hm'⟩, -, hmin⟩ := hwf.has_min Set.univ ⟨⟨n, hn, hnew⟩, trivial⟩
  refine ⟨m, hm, hm', fun p hp => ?_⟩
  by_contra hnot
  exact hmin ⟨p, hnodes p m hp hm, hnot⟩ trivial (.single hp)

/-! ### Maximal elements -/

/-- An element of `C` with no other one after it. -/
def MaximalIn (R : α → α → Prop) (C : Set α) (c : α) : Prop :=
  c ∈ C ∧ ∀ d ∈ C, Relation.ReflTransGen R c d → d = c

/-- In a set that is closed between its elements, only the direct successors
have to be looked at. -/
theorem maximalIn_iff {C : Set α}
    (hconvex : ∀ c d e, R c d → Relation.ReflTransGen R d e → e ∈ C → d ∈ C)
    (hacyclic : ∀ c ∈ C, ¬ Relation.TransGen R c c) {c : α} :
    MaximalIn R C c ↔ c ∈ C ∧ ∀ d ∈ C, ¬ R c d := by
  refine and_congr_right fun hc => ⟨fun hmax d hd hcd => ?_, fun hnone d hd hpath => ?_⟩
  · obtain rfl := hmax d hd (.single hcd)
    exact hacyclic d hd (.single hcd)
  · rcases Relation.ReflTransGen.cases_head hpath with rfl | ⟨e, hce, hrest⟩
    · rfl
    · exact absurd hce (hnone e (hconvex c e d hce hrest hd))

/-- Every element of a finite set is below a maximal one. -/
theorem exists_maximalIn {C : Set α} (hfinite : C.Finite)
    (hacyclic : ∀ c ∈ C, ¬ Relation.TransGen R c c) {c : α} (hc : c ∈ C) :
    ∃ m, MaximalIn R C m ∧ Relation.ReflTransGen R c m := by
  let above : α → α → Prop := fun a b => a ∈ C ∧ b ∈ C ∧ Relation.TransGen R b a
  have : IsStrictOrder α above :=
    { irrefl := fun a h => hacyclic a h.1 h.2.2
      trans := fun _ _ _ h h' => ⟨h.1, h'.2.1, h'.2.2.trans h.2.2⟩ }
  have hwf := hfinite.wellFoundedOn (r := above)
  obtain ⟨⟨m, hm⟩, hcm, hmin⟩ := hwf.has_min {m : C | Relation.ReflTransGen R c m}
    ⟨⟨c, hc⟩, Relation.ReflTransGen.refl⟩
  refine ⟨m, ⟨hm, fun d hd hmd => ?_⟩, hcm⟩
  rcases Relation.reflTransGen_iff_eq_or_transGen.mp hmd with heq | hpath
  · exact heq
  · exact absurd ⟨hd, hm, hpath⟩ (hmin ⟨d, hd⟩ (hcm.trans hmd))

/-! ### The least order -/

section Least

variable [Ord α] [Std.LawfulEqOrd α]

/-- An order that takes a least open element every time is not after any other
order of the same elements. -/
theorem Follows.isLE_of_least {order other : List α} (hnodup : order.Nodup)
    (hleast : ∀ above n below, order = above ++ n :: below →
      ∀ m, Open R order above m → (compare n m).isLE)
    (hother : Follows R other) (hperm : other.Perm order) : (compare order other).isLE := by
  -- induction on what follows the common part of the two orders
  have hrest : ∀ below above below', order = above ++ below → other = above ++ below' →
      (compare below below').isLE := by
    intro below
    induction below with
    | nil =>
        intro above below' horder hsplit
        have hlength := hperm.length_eq
        rw [horder, hsplit, List.append_nil, List.length_append] at hlength
        obtain rfl : below' = [] := List.length_eq_zero_iff.mp (by omega)
        rfl
    | cons n below ih =>
        intro above below' horder hsplit
        cases below' with
        | nil =>
            have hlength := hperm.length_eq
            rw [horder, hsplit, List.append_nil, List.length_append, List.length_cons] at hlength
            omega
        | cons m below' =>
            have hm : Open R order above m := by
              refine ⟨hperm.mem_iff.mp (by simp [hsplit]), ?_, hother above m below' hsplit⟩
              have hnodup' := hperm.nodup_iff.mpr hnodup
              rw [hsplit] at hnodup'
              intro hm
              exact List.disjoint_of_nodup_append hnodup' hm List.mem_cons_self
            have hle := hleast above n below horder m hm
            rw [List.compare_cons_cons]
            by_cases hnm : n = m
            · subst hnm
              rw [Std.ReflOrd.compare_self, Ordering.eq_then]
              exact ih (above ++ [n]) below' (by simp [horder]) (by simp [hsplit])
            · have hlt : compare n m = .lt := by
                cases hcompare : compare n m with
                | lt => rfl
                | eq => exact absurd (Std.LawfulEqOrd.eq_of_compare hcompare) hnm
                | gt => rw [hcompare] at hle; cases hle
              rw [hlt]
              rfl
  exact hrest order [] other rfl rfl

end Least

/-! ### The longest chain -/

/-- The lengths of the chains that lead to `n`. -/
def chainLengths (R : α → α → Prop) (n : α) : Set Nat :=
  {k | ∃ chain : List α, chain.length = k ∧ (chain ++ [n]).IsChain R}

theorem zero_mem_chainLengths (n : α) : 0 ∈ chainLengths R n :=
  ⟨[], rfl, List.isChain_singleton n⟩

theorem succ_mem_chainLengths {k : Nat} {n : α} :
    k + 1 ∈ chainLengths R n ↔ ∃ p, R p n ∧ k ∈ chainLengths R p := by
  constructor
  · rintro ⟨chain, hlength, hchain⟩
    rcases List.eq_nil_or_concat chain with rfl | ⟨chain, p, rfl⟩
    · cases hlength
    · rw [List.concat_eq_append] at hlength hchain
      have hp : R p n := by
        rw [List.append_assoc] at hchain
        exact List.isChain_pair.mp hchain.right_of_append
      exact ⟨p, hp, chain, by simpa using hlength, hchain.left_of_append⟩
  · rintro ⟨p, hp, chain, rfl, hchain⟩
    refine ⟨chain ++ [p], by simp, List.IsChain.append hchain (List.isChain_singleton n) ?_⟩
    intro x hx y hy
    rw [List.getLast?_concat, Option.mem_some_iff] at hx
    rw [List.head?_cons, Option.mem_some_iff] at hy
    exact hx ▸ hy ▸ hp

/-- Where nothing leads to `n`, its longest chain is empty. -/
theorem isGreatest_chainLengths_zero {n : α} (hn : ∀ p, ¬ R p n) :
    IsGreatest (chainLengths R n) 0 := by
  refine ⟨zero_mem_chainLengths n, fun k hk => ?_⟩
  cases k with
  | zero => exact le_rfl
  | succ k =>
      obtain ⟨p, hp, -⟩ := succ_mem_chainLengths.mp hk
      exact absurd hp (hn p)

/-- A longest chain of `n` goes through a predecessor with the longest ones. -/
theorem isGreatest_chainLengths_succ {n q : α} (longest : α → Nat)
    (hlongest : ∀ p, R p n → IsGreatest (chainLengths R p) (longest p)) (hq : R q n)
    (hmax : ∀ p, R p n → longest p ≤ longest q) :
    IsGreatest (chainLengths R n) (longest q + 1) := by
  refine ⟨succ_mem_chainLengths.mpr ⟨q, hq, (hlongest q hq).1⟩, fun k hk => ?_⟩
  cases k with
  | zero => exact Nat.zero_le _
  | succ k =>
      obtain ⟨p, hp, hk⟩ := succ_mem_chainLengths.mp hk
      exact Nat.succ_le_succ (((hlongest p hp).2 hk).trans (hmax p hp))

/-- What comes before has shorter chains. -/
theorem lt_of_isGreatest_chainLengths {a n : α} {k l : Nat} (hpath : Relation.TransGen R a n)
    (ha : IsGreatest (chainLengths R a) k) (hn : IsGreatest (chainLengths R n) l) : k < l := by
  have hlonger : ∃ m ∈ chainLengths R n, k < m := by
    clear hn
    induction hpath with
    | single hstep => exact ⟨k + 1, succ_mem_chainLengths.mpr ⟨a, hstep, ha.1⟩, Nat.lt_succ_self k⟩
    | tail _ hstep ih =>
        obtain ⟨m, hm, hlt⟩ := ih
        exact ⟨m + 1, succ_mem_chainLengths.mpr ⟨_, hstep, hm⟩, hlt.trans (Nat.lt_succ_self m)⟩
  obtain ⟨m, hm, hlt⟩ := hlonger
  exact hlt.trans_le (hn.2 hm)

/-! ### Two relations that agree above a point -/

/-- The relations agree on everything that leads to `n`. -/
def AgreeAbove (R R' : α → α → Prop) (n : α) : Prop :=
  ∀ m, Relation.ReflTransGen R m n → ∀ p, R p m ↔ R' p m

variable {R' : α → α → Prop} {a n : α}

theorem AgreeAbove.of_path (h : AgreeAbove R R' n) (hpath : Relation.ReflTransGen R a n) :
    AgreeAbove R R' a := fun m hm p => h m (hm.trans hpath) p

theorem AgreeAbove.reflTransGen_iff (h : AgreeAbove R R' n) :
    Relation.ReflTransGen R a n ↔ Relation.ReflTransGen R' a n := by
  constructor
  · intro hpath
    induction hpath with
    | refl => exact .refl
    | tail _ hstep ih =>
        refine .tail (ih (h.of_path (.single hstep))) ?_
        exact (h _ .refl _).mp hstep
  · intro hpath
    induction hpath with
    | refl => exact .refl
    | tail _ hstep ih =>
        have hstep := (h _ .refl _).mpr hstep
        exact .tail (ih (h.of_path (.single hstep))) hstep

theorem AgreeAbove.transGen_iff (h : AgreeAbove R R' n) :
    Relation.TransGen R a n ↔ Relation.TransGen R' a n := by
  simp only [Relation.TransGen.tail'_iff]
  constructor
  · rintro ⟨m, hpath, hstep⟩
    exact ⟨m, (h.of_path (.single hstep)).reflTransGen_iff.mp hpath, (h _ .refl _).mp hstep⟩
  · rintro ⟨m, hpath, hstep⟩
    have hstep := (h _ .refl _).mpr hstep
    exact ⟨m, (h.of_path (.single hstep)).reflTransGen_iff.mpr hpath, hstep⟩

theorem AgreeAbove.chainLengths_eq (h : AgreeAbove R R' n) :
    chainLengths R n = chainLengths R' n := by
  ext k
  induction k generalizing n with
  | zero => exact iff_of_true (zero_mem_chainLengths n) (zero_mem_chainLengths n)
  | succ k ih =>
      rw [succ_mem_chainLengths, succ_mem_chainLengths]
      refine exists_congr fun p => ?_
      rw [← h n .refl p]
      exact and_congr_right fun hp => ih (h.of_path (.single hp))

end Topological
