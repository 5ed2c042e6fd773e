/-
RGit/Lib/Lists.lean

Lists as Rust iterates them: adjacent windows, strictly sorted association
lists, and lookups in them.  A map whose keys are strictly sorted is
determined by its lookups (`ext_of_sortedKeys`), which is how two spellings
of one record are identified later.

Nothing here mentions the modelled program.
-/
import Mathlib.Data.List.Sort
import Mathlib.Data.List.Chain
import Mathlib.Data.List.Forall2
import Mathlib.Order.Basic

universe u v

variable {α : Type u} {β : Type v}

/-! ### Adjacent windows -/

/-- `windows(2).any(|pair| p(pair[0], pair[1]))`. -/
def anyWindow (p : α → α → Bool) : List α → Bool
  | a :: b :: rest => p a b || anyWindow p (b :: rest)
  | _ => false

theorem anyWindow_eq_false_iff {p : α → α → Bool} {l : List α} :
    anyWindow p l = false ↔ l.IsChain (fun a b => p a b = false) := by
  induction l with
  | nil => simp [anyWindow]
  | cons a rest ih =>
      cases rest with
      | nil => simp [anyWindow]
      | cons b rest =>
          simp only [anyWindow, Bool.or_eq_false_iff, ih, List.isChain_cons_cons]

theorem isChain_and {R S : α → α → Prop} {l : List α} (hR : l.IsChain R)
    (hS : l.IsChain S) : l.IsChain (fun a b => R a b ∧ S a b) := by
  induction l with
  | nil => exact .nil
  | cons a rest ih =>
      cases rest with
      | nil => exact .singleton _
      | cons b rest =>
          simp only [List.isChain_cons_cons] at hR hS ⊢
          exact ⟨⟨hR.1, hS.1⟩, ih hR.2 hS.2⟩

/-- A list none of whose windows is non-increasing is strictly sorted. -/
theorem anyWindow_ge_eq_false_iff [LinearOrder α] {l : List α} :
    anyWindow (fun a b => decide (a ≥ b)) l = false ↔ l.Pairwise (· < ·) := by
  rw [anyWindow_eq_false_iff]
  simp only [ge_iff_le, decide_eq_false_iff_not, not_le]
  exact List.isChain_iff_pairwise

theorem anyWindow_map {γ : Type*} {p : γ → γ → Bool} {q : α → α → Bool} {f : α → γ}
    {l : List α} (h : ∀ a ∈ l, ∀ b ∈ l, p (f a) (f b) = q a b) :
    anyWindow p (l.map f) = anyWindow q l := by
  induction l with
  | nil => rfl
  | cons a l ih =>
      cases l with
      | nil => rfl
      | cons b l =>
          have hrest := ih fun x hx y hy =>
            h x (List.mem_cons_of_mem _ hx) y (List.mem_cons_of_mem _ hy)
          simp only [List.map_cons, anyWindow] at hrest ⊢
          rw [hrest, h a (by simp) b (by simp)]

/-! ### Lists of images -/

/-- A list of images of good elements is the image of a list of them. -/
theorem forall_exists_image_iff {p : α → Prop} {f : α → β} {l : List β} :
    (∀ b ∈ l, ∃ a, p a ∧ b = f a) ↔ ∃ as : List α, (∀ a ∈ as, p a) ∧ l = as.map f := by
  constructor
  · intro h
    induction l with
    | nil => exact ⟨[], by simp, rfl⟩
    | cons b l ih =>
        obtain ⟨a, ha, rfl⟩ := h b (by simp)
        obtain ⟨as, has, rfl⟩ := ih fun b hb => h b (List.mem_cons_of_mem _ hb)
        exact ⟨a :: as, List.forall_mem_cons.mpr ⟨ha, has⟩, rfl⟩
  · rintro ⟨as, has, rfl⟩ b hb
    obtain ⟨a, ha, rfl⟩ := List.mem_map.mp hb
    exact ⟨a, has a ha, rfl⟩

/-- The first element of a kind in a list that goes down. -/
theorem find?_pairwise {R : α → α → Prop} {p : α → Bool} {l : List α} {a : α}
    (hl : l.Pairwise R) (hasymm : ∀ a b, R a b → ¬R b a) :
    l.find? p = some a ↔ a ∈ l ∧ p a = true ∧ ∀ b ∈ l, R b a → p b = false := by
  induction l with
  | nil => simp
  | cons c l ih =>
      obtain ⟨hc, hl⟩ := List.pairwise_cons.mp hl
      rw [List.find?_cons]
      cases hp : p c with
      | true =>
          constructor
          · intro h
            cases h
            refine ⟨List.mem_cons_self, hp, fun b hb hlt => ?_⟩
            rcases List.mem_cons.mp hb with rfl | hb
            · exact absurd hlt (hasymm _ _ hlt)
            · exact absurd hlt (hasymm _ _ (hc b hb))
          · rintro ⟨ha, -, hfirst⟩
            rcases List.mem_cons.mp ha with rfl | ha
            · rfl
            · rw [hfirst c List.mem_cons_self (hc a ha)] at hp
              cases hp
      | false =>
          rw [ih hl]
          constructor
          · rintro ⟨ha, hpa, hfirst⟩
            refine ⟨List.mem_cons_of_mem _ ha, hpa, fun b hb hlt => ?_⟩
            rcases List.mem_cons.mp hb with rfl | hb
            · exact hp
            · exact hfirst b hb hlt
          · rintro ⟨ha, hpa, hfirst⟩
            refine ⟨?_, hpa, fun b hb => hfirst b (List.mem_cons_of_mem _ hb)⟩
            rcases List.mem_cons.mp ha with rfl | ha
            · rw [hp] at hpa
              cases hpa
            · exact ha

/-- What lies between a list and a list that begins with it begins with it too. -/
theorem prefix_of_not_lt [LinearOrder α] {p s x : List α} (hle : ¬s < p)
    (hle' : ¬p ++ x < s) : p <+: s := by
  induction p generalizing s with
  | nil => exact List.nil_prefix
  | cons a p ih =>
      cases s with
      | nil => exact absurd (List.nil_lt_cons a p) hle
      | cons b s =>
          rw [List.cons_lt_cons_iff, not_or, not_and] at hle
          rw [List.cons_append, List.cons_lt_cons_iff, not_or, not_and] at hle'
          obtain rfl : a = b := le_antisymm (not_lt.mp hle.1) (not_lt.mp hle'.1)
          exact (List.prefix_cons_inj a).mpr (ih (hle.2 rfl) (hle'.2 rfl))

/-! ### Splitting -/

/-- A part has no separator, and nothing that the whole does not have. -/
theorem splitOn_part [DecidableEq α] {a : α} {xs l : List α} (h : l ∈ xs.splitOn a) :
    a ∉ l ∧ l ⊆ xs := by
  induction xs generalizing l with
  | nil =>
      rw [List.splitOn_nil, List.mem_singleton] at h
      subst h
      simp
  | cons x xs ih =>
      rw [List.splitOn_cons_eq_if_modifyHead] at h
      split at h
      · rcases List.mem_cons.mp h with rfl | h
        · simp
        · exact ⟨(ih h).1, List.subset_cons_of_subset _ (ih h).2⟩
      · next hne =>
          cases hparts : xs.splitOn a with
          | nil => exact absurd hparts (List.splitOn_ne_nil a xs)
          | cons head rest =>
              rw [hparts] at h ih
              rcases List.mem_cons.mp h with rfl | h
              · obtain ⟨hnot, hsub⟩ := ih List.mem_cons_self
                refine ⟨?_, List.cons_subset_cons _ hsub⟩
                rw [List.mem_cons, not_or]
                exact ⟨fun heq => hne (by rw [heq, beq_self_eq_true]), hnot⟩
              · obtain ⟨hnot, hsub⟩ := ih (List.mem_cons_of_mem _ h)
                exact ⟨hnot, List.subset_cons_of_subset _ hsub⟩

theorem intercalate_append {sep : List α} {l l' : List (List α)} (hl : l ≠ []) (hl' : l' ≠ []) :
    sep.intercalate (l ++ l') = sep.intercalate l ++ sep ++ sep.intercalate l' := by
  induction l with
  | nil => exact absurd rfl hl
  | cons x l ih =>
      cases l with
      | nil => simp [List.intercalate_cons_of_ne_nil hl']
      | cons y l =>
          have hne : y :: l ++ l' ≠ [] := by simp
          rw [List.cons_append, List.intercalate_cons_of_ne_nil hne, ih (List.cons_ne_nil _ _),
            List.intercalate_cons_of_ne_nil (List.cons_ne_nil y l)]
          simp

/-- The parts begin with those of `xs` where the list goes on with a separator. -/
theorem splitOn_prefix_iff [DecidableEq α] {a : α} {xs ys : List α} :
    xs.splitOn a <+: ys.splitOn a ↔ ys = xs ∨ ∃ rest, ys = xs ++ a :: rest := by
  constructor
  · rintro ⟨rest, hrest⟩
    have hx : [a].intercalate (xs.splitOn a) = xs := List.intercalate_splitOn a
    have hy : [a].intercalate (ys.splitOn a) = ys := List.intercalate_splitOn a
    rw [← hrest] at hy
    cases rest with
    | nil =>
        rw [List.append_nil, hx] at hy
        exact .inl hy.symm
    | cons l rest =>
        rw [intercalate_append (List.splitOn_ne_nil a xs) (List.cons_ne_nil l rest), hx] at hy
        refine .inr ⟨[a].intercalate (l :: rest), ?_⟩
        rw [← hy, List.append_assoc]
        rfl
  · rintro (rfl | ⟨rest, rfl⟩)
    · exact List.prefix_refl _
    · rw [List.splitOn_append_cons_self]
      exact List.prefix_append _ _

/-! ### Association lists with sorted keys -/

/-- The value stored under the first entry with key `k`. -/
def lookupKey [BEq α] (l : List (α × β)) (k : α) : Option β :=
  (l.find? (fun entry => entry.1 == k)).map (·.2)

section Lookup

variable [DecidableEq α]

@[simp] theorem lookupKey_nil (k : α) : lookupKey ([] : List (α × β)) k = none := rfl

theorem lookupKey_cons (a : α) (b : β) (l : List (α × β)) (k : α) :
    lookupKey ((a, b) :: l) k = if a = k then some b else lookupKey l k := by
  by_cases h : a = k <;> simp [lookupKey, h]

@[simp] theorem lookupKey_cons_self (a : α) (b : β) (l : List (α × β)) :
    lookupKey ((a, b) :: l) a = some b := by
  rw [lookupKey_cons, if_pos rfl]

theorem lookupKey_eq_none_iff {l : List (α × β)} {k : α} :
    lookupKey l k = none ↔ k ∉ l.map (·.1) := by
  induction l with
  | nil => simp
  | cons e l ih =>
      obtain ⟨a, b⟩ := e
      rw [lookupKey_cons]
      split
      · next h => simp [h]
      · next h => simp [ih, Ne.symm h]

theorem lookupKey_isSome_iff {l : List (α × β)} {k : α} :
    (lookupKey l k).isSome ↔ k ∈ l.map (·.1) := by
  rw [← not_iff_not, ← lookupKey_eq_none_iff]
  simp

theorem mem_of_lookupKey {l : List (α × β)} {k : α} {b : β}
    (h : lookupKey l k = some b) : (k, b) ∈ l := by
  induction l with
  | nil => simp at h
  | cons e l ih =>
      obtain ⟨a, c⟩ := e
      rw [lookupKey_cons] at h
      split at h
      · next hk => simp_all
      · exact List.mem_cons_of_mem _ (ih h)

theorem lookupKey_eq_some_iff {l : List (α × β)} (hl : (l.map (·.1)).Nodup)
    {k : α} {b : β} : lookupKey l k = some b ↔ (k, b) ∈ l := by
  refine ⟨mem_of_lookupKey, fun h => ?_⟩
  induction l with
  | nil => simp at h
  | cons e l ih =>
      obtain ⟨a, c⟩ := e
      simp only [List.map_cons, List.nodup_cons] at hl
      rw [lookupKey_cons]
      rcases List.mem_cons.mp h with heq | hmem
      · simp only [Prod.mk.injEq] at heq
        rw [if_pos heq.1.symm, heq.2]
      · have hne : a ≠ k := by
          rintro rfl
          exact hl.1 (List.mem_map_of_mem hmem)
        rw [if_neg hne, ih hl.2 hmem]

theorem lookupKey_append (l l' : List (α × β)) (k : α) :
    lookupKey (l ++ l') k = (lookupKey l k).or (lookupKey l' k) := by
  induction l with
  | nil => simp
  | cons e l ih =>
      obtain ⟨a, b⟩ := e
      rw [List.cons_append, lookupKey_cons, lookupKey_cons, ih]
      split <;> simp

/-- Lookups do not depend on the order of entries with distinct keys. -/
theorem lookupKey_perm {l l' : List (α × β)} (hp : l.Perm l')
    (hl : (l.map (·.1)).Nodup) (k : α) : lookupKey l k = lookupKey l' k := by
  have hl' : (l'.map (·.1)).Nodup := (hp.map _).nodup_iff.mp hl
  ext b
  rw [lookupKey_eq_some_iff hl, lookupKey_eq_some_iff hl', hp.mem_iff]

theorem lookupKey_map_snd {γ : Type*} (f : β → γ) (l : List (α × β)) (k : α) :
    lookupKey (l.map fun e => (e.1, f e.2)) k = (lookupKey l k).map f := by
  induction l with
  | nil => rfl
  | cons e l ih =>
      obtain ⟨a, b⟩ := e
      simp only [List.map_cons, lookupKey_cons, ih]
      split <;> rfl

/-- The list with `b` stored under `k`. -/
def insertKey (l : List (α × β)) (k : α) (b : β) : List (α × β) :=
  (k, b) :: l.filter fun entry => entry.1 ≠ k

theorem lookupKey_insertKey (l : List (α × β)) (k : α) (b : β) (a : α) :
    lookupKey (insertKey l k b) a = if k = a then some b else lookupKey l a := by
  rw [insertKey, lookupKey_cons]
  refine if_ctx_congr Iff.rfl (fun _ => rfl) fun hne => ?_
  induction l with
  | nil => rfl
  | cons e l ih =>
      obtain ⟨c, d⟩ := e
      rw [List.filter_cons, lookupKey_cons]
      by_cases hc : c = k
      · rw [if_neg (by simpa using hc), if_neg (hc ▸ hne), ih]
      · rw [if_pos (by simpa using hc), lookupKey_cons, ih]

end Lookup

section Sorted

variable [LinearOrder α]

/-- Entries with strictly increasing keys. -/
def SortedKeys (l : List (α × β)) : Prop := (l.map (·.1)).Pairwise (· < ·)

theorem SortedKeys.nodup {l : List (α × β)} (h : SortedKeys l) : (l.map (·.1)).Nodup :=
  h.imp (fun hlt => hlt.ne)

theorem SortedKeys.tail {e : α × β} {l : List (α × β)} (h : SortedKeys (e :: l)) :
    SortedKeys l := (List.pairwise_cons.mp h).2

theorem SortedKeys.head_lt {e e' : α × β} {l : List (α × β)} (h : SortedKeys (e :: l))
    (he' : e' ∈ l) : e.1 < e'.1 :=
  (List.pairwise_cons.mp h).1 _ (List.mem_map_of_mem he')

/-- Strictly sorted entries are determined by their lookups. -/
theorem ext_of_sortedKeys {l l' : List (α × β)} (hl : SortedKeys l) (hl' : SortedKeys l')
    (h : ∀ k, lookupKey l k = lookupKey l' k) : l = l' := by
  have hmem : ∀ e, e ∈ l ↔ e ∈ l' := by
    rintro ⟨k, b⟩
    rw [← lookupKey_eq_some_iff hl.nodup, ← lookupKey_eq_some_iff hl'.nodup, h]
  have hnd : l.Nodup := hl.nodup.of_map _
  have hnd' : l'.Nodup := hl'.nodup.of_map _
  have hasymm : ∀ a b, a ∈ l → b ∈ l' → a.1 < b.1 → b.1 < a.1 → a = b :=
    fun a b _ _ hab hba => absurd hab (lt_asymm hba)
  exact List.Perm.eq_of_pairwise hasymm (List.pairwise_map.mp hl) (List.pairwise_map.mp hl')
    ((List.perm_ext_iff_of_nodup hnd hnd').mpr hmem)

end Sorted

/-! ### Lexicographic comparison -/

section Compare

variable [Ord α]

theorem compare_append_left [Std.ReflOrd α] (p a b : List α) :
    compare (p ++ a) (p ++ b) = compare a b := by
  induction p with
  | nil => rfl
  | cons x p ih =>
      rw [List.cons_append, List.cons_append, List.compare_cons_cons, Std.ReflOrd.compare_self,
        Ordering.eq_then, ih]

/-- Parts of equal length are compared one after the other. -/
theorem compare_append {a a' : List α} (h : a.length = a'.length) (b b' : List α) :
    compare (a ++ b) (a' ++ b') = (compare a a').then (compare b b') := by
  induction a generalizing a' with
  | nil =>
      obtain rfl := List.length_eq_zero_iff.mp h.symm
      rfl
  | cons x a ih =>
      cases a' with
      | nil => cases h
      | cons y a' =>
          rw [List.cons_append, List.cons_append, List.compare_cons_cons,
            List.compare_cons_cons, ih (by simpa using h), Ordering.then_assoc]

end Compare

/-! ### Related lists -/

theorem forall₂_exists_of_mem {R : α → β → Prop} {l : List α} {l' : List β}
    (h : List.Forall₂ R l l') {a : α} (ha : a ∈ l) : ∃ b ∈ l', R a b := by
  induction h with
  | nil => cases ha
  | cons hab _ ih =>
      rcases List.mem_cons.mp ha with rfl | ha
      · exact ⟨_, List.mem_cons_self, hab⟩
      · obtain ⟨b, hb, hR⟩ := ih ha
        exact ⟨b, List.mem_cons_of_mem _ hb, hR⟩

/-- What is related to distinct elements is distinct, where it tells them apart. -/
theorem nodup_map_of_forall₂ {γ δ : Type*} {R : α → β → Prop} {f : α → γ} {g : β → δ}
    {l : List α} {l' : List β} (h : List.Forall₂ R l l') (hl : (l.map f).Nodup)
    (hinj : ∀ a ∈ l, ∀ a' ∈ l, ∀ b b', R a b → R a' b' → g b = g b' → f a = f a') :
    (l'.map g).Nodup := by
  induction h with
  | nil => exact List.nodup_nil
  | @cons a b l l' hab hrest ih =>
      rw [List.map_cons, List.nodup_cons] at hl ⊢
      refine ⟨fun hmem => ?_, ih hl.2 fun a₁ h₁ a₂ h₂ =>
        hinj a₁ (List.mem_cons_of_mem _ h₁) a₂ (List.mem_cons_of_mem _ h₂)⟩
      obtain ⟨b', hb', heq⟩ := List.mem_map.mp hmem
      obtain ⟨a', ha', hab'⟩ := forall₂_exists_of_mem hrest.flip hb'
      have hsame := hinj a List.mem_cons_self a' (List.mem_cons_of_mem _ ha') b b' hab hab' heq.symm
      exact hl.1 (hsame ▸ List.mem_map_of_mem ha')

theorem forall₂_filterMap {γ δ : Type*} {R : γ → δ → Prop} {f : α → Option γ} {g : α → Option δ}
    {l : List α} (h : ∀ a ∈ l, Option.Rel R (f a) (g a)) :
    List.Forall₂ R (l.filterMap f) (l.filterMap g) := by
  induction l with
  | nil => exact .nil
  | cons a l ih =>
      rw [List.forall_mem_cons] at h
      rw [List.filterMap_cons, List.filterMap_cons]
      generalize f a = x at h
      generalize g a = y at h
      cases h.1 with
      | none => exact ih h.2
      | some hab => exact .cons hab (ih h.2)

/-! ### Total partial functions -/

theorem map_eq_map_some_filterMap {f : α → Option β} {l : List α}
    (h : ∀ a ∈ l, ∃ b, f a = some b) : l.map f = (l.filterMap f).map some := by
  induction l with
  | nil => rfl
  | cons a l ih =>
      rw [List.forall_mem_cons] at h
      obtain ⟨⟨b, hb⟩, hl⟩ := h
      rw [List.map_cons, ih hl, hb, List.filterMap_cons_some hb, List.map_cons]

/-! ### Values that know their key -/

section Keyed

variable {f : α → Option β} {key : β → α}

/-- The keys of the values are the keys that have one. -/
theorem map_key_filterMap (hkey : ∀ a b, f a = some b → key b = a) (l : List α) :
    (l.filterMap f).map key = l.filter fun a => (f a).isSome := by
  induction l with
  | nil => rfl
  | cons a l ih =>
      cases ha : f a with
      | none => rw [List.filterMap_cons_none ha, List.filter_cons_of_neg (by simp [ha]), ih]
      | some b =>
          rw [List.filterMap_cons_some ha, List.filter_cons_of_pos (by simp [ha]), List.map_cons,
            ih, hkey a b ha]

/-- Each key has its own value and no other. -/
theorem filter_filterMap_key [DecidableEq α] (hkey : ∀ a b, f a = some b → key b = a) {l : List α}
    (hnodup : l.Nodup) {a : α} (ha : f a ≠ none → a ∈ l) :
    ((l.filterMap f).filter fun b => key b = a) = (f a).toList := by
  have hfilter : ((l.filterMap f).filter fun b => key b = a) =
      (l.filter fun x => x = a).filterMap f := by
    rw [List.filter_filterMap, List.filterMap_filter]
    refine List.filterMap_congr fun x _ => ?_
    cases hx : f x with
    | none => simp
    | some b => simp [Option.filter, hkey x b hx]
  have heq : (l.filter fun x => x = a) = List.replicate (l.count a) a := by
    simpa using List.filter_eq (l := l) a
  rw [hfilter, heq]
  by_cases hmem : a ∈ l
  · rw [List.count_eq_one_of_mem hnodup hmem]
    cases hfa : f a <;> simp [hfa]
  · rw [List.count_eq_zero_of_not_mem hmem]
    cases hfa : f a with
    | none => rfl
    | some b => exact absurd (ha (by simp [hfa])) hmem

end Keyed
