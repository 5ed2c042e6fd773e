/-
RGit/Lib/MapDiff.lean

What has changed from one map to another one.

`entryDiff` goes over the keys of both maps in their order and lists what was added,
what was modified and what was deleted, each under a name that is made of the key
and the entry.  The lists are what the two maps say (`mem_added` and its like), in
the order of the keys, and every key at which the maps differ is in one of them.

Nothing here mentions the modelled program.
-/
import RGit.Lib.Lists
import RGit.Lib.Maps

section MapDiff

variable {K V β : Type} [Ord K] [Std.TransOrd K]

/-- The keys of two maps, in their order. -/
def unionKeys (m m' : BTreeMap K V) : List K :=
  (Std.ExtTreeSet.ofList (m.keys ++ m'.keys) compare).toList

theorem sorted_unionKeys {m m' : BTreeMap K V} :
    (unionKeys m m').Pairwise fun a b => compare a b = .lt := Std.ExtTreeSet.ordered_toList

theorem mem_unionKeys [Std.LawfulEqOrd K] {m m' : BTreeMap K V} {k : K} :
    k ∈ unionKeys m m' ↔ m[k]? ≠ none ∨ m'[k]? ≠ none := by
  let : DecidableEq K := Classical.decEq K
  have hkeys : ∀ m : BTreeMap K V, k ∈ m.keys ↔ m[k]? ≠ none := by
    intro m
    rw [Std.ExtTreeMap.mem_keys, BTreeMap.mem_iff_get, Option.ne_none_iff_exists']
  rw [unionKeys, Std.ExtTreeSet.mem_toList, Std.ExtTreeSet.mem_ofList, List.contains_iff_mem,
    List.mem_append, hkeys, hkeys]

omit [Std.TransOrd K] in
theorem sorted_filterMap {at' : K → Option β} {key : β → K}
    (hkey : ∀ k x, at' k = some x → key x = k)
    {keys : List K} (hkeys : keys.Pairwise fun a b => compare a b = .lt) :
    (keys.filterMap at').Pairwise fun x y => compare (key x) (key y) = .lt := by
  rw [List.pairwise_filterMap]
  refine hkeys.imp fun hlt x hx y hy => ?_
  rwa [hkey _ x hx, hkey _ y hy]

theorem nodup_unionKeys [Std.LawfulEqOrd K] {m m' : BTreeMap K V} : (unionKeys m m').Nodup :=
  Std.ExtTreeSet.distinct_toList.imp fun h heq => h (Std.LawfulEqCmp.compare_eq_iff_eq.mpr heq)

variable [DecidableEq V]

/-- The keys at which two maps differ. -/
def changedKeys (m m' : BTreeMap K V) : List K :=
  (unionKeys m m').filter fun k => m[k]? != m'[k]?

structure EntryDiff (β : Type) where
  added : List β
  modified : List β
  deleted : List β
  deriving DecidableEq

/-- One pass of the loop over the keys. -/
def diffKey (name : K → V → β) (m m' : BTreeMap K V) (d : EntryDiff β) (k : K) : EntryDiff β :=
  match m[k]?, m'[k]? with
  | none, some after => { d with added := d.added ++ [name k after] }
  | some before, none => { d with deleted := d.deleted ++ [name k before] }
  | some before, some after =>
      if before ≠ after then { d with modified := d.modified ++ [name k after] } else d
  | none, none => d

def entryDiff (name : K → V → β) (m m' : BTreeMap K V) : EntryDiff β :=
  (unionKeys m m').foldl (diffKey name m m') ⟨[], [], []⟩

variable {m m' : BTreeMap K V} {name : K → V → β} {k : K} {x : β}

/-! ### The loop -/

/-- What a key adds to each of the lists. -/
def addedAt (name : K → V → β) (m m' : BTreeMap K V) (k : K) : Option β :=
  if m[k]? = none then m'[k]?.map (name k) else none

def deletedAt (name : K → V → β) (m m' : BTreeMap K V) (k : K) : Option β :=
  if m'[k]? = none then m[k]?.map (name k) else none

def modifiedAt (name : K → V → β) (m m' : BTreeMap K V) (k : K) : Option β :=
  if m[k]? ≠ none ∧ m[k]? ≠ m'[k]? then m'[k]?.map (name k) else none

theorem diffKey_eq (d : EntryDiff β) :
    diffKey name m m' d k = ⟨d.added ++ (addedAt name m m' k).toList,
      d.modified ++ (modifiedAt name m m' k).toList,
      d.deleted ++ (deletedAt name m m' k).toList⟩ := by
  rw [diffKey, addedAt, modifiedAt, deletedAt]
  cases hbefore : m[k]? with
  | none => cases hafter : m'[k]? <;> simp
  | some before =>
      cases hafter : m'[k]? with
      | none => simp
      | some after => by_cases heq : before = after <;> simp [heq]

theorem foldl_diffKey (keys : List K) (d : EntryDiff β) :
    keys.foldl (diffKey name m m') d = ⟨d.added ++ keys.filterMap (addedAt name m m'),
      d.modified ++ keys.filterMap (modifiedAt name m m'),
      d.deleted ++ keys.filterMap (deletedAt name m m')⟩ := by
  induction keys generalizing d with
  | nil => simp
  | cons k keys ih =>
      rw [List.foldl_cons, ih, diffKey_eq]
      simp only [List.filterMap_cons, List.append_assoc]
      cases addedAt name m m' k <;> cases modifiedAt name m m' k <;>
        cases deletedAt name m m' k <;> rfl

theorem entryDiff_eq : entryDiff name m m' = ⟨(unionKeys m m').filterMap (addedAt name m m'),
    (unionKeys m m').filterMap (modifiedAt name m m'),
    (unionKeys m m').filterMap (deletedAt name m m')⟩ := foldl_diffKey _ _

/-- The lists are in the order of the keys, where the names tell the keys. -/
theorem sorted_entryDiff {key : β → K}
    (hkey : ∀ k v, m[k]? = some v ∨ m'[k]? = some v → key (name k v) = k) :
    ∀ names ∈ [(entryDiff name m m').added, (entryDiff name m m').deleted,
        (entryDiff name m m').modified],
      names.Pairwise fun x y => compare (key x) (key y) = .lt := by
  have hmap : ∀ (n : BTreeMap K V) k x, n = m ∨ n = m' → n[k]?.map (name k) = some x →
      key x = k := by
    intro n k x hn hx
    obtain ⟨v, hv, rfl⟩ := Option.map_eq_some_iff.mp hx
    rcases hn with rfl | rfl
    · exact hkey k v (.inl hv)
    · exact hkey k v (.inr hv)
  rw [entryDiff_eq]
  simp only [List.forall_mem_cons, List.not_mem_nil, false_imp_iff, implies_true, and_true]
  refine ⟨sorted_filterMap (fun k x hx => ?_) sorted_unionKeys,
    sorted_filterMap (fun k x hx => ?_) sorted_unionKeys,
    sorted_filterMap (fun k x hx => ?_) sorted_unionKeys⟩
  · rw [addedAt] at hx
    split at hx
    · exact hmap m' k x (.inr rfl) hx
    · cases hx
  · rw [deletedAt] at hx
    split at hx
    · exact hmap m k x (.inl rfl) hx
    · cases hx
  · rw [modifiedAt] at hx
    split at hx
    · exact hmap m' k x (.inr rfl) hx
    · cases hx

/-! ### The lists -/

variable [Std.LawfulEqOrd K]

theorem mem_changedKeys : k ∈ changedKeys m m' ↔ m[k]? ≠ m'[k]? := by
  rw [changedKeys, List.mem_filter, mem_unionKeys, bne_iff_ne, and_iff_right_iff_imp]
  intro hne
  by_contra hnone
  rw [not_or, not_not, not_not] at hnone
  exact hne (hnone.1.trans hnone.2.symm)

theorem nodup_changedKeys : (changedKeys m m').Nodup := nodup_unionKeys.filter _

/-- The keys that are changed, under other names for keys and entries. -/
theorem perm_changedKeys_map {K' V' : Type} [Ord K'] [Std.TransOrd K'] [Std.LawfulEqOrd K']
    [DecidableEq V'] {n n' : BTreeMap K' V'} {f : K → K'} {g : V → V'}
    (hf : Function.Injective f) (hg : Function.Injective g)
    (hget : ∀ k, n[f k]? = m[k]?.map g) (hget' : ∀ k, n'[f k]? = m'[k]?.map g)
    (honto : ∀ k, n[k]? ≠ none ∨ n'[k]? ≠ none → k ∈ Set.range f) :
    (changedKeys n n').Perm ((changedKeys m m').map f) := by
  refine (List.perm_ext_iff_of_nodup nodup_changedKeys (nodup_changedKeys.map hf)).mpr fun k => ?_
  have hiff : ∀ k, n[f k]? ≠ n'[f k]? ↔ m[k]? ≠ m'[k]? := by
    intro k
    rw [hget, hget', (Option.map_injective hg).ne_iff]
  rw [mem_changedKeys, List.mem_map]
  constructor
  · intro hne
    obtain ⟨k, rfl⟩ := honto k (by
      by_contra hnone
      rw [not_or, not_not, not_not] at hnone
      exact hne (hnone.1.trans hnone.2.symm))
    exact ⟨k, mem_changedKeys.mpr ((hiff k).mp hne), rfl⟩
  · rintro ⟨k, hk, rfl⟩
    exact (hiff k).mpr (mem_changedKeys.mp hk)

theorem mem_added : x ∈ (entryDiff name m m').added ↔
    ∃ k v, m[k]? = none ∧ m'[k]? = some v ∧ name k v = x := by
  rw [entryDiff_eq, List.mem_filterMap]
  constructor
  · rintro ⟨k, -, hk⟩
    rw [addedAt] at hk
    split at hk
    · next hnone =>
        obtain ⟨v, hv, hname⟩ := Option.map_eq_some_iff.mp hk
        exact ⟨k, v, hnone, hv, hname⟩
    · cases hk
  · rintro ⟨k, v, hnone, hv, rfl⟩
    exact ⟨k, mem_unionKeys.mpr (.inr (by simp [hv])), by rw [addedAt, if_pos hnone, hv]; rfl⟩

theorem mem_deleted : x ∈ (entryDiff name m m').deleted ↔
    ∃ k v, m[k]? = some v ∧ m'[k]? = none ∧ name k v = x := by
  rw [entryDiff_eq, List.mem_filterMap]
  constructor
  · rintro ⟨k, -, hk⟩
    rw [deletedAt] at hk
    split at hk
    · next hnone =>
        obtain ⟨v, hv, hname⟩ := Option.map_eq_some_iff.mp hk
        exact ⟨k, v, hv, hnone, hname⟩
    · cases hk
  · rintro ⟨k, v, hv, hnone, rfl⟩
    exact ⟨k, mem_unionKeys.mpr (.inl (by simp [hv])), by rw [deletedAt, if_pos hnone, hv]; rfl⟩

theorem mem_modified : x ∈ (entryDiff name m m').modified ↔
    ∃ k v v', m[k]? = some v ∧ m'[k]? = some v' ∧ v ≠ v' ∧ name k v' = x := by
  rw [entryDiff_eq, List.mem_filterMap]
  constructor
  · rintro ⟨k, -, hk⟩
    rw [modifiedAt] at hk
    split at hk
    · next hcond =>
        obtain ⟨v', hv', hname⟩ := Option.map_eq_some_iff.mp hk
        obtain ⟨v, hv⟩ := Option.ne_none_iff_exists'.mp hcond.1
        exact ⟨k, v, v', hv, hv', fun heq => hcond.2 (by rw [hv, hv', heq]), hname⟩
    · cases hk
  · rintro ⟨k, v, v', hv, hv', hne, rfl⟩
    refine ⟨k, mem_unionKeys.mpr (.inl (by simp [hv])), ?_⟩
    rw [modifiedAt, if_pos (by simp [hv, hv', hne]), hv']
    rfl

end MapDiff
