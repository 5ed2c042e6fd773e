/-
RGit/Graph/Merge.lean

The three-way merge of `rgit-graph` over full manifest trees.

`mergeThreeWay` walks over the paths of the three trees and decides each of
them on its own (`mergeStep_eq`), so the plan is read off the three lookups
path by path (`mergeThreeWay_eq_ok`).
-/
import RGit.Graph.Tree
import RGit.Objects.Admission

namespace RGit.Graph

section Merge

variable [Unicode]

inductive ConflictKind where
  | addAdd
  | bothModified
  | deleteModify
  deriving DecidableEq

/-- One immutable side of a merge conflict. -/
structure ConflictSide where
  target : ManifestTarget
  policyRef : PolicyRef
  deriving DecidableEq

/-- `ConflictSide::from(&TreeEntry)`. -/
def ConflictSide.ofEntry (entry : TreeEntry) : ConflictSide := ⟨entry.target, entry.policyRef⟩

/-- A path-level conflict with every source reference preserved. -/
structure MergeConflict where
  path : PortablePath
  kind : ConflictKind
  base : Option ConflictSide
  line : Option ConflictSide
  incoming : Option ConflictSide
  sourcePolicyRefs : List PolicyRef
  deriving DecidableEq

structure MergePlan where
  mergedEntries : List TreeEntry
  conflicts : List MergeConflict
  deriving DecidableEq

inductive MergeError where
  | duplicatePath (input : String)
  | portablePathCollision (input : String) (first second : PortablePath)
  deriving DecidableEq

/-- `entries_by_path`. -/
def entriesByPath (input : String) (entries : List TreeEntry) :
    Except MergeError (BTreeMap PathKey TreeEntry) := do
  let byPath ← entries.foldlM (fun byPath entry =>
    if byPath.contains entry.pathKey then .error (MergeError.duplicatePath input)
    else .ok (byPath.insert entry.pathKey entry)) ∅
  match firstPortableCollision byPath with
  | some (first, second) => .error (.portablePathCollision input first second)
  | none => .ok byPath

/-- `source_policy_refs.push` of a reference that is not in the list. -/
def pushPolicyRef (refs : List PolicyRef) (entry : TreeEntry) : List PolicyRef :=
  if refs.contains entry.policyRef then refs else refs ++ [entry.policyRef]

/-- `conflict`. -/
def conflict (path : PortablePath) (base line incoming : Option TreeEntry) : MergeConflict where
  path := path
  kind :=
    match base, line, incoming with
    | none, some _, some _ => .addAdd
    | some _, none, some _ => .deleteModify
    | some _, some _, none => .deleteModify
    | _, _, _ => .bothModified
  base := base.map ConflictSide.ofEntry
  line := line.map ConflictSide.ofEntry
  incoming := incoming.map ConflictSide.ofEntry
  sourcePolicyRefs := ([line, incoming, base].filterMap id).foldl pushPolicyRef []

/-- `plan.merged_entries.push` of an entry that is there. -/
def MergePlan.keep (plan : MergePlan) : Option TreeEntry → MergePlan
  | some entry => { plan with mergedEntries := plan.mergedEntries ++ [entry] }
  | none => plan

/-- The body of the loop over all paths. -/
def mergeStep (base line incoming : BTreeMap PathKey TreeEntry) (plan : MergePlan)
    (key : PathKey) : MergePlan :=
  let baseEntry := base[key]?
  let lineEntry := (line)[key]?
  let incomingEntry := incoming[key]?
  if lineEntry = incomingEntry then plan.keep lineEntry
  else
    let lineChanged := decide (baseEntry ≠ lineEntry)
    let incomingChanged := decide (baseEntry ≠ incomingEntry)
    match lineChanged, incomingChanged with
    | false, true => plan.keep incomingEntry
    | true, false => plan.keep lineEntry
    | false, false => plan.keep baseEntry
    | true, true =>
        match (lineEntry.or incomingEntry).or baseEntry with
        | none => plan
        | some source =>
            { plan with
              conflicts := plan.conflicts ++
                [conflict source.path baseEntry lineEntry incomingEntry] }

/-- All paths of the three trees, each once and in order. -/
def allPaths (base line incoming : BTreeMap PathKey TreeEntry) : List PathKey :=
  (Std.ExtTreeSet.ofList (base.keys ++ line.keys ++ incoming.keys) compare).toList

/-- `merge_three_way`. -/
def mergeThreeWay (base line incoming : List TreeEntry) : Except MergeError MergePlan := do
  let base ← entriesByPath "base" base
  let line ← entriesByPath "line" line
  let incoming ← entriesByPath "incoming" incoming
  let plan := (allPaths base line incoming).foldl (mergeStep base line incoming) ⟨[], []⟩
  let merged ← entriesByPath "merged result" plan.mergedEntries
  match firstPortableCollision merged with
  | some (first, second) => .error (.portablePathCollision "merged result" first second)
  | none => .ok plan

/-! ### Trees by path -/

theorem pathKeyBytes_injective : Function.Injective pathKeyBytes := by
  intro p q h
  refine PortablePath.segments_injective (List.map_injective_iff.mpr (fun s t hst => ?_) h)
  exact PathSegment.ext_value (utf8Bytes_injective hst)

/-- A tree as the algorithms take it: no path twice and no portable collision. -/
def ValidTree (entries : List TreeEntry) : Prop :=
  (entries.map (·.path)).Nodup ∧
    entries.Pairwise fun a b => ¬ Collide a.path.segments b.path.segments

/-- The entry of a tree at a path. -/
def entryAt (entries : List TreeEntry) (p : PortablePath) : Option TreeEntry :=
  entries.find? fun e => e.path = p

theorem entryAt_eq_some {entries : List TreeEntry} (h : (entries.map (·.path)).Nodup)
    {p : PortablePath} {e : TreeEntry} :
    entryAt entries p = some e ↔ e ∈ entries ∧ e.path = p := by
  constructor
  · intro he
    exact ⟨List.mem_of_find?_eq_some he, by simpa using List.find?_some he⟩
  · rintro ⟨he, rfl⟩
    obtain ⟨e', he'⟩ : ∃ e', entryAt entries e.path = some e' :=
      Option.isSome_iff_exists.mp (List.find?_isSome.mpr ⟨e, he, by simp⟩)
    have hpath : e'.path = e.path := by simpa using List.find?_some he'
    rw [he', List.inj_on_of_nodup_map h (List.mem_of_find?_eq_some he') he hpath]

theorem entryAt_eq_none {entries : List TreeEntry} {p : PortablePath} :
    entryAt entries p = none ↔ p ∉ entries.map (·.path) := by
  simp [entryAt]

theorem nodup_pathKey {entries : List TreeEntry} :
    (entries.map (·.pathKey)).Nodup ↔ (entries.map (·.path)).Nodup := by
  rw [← List.nodup_map_iff pathKeyBytes_injective, List.map_map]
  rfl

/-- Collisions do not depend on the order of the entries. -/
theorem pairwise_collide_perm {entries entries' : List TreeEntry} (h : entries.Perm entries') :
    (entries.Pairwise fun a b => ¬ Collide a.path.segments b.path.segments) ↔
      entries'.Pairwise fun a b => ¬ Collide a.path.segments b.path.segments :=
  h.pairwise_iff fun hab hba => hab hba.symm

theorem ValidTree.perm {entries entries' : List TreeEntry} (h : ValidTree entries)
    (hperm : entries.Perm entries') : ValidTree entries' :=
  ⟨(hperm.map _).nodup_iff.mp h.1, (pairwise_collide_perm hperm).mp h.2⟩

/-- What the first loop of `entries_by_path` fills in. -/
theorem fillByPath_get {input : String} {entries : List TreeEntry}
    {byPath : BTreeMap PathKey TreeEntry}
    (h : insertUnique TreeEntry.pathKey id (fun _ => MergeError.duplicatePath input) entries ∅ =
      .ok byPath) {k : PathKey} {e : TreeEntry} :
    byPath[k]? = some e ↔ e ∈ entries ∧ e.pathKey = k := by
  rw [insertUnique_get h]
  simp only [Std.ExtTreeMap.getElem?_empty, reduceCtorEq, false_or, id]
  constructor
  · rintro ⟨a, ha, hk, rfl⟩
    exact ⟨ha, hk⟩
  · rintro ⟨he, hk⟩
    exact ⟨e, he, hk, rfl⟩

theorem values_perm_of_get {entries : List TreeEntry} {byPath : BTreeMap PathKey TreeEntry}
    (hnodup : (entries.map (·.path)).Nodup)
    (hget : ∀ k e, byPath[k]? = some e ↔ e ∈ entries ∧ e.pathKey = k) :
    byPath.values.Perm entries := by
  have hkeys : byPath.values.map TreeEntry.pathKey = byPath.toList.map (·.1) := by
    rw [BTreeMap.values_eq_map_toList, List.map_map]
    refine List.map_congr_left fun entry hentry => ?_
    exact ((hget _ _).mp (BTreeMap.mem_toList_iff_get.mp hentry)).2
  have hvalues : byPath.values.Nodup :=
    List.Nodup.of_map TreeEntry.pathKey (hkeys ▸ byPath.nodup_keys)
  refine (List.perm_ext_iff_of_nodup hvalues (List.Nodup.of_map _ hnodup)).mpr fun e => ?_
  rw [BTreeMap.mem_values_iff]
  simp only [hget]
  exact ⟨fun ⟨_, he, _⟩ => he, fun he => ⟨_, he, rfl⟩⟩

/-- `entries_by_path` accepts the valid trees, and keeps all their entries. -/
theorem entriesByPath_isOk {input : String} {entries : List TreeEntry} :
    (∃ byPath, entriesByPath input entries = .ok byPath) ↔ ValidTree entries := by
  have hfill : (∃ byPath, insertUnique TreeEntry.pathKey id
      (fun _ => MergeError.duplicatePath input) entries ∅ = .ok byPath) ↔
      (entries.map (·.path)).Nodup := by
    rw [insertUnique_isOk, nodup_pathKey]
    simp
  have hcheck : ∀ {byPath}, insertUnique TreeEntry.pathKey id
      (fun _ => MergeError.duplicatePath input) entries ∅ = .ok byPath →
      (firstPortableCollision byPath = none ↔
        entries.Pairwise fun a b => ¬ Collide a.path.segments b.path.segments) := by
    intro byPath h
    have hperm := values_perm_of_get (hfill.mp ⟨byPath, h⟩) fun k e => fillByPath_get h
    have hsegments : (byPath.values.map (·.path.segments)).Nodup := by
      have hnodup := (hperm.map TreeEntry.path).nodup_iff.mpr (hfill.mp ⟨byPath, h⟩)
      have hsegments := hnodup.map PortablePath.segments_injective
      rw [List.map_map] at hsegments
      exact hsegments
    rw [firstPortableCollision_eq_none hsegments, pairwise_collide_perm hperm]
  constructor
  · rintro ⟨byPath, h⟩
    obtain ⟨filled, hfilled, h⟩ := Except.bind_eq_ok.mp h
    refine ⟨hfill.mp ⟨filled, hfilled⟩, (hcheck hfilled).mp ?_⟩
    cases hc : firstPortableCollision filled with
    | none => rfl
    | some pair =>
        rw [hc] at h
        cases h
  · rintro ⟨hnodup, hpairs⟩
    obtain ⟨filled, hfilled⟩ := hfill.mpr hnodup
    refine ⟨filled, Except.bind_eq_ok.mpr ⟨filled, hfilled, ?_⟩⟩
    rw [(hcheck hfilled).mpr hpairs]

theorem entriesByPath_get {input : String} {entries : List TreeEntry}
    {byPath : BTreeMap PathKey TreeEntry} (h : entriesByPath input entries = .ok byPath)
    {k : PathKey} {e : TreeEntry} : byPath[k]? = some e ↔ e ∈ entries ∧ e.pathKey = k := by
  obtain ⟨filled, hfilled, h⟩ := Except.bind_eq_ok.mp h
  cases hc : firstPortableCollision filled with
  | none =>
      rw [hc] at h
      cases h
      exact fillByPath_get hfilled
  | some pair =>
      rw [hc] at h
      cases h

theorem get_pathKeyBytes {input : String} {entries : List TreeEntry}
    {byPath : BTreeMap PathKey TreeEntry} (h : entriesByPath input entries = .ok byPath)
    (p : PortablePath) : byPath[pathKeyBytes p]? = entryAt entries p := by
  ext e
  rw [entriesByPath_get h, entryAt_eq_some (entriesByPath_isOk.mp ⟨byPath, h⟩).1]
  exact and_congr_right fun _ => pathKeyBytes_injective.eq_iff

/-! ### One path -/

/-- What the three-way rule keeps at a path. -/
def kept (base line incoming : Option TreeEntry) : Option TreeEntry :=
  if line = incoming then line
  else if base = line then incoming
  else if base = incoming then line
  else none

/-- Both sides changed the path, and not to the same. -/
def Contested (base line incoming : Option TreeEntry) : Prop :=
  line ≠ incoming ∧ base ≠ line ∧ base ≠ incoming

instance (base line incoming : Option TreeEntry) : Decidable (Contested base line incoming) :=
  inferInstanceAs (Decidable (_ ∧ _ ∧ _))

/-- The conflict at a path, if there is one. -/
def contested (base line incoming : Option TreeEntry) : Option MergeConflict :=
  if Contested base line incoming then
    ((line.or incoming).or base).map fun source => conflict source.path base line incoming
  else none

theorem mergeStep_eq (base line incoming : BTreeMap PathKey TreeEntry) (plan : MergePlan)
    (key : PathKey) :
    mergeStep base line incoming plan key =
      ⟨plan.mergedEntries ++ (kept base[key]? (line)[key]? incoming[key]?).toList,
        plan.conflicts ++ (contested base[key]? (line)[key]? incoming[key]?).toList⟩ := by
  have hkeep : ∀ e : Option TreeEntry,
      plan.keep e = ⟨plan.mergedEntries ++ e.toList, plan.conflicts⟩ := by
    intro e
    cases e <;> simp [MergePlan.keep]
  rw [mergeStep]
  generalize base[key]? = b
  generalize (line)[key]? = l
  generalize incoming[key]? = i
  dsimp only
  by_cases hli : l = i
  · simp [hli, hkeep, kept, contested, Contested]
  · by_cases hbl : b = l
    · have hbi : b ≠ i := fun hbi => hli (hbl.symm.trans hbi)
      simp [hli, hbl, hkeep, kept, contested, Contested]
    · by_cases hbi : b = i
      · simp [hli, hbi, Ne.symm hli, hkeep, kept, contested, Contested]
      · have hcontested : Contested b l i := ⟨hli, hbl, hbi⟩
        simp only [hli, hbl, hbi, if_false, ne_eq, not_false_eq_true, decide_true, kept,
          contested, hcontested, if_true, Option.toList_none, List.append_nil]
        cases (l.or i).or b <;> simp

/-- The plan before the collision check. -/
def planOf (base line incoming : BTreeMap PathKey TreeEntry) : MergePlan where
  mergedEntries := (allPaths base line incoming).filterMap fun key =>
    kept base[key]? (line)[key]? incoming[key]?
  conflicts := (allPaths base line incoming).filterMap fun key =>
    contested base[key]? (line)[key]? incoming[key]?

theorem foldl_mergeStep (base line incoming : BTreeMap PathKey TreeEntry) :
    (allPaths base line incoming).foldl (mergeStep base line incoming) ⟨[], []⟩ =
      planOf base line incoming := by
  have hloop : ∀ (keys : List PathKey) (plan : MergePlan),
      keys.foldl (mergeStep base line incoming) plan =
        ⟨plan.mergedEntries ++ keys.filterMap fun key =>
            kept base[key]? (line)[key]? incoming[key]?,
          plan.conflicts ++ keys.filterMap fun key =>
            contested base[key]? (line)[key]? incoming[key]?⟩ := by
    intro keys
    induction keys with
    | nil => simp
    | cons key keys ih =>
        intro plan
        rw [List.foldl_cons, ih, mergeStep_eq]
        simp only [List.filterMap_cons, List.append_assoc]
        cases kept base[key]? (line)[key]? incoming[key]? <;>
          cases contested base[key]? (line)[key]? incoming[key]? <;> simp
  rw [hloop]
  rfl

/-- **The plan, read off the three lookups.** -/
theorem mergeThreeWay_eq_ok {base line incoming : List TreeEntry} {plan : MergePlan} :
    mergeThreeWay base line incoming = .ok plan ↔
      ∃ b l i, entriesByPath "base" base = .ok b ∧ entriesByPath "line" line = .ok l ∧
        entriesByPath "incoming" incoming = .ok i ∧ plan = planOf b l i ∧
        ValidTree plan.mergedEntries := by
  rw [mergeThreeWay]
  simp only [Except.bind_eq_ok, foldl_mergeStep]
  constructor
  · rintro ⟨b, hb, l, hl, i, hi, merged, hmerged, h⟩
    split at h
    · cases h
    · cases h
      exact ⟨b, l, i, hb, hl, hi, rfl, entriesByPath_isOk.mp ⟨merged, hmerged⟩⟩
  · rintro ⟨b, l, i, hb, hl, hi, rfl, hvalid⟩
    obtain ⟨merged, hmerged⟩ : ∃ merged, entriesByPath "merged result"
        (planOf b l i).mergedEntries = .ok merged := entriesByPath_isOk.mpr hvalid
    refine ⟨b, hb, l, hl, i, hi, merged, hmerged, ?_⟩
    -- the same check has passed inside `entries_by_path`
    obtain ⟨filled, -, hcheck⟩ := Except.bind_eq_ok.mp hmerged
    cases hc : firstPortableCollision filled with
    | none =>
        rw [hc] at hcheck
        cases hcheck
        rw [hc]
    | some pair =>
        rw [hc] at hcheck
        cases hcheck

/-! ### All paths -/

theorem kept_mem {base line incoming : Option TreeEntry} {e : TreeEntry}
    (h : kept base line incoming = some e) : line = some e ∨ incoming = some e := by
  rw [kept] at h
  split at h
  · exact .inl h
  · split at h
    · exact .inr h
    · split at h
      · exact .inl h
      · cases h

theorem contested_eq_some {base line incoming : Option TreeEntry} {c : MergeConflict} :
    contested base line incoming = some c ↔ Contested base line incoming ∧
      ∃ source, (line.or incoming).or base = some source ∧
        c = conflict source.path base line incoming := by
  rw [contested]
  split
  · next h =>
      simp only [Option.map_eq_some_iff, h, true_and]
      exact exists_congr fun source => and_congr_right fun _ => eq_comm
  · next h => simp [h]

theorem kept_eq_none_of_contested {base line incoming : Option TreeEntry}
    (h : Contested base line incoming) : kept base line incoming = none := by
  simp [kept, h.1, h.2.1, h.2.2]

section Paths

variable {b l i : BTreeMap PathKey TreeEntry}

theorem mem_allPaths {key : PathKey} : key ∈ allPaths b l i ↔ key ∈ b ∨ key ∈ l ∨ key ∈ i := by
  simp [allPaths, Std.ExtTreeSet.mem_ofList]

theorem nodup_allPaths : (allPaths b l i).Nodup :=
  Std.ExtTreeSet.distinct_toList.imp compare_ne_eq_iff.mp

/-- A tree stores every entry under its own path. -/
def Keyed (m : BTreeMap PathKey TreeEntry) : Prop :=
  ∀ (k : PathKey) (e : TreeEntry), m[k]? = some e → e.pathKey = k

theorem entriesByPath_keyed {input : String} {entries : List TreeEntry}
    {byPath : BTreeMap PathKey TreeEntry} (h : entriesByPath input entries = .ok byPath) :
    Keyed byPath := fun _ _ he => ((entriesByPath_get h).mp he).2

variable (hb : Keyed b) (hl : Keyed l) (hi : Keyed i)

include hl hi in
theorem kept_keyed (key : PathKey) (e : TreeEntry) (h : kept b[key]? l[key]? i[key]? = some e) :
    e.pathKey = key :=
  (kept_mem h).elim (hl key e) (hi key e)

include hb hl hi in
theorem contested_keyed (key : PathKey) (c : MergeConflict)
    (h : contested b[key]? l[key]? i[key]? = some c) : pathKeyBytes c.path = key := by
  obtain ⟨-, source, hsource, rfl⟩ := contested_eq_some.mp h
  rw [Option.or_eq_some_iff, Option.or_eq_some_iff] at hsource
  rcases hsource with (h | ⟨-, h⟩) | ⟨-, h⟩
  · exact hl key source h
  · exact hi key source h
  · exact hb key source h

include hl hi in
/-- The plan keeps at each path what the rule says. -/
theorem entryAt_planOf (p : PortablePath) :
    entryAt (planOf b l i).mergedEntries p =
      kept b[pathKeyBytes p]? l[pathKeyBytes p]? i[pathKeyBytes p]? := by
  have hmem : kept b[pathKeyBytes p]? l[pathKeyBytes p]? i[pathKeyBytes p]? ≠ none →
      pathKeyBytes p ∈ allPaths b l i := by
    intro h
    obtain ⟨e, he⟩ := Option.ne_none_iff_exists'.mp h
    rw [mem_allPaths, BTreeMap.mem_iff_get, BTreeMap.mem_iff_get, BTreeMap.mem_iff_get]
    exact .inr ((kept_mem he).imp (fun h => ⟨e, h⟩) fun h => ⟨e, h⟩)
  have hfilter := filter_filterMap_key (kept_keyed (b := b) hl hi) nodup_allPaths hmem
  have hpath : ∀ e : TreeEntry, (e.pathKey = pathKeyBytes p) = (e.path = p) := fun e =>
    propext pathKeyBytes_injective.eq_iff
  simp only [hpath] at hfilter
  rw [entryAt, ← List.head?_filter]
  refine (congrArg List.head? hfilter).trans ?_
  cases kept b[pathKeyBytes p]? l[pathKeyBytes p]? i[pathKeyBytes p]? <;> rfl

include hb hl hi in
/-- It reports at each path the conflict that the rule leaves there. -/
theorem conflictsAt_planOf (p : PortablePath) :
    ((planOf b l i).conflicts.filter fun c => c.path = p) =
      (contested b[pathKeyBytes p]? l[pathKeyBytes p]? i[pathKeyBytes p]?).toList := by
  have hmem : contested b[pathKeyBytes p]? l[pathKeyBytes p]? i[pathKeyBytes p]? ≠ none →
      pathKeyBytes p ∈ allPaths b l i := by
    intro h
    obtain ⟨c, hc⟩ := Option.ne_none_iff_exists'.mp h
    obtain ⟨-, source, hsource, -⟩ := contested_eq_some.mp hc
    rw [mem_allPaths, BTreeMap.mem_iff_get, BTreeMap.mem_iff_get, BTreeMap.mem_iff_get]
    rw [Option.or_eq_some_iff, Option.or_eq_some_iff] at hsource
    rcases hsource with (h | ⟨-, h⟩) | ⟨-, h⟩
    · exact .inr (.inl ⟨source, h⟩)
    · exact .inr (.inr ⟨source, h⟩)
    · exact .inl ⟨source, h⟩
  have hfilter := filter_filterMap_key (contested_keyed hb hl hi) nodup_allPaths hmem
  simp only [pathKeyBytes_injective.eq_iff] at hfilter
  exact hfilter

include hb hl hi in
/-- No path is decided twice. -/
theorem nodup_planOf :
    ((planOf b l i).mergedEntries.map (·.path) ++
      (planOf b l i).conflicts.map (·.path)).Nodup := by
  rw [← List.nodup_map_iff pathKeyBytes_injective, List.map_append, List.map_map, List.map_map]
  have hmerged := map_key_filterMap (kept_keyed (b := b) hl hi) (allPaths b l i)
  have hconflicts := map_key_filterMap (contested_keyed hb hl hi) (allPaths b l i)
  refine List.nodup_append.mpr ⟨?_, ?_, ?_⟩
  · exact hmerged ▸ nodup_allPaths.filter _
  · exact hconflicts ▸ nodup_allPaths.filter _
  · intro k hk k' hk' heq
    have hk := (congrArg (k ∈ ·) hmerged).mp hk
    have hk' := (congrArg (k' ∈ ·) hconflicts).mp hk'
    rw [List.mem_filter, Option.isSome_iff_exists] at hk hk'
    obtain ⟨-, e, he⟩ := hk
    obtain ⟨-, c, hc⟩ := hk'
    rw [heq, kept_eq_none_of_contested (contested_eq_some.mp hc).1] at he
    cases he

end Paths

/-! ### Policy references -/

/-- The references of a conflict are those of its sides, each once. -/
theorem pushPolicyRefs (entries : List TreeEntry) :
    (entries.foldl pushPolicyRef []).Nodup ∧
      ∀ r, r ∈ entries.foldl pushPolicyRef [] ↔ ∃ e ∈ entries, e.policyRef = r := by
  have hloop : ∀ (entries : List TreeEntry) (refs : List PolicyRef), refs.Nodup →
      (entries.foldl pushPolicyRef refs).Nodup ∧
        ∀ r, r ∈ entries.foldl pushPolicyRef refs ↔
          r ∈ refs ∨ ∃ e ∈ entries, e.policyRef = r := by
    intro entries
    induction entries with
    | nil =>
        intro refs hrefs
        simpa using hrefs
    | cons e entries ih =>
        intro refs hrefs
        have hpush : (pushPolicyRef refs e).Nodup ∧
            ∀ r, r ∈ pushPolicyRef refs e ↔ r ∈ refs ∨ e.policyRef = r := by
          rw [pushPolicyRef]
          by_cases hmem : e.policyRef ∈ refs
          · rw [if_pos (List.contains_iff_mem.mpr hmem)]
            refine ⟨hrefs, fun r => ⟨.inl, ?_⟩⟩
            rintro (h | rfl)
            · exact h
            · exact hmem
          · rw [if_neg (by simpa using hmem)]
            refine ⟨List.nodup_append.mpr ⟨hrefs, List.nodup_singleton _, ?_⟩, fun r => ?_⟩
            · rintro r hr _ hs rfl
              exact hmem (List.mem_singleton.mp hs ▸ hr)
            · rw [List.mem_append, List.mem_singleton, eq_comm]
        obtain ⟨hnodup, hall⟩ := ih (pushPolicyRef refs e) hpush.1
        refine ⟨hnodup, fun r => ?_⟩
        rw [List.foldl_cons, hall, hpush.2, or_assoc, List.exists_mem_cons_iff]
  simpa using hloop entries [] List.nodup_nil

theorem mem_sourcePolicyRefs (path : PortablePath) {base line incoming : Option TreeEntry}
    {r : PolicyRef} :
    r ∈ (conflict path base line incoming).sourcePolicyRefs ↔
      ∃ e, (line = some e ∨ incoming = some e ∨ base = some e) ∧ e.policyRef = r := by
  refine ((pushPolicyRefs _).2 r).trans (exists_congr fun e => and_congr_left fun _ => ?_)
  simp [eq_comm]

/-- The two conflicts of a merge and of the merge with its sides exchanged. -/
structure Swapped (c c' : MergeConflict) : Prop where
  path : c'.path = c.path
  kind : c'.kind = c.kind
  base : c'.base = c.base
  line : c'.line = c.incoming
  incoming : c'.incoming = c.line
  refs : c'.sourcePolicyRefs.Perm c.sourcePolicyRefs

theorem conflict_swapped (path : PortablePath) (base line incoming : Option TreeEntry) :
    Swapped (conflict path base line incoming) (conflict path base incoming line) where
  path := rfl
  kind := by cases base <;> cases line <;> cases incoming <;> rfl
  base := rfl
  line := rfl
  incoming := rfl
  refs := by
    refine (List.perm_ext_iff_of_nodup (pushPolicyRefs _).1 (pushPolicyRefs _).1).mpr fun r => ?_
    refine (mem_sourcePolicyRefs path).trans (Iff.trans ?_ (mem_sourcePolicyRefs path).symm)
    exact exists_congr fun e => and_congr_left fun _ => or_left_comm

theorem contested_swapped {base line incoming : Option TreeEntry}
    (hpath : ∀ e e', line = some e → incoming = some e' → e.path = e'.path) :
    Option.Rel Swapped (contested base line incoming) (contested base incoming line) := by
  by_cases hc : Contested base line incoming
  · have hc' : Contested base incoming line := ⟨hc.1.symm, hc.2.2, hc.2.1⟩
    rw [contested, if_pos hc, contested, if_pos hc']
    cases line with
    | none =>
        cases incoming with
        | none => exact absurd rfl hc.1
        | some e => exact .some (conflict_swapped _ _ _ _)
    | some e =>
        cases incoming with
        | none => exact .some (conflict_swapped _ _ _ _)
        | some e' =>
            simp only [Option.some_or, Option.map_some, hpath e e' rfl rfl]
            exact .some (conflict_swapped _ _ _ _)
  · have hc' : ¬ Contested base incoming line := fun h => hc ⟨h.1.symm, h.2.2, h.2.1⟩
    rw [contested, if_neg hc, contested, if_neg hc']
    exact .none

/-! ### The plan -/

theorem kept_comm (base line incoming : Option TreeEntry) :
    kept base incoming line = kept base line incoming := by
  by_cases hli : line = incoming
  · rw [hli]
  · by_cases hbl : base = line
    · subst hbl
      simp [kept, hli, Ne.symm hli]
    · by_cases hbi : base = incoming
      · subst hbi
        simp [kept, hli, Ne.symm hli]
      · simp [kept, hli, hbl, hbi, Ne.symm hli]

theorem allPaths_comm (b l i : BTreeMap PathKey TreeEntry) : allPaths b i l = allPaths b l i := by
  have hset : (Std.ExtTreeSet.ofList (b.keys ++ i.keys ++ l.keys) : BTreeSet PathKey) =
      Std.ExtTreeSet.ofList (b.keys ++ l.keys ++ i.keys) := by
    refine Std.ExtTreeSet.ext_mem fun k => ?_
    simp [Std.ExtTreeSet.mem_ofList, or_comm]
  rw [allPaths, hset, allPaths]

/-- A tree is read in any order. -/
theorem entriesByPath_perm {input input' : String} {entries entries' : List TreeEntry}
    {byPath : BTreeMap PathKey TreeEntry} (h : entriesByPath input entries = .ok byPath)
    (hperm : entries.Perm entries') : entriesByPath input' entries' = .ok byPath := by
  have hvalid := (entriesByPath_isOk.mp ⟨byPath, h⟩).perm hperm
  obtain ⟨byPath', h'⟩ : ∃ byPath', entriesByPath input' entries' = .ok byPath' :=
    entriesByPath_isOk.mpr hvalid
  have heq : byPath' = byPath := by
    refine Std.ExtTreeMap.ext_getElem? fun k => Option.ext fun e => ?_
    rw [entriesByPath_get h, entriesByPath_get h', hperm.mem_iff]
  rw [h', heq]

section Plan

variable {base line incoming : List TreeEntry} {plan : MergePlan}

theorem validTree_of_merge (h : mergeThreeWay base line incoming = .ok plan) :
    ValidTree base ∧ ValidTree line ∧ ValidTree incoming := by
  obtain ⟨b, l, i, hb, hl, hi, -, -⟩ := mergeThreeWay_eq_ok.mp h
  exact ⟨entriesByPath_isOk.mp ⟨b, hb⟩, entriesByPath_isOk.mp ⟨l, hl⟩,
    entriesByPath_isOk.mp ⟨i, hi⟩⟩

theorem entryAt_plan (h : mergeThreeWay base line incoming = .ok plan) (p : PortablePath) :
    entryAt plan.mergedEntries p = kept (entryAt base p) (entryAt line p) (entryAt incoming p) := by
  obtain ⟨b, l, i, hb, hl, hi, rfl, -⟩ := mergeThreeWay_eq_ok.mp h
  rw [entryAt_planOf (entriesByPath_keyed hl) (entriesByPath_keyed hi), get_pathKeyBytes hb,
    get_pathKeyBytes hl, get_pathKeyBytes hi]

theorem conflictsAt_plan (h : mergeThreeWay base line incoming = .ok plan) (p : PortablePath) :
    (plan.conflicts.filter fun c => c.path = p) =
      (contested (entryAt base p) (entryAt line p) (entryAt incoming p)).toList := by
  obtain ⟨b, l, i, hb, hl, hi, rfl, -⟩ := mergeThreeWay_eq_ok.mp h
  rw [conflictsAt_planOf (entriesByPath_keyed hb) (entriesByPath_keyed hl)
    (entriesByPath_keyed hi), get_pathKeyBytes hb, get_pathKeyBytes hl, get_pathKeyBytes hi]

/-- There is a conflict exactly at the contested paths. -/
theorem mem_conflictPaths (h : mergeThreeWay base line incoming = .ok plan) {p : PortablePath} :
    p ∈ plan.conflicts.map (·.path) ↔
      Contested (entryAt base p) (entryAt line p) (entryAt incoming p) := by
  have hfilter := conflictsAt_plan h p
  constructor
  · intro hp
    obtain ⟨c, hc, rfl⟩ := List.mem_map.mp hp
    have hmem : c ∈ plan.conflicts.filter fun c' => c'.path = c.path := by simp [hc]
    rw [hfilter, Option.mem_toList] at hmem
    exact (contested_eq_some.mp hmem).1
  · intro hcontested
    obtain ⟨source, hsource⟩ : ∃ source,
        ((entryAt line p).or (entryAt incoming p)).or (entryAt base p) = some source := by
      cases hl : entryAt line p with
      | some e => exact ⟨e, rfl⟩
      | none =>
          cases hi : entryAt incoming p with
          | some e => exact ⟨e, rfl⟩
          | none => exact absurd (hl.trans hi.symm) hcontested.1
    have hc := contested_eq_some.mpr ⟨hcontested, source, hsource, rfl⟩
    rw [hc] at hfilter
    have hmem : conflict source.path (entryAt base p) (entryAt line p) (entryAt incoming p) ∈
        plan.conflicts.filter fun c => c.path = p := by
      rw [hfilter]
      exact List.mem_singleton_self _
    rw [List.mem_filter, decide_eq_true_eq] at hmem
    exact List.mem_map.mpr ⟨_, hmem⟩

/-- The plan keeps `e` at the path, or nothing, and reports no conflict. -/
def MergePlan.Keeps (plan : MergePlan) (p : PortablePath) (e : Option TreeEntry) : Prop :=
  entryAt plan.mergedEntries p = e ∧ p ∉ plan.conflicts.map (·.path)

/-- The plan keeps nothing at the path and reports one conflict there, with
the three sides and their policy references. -/
def MergePlan.Reports (plan : MergePlan) (p : PortablePath)
    (base line incoming : Option TreeEntry) : Prop :=
  entryAt plan.mergedEntries p = none ∧
    ∃ c, (plan.conflicts.filter fun c => c.path = p) = [c] ∧
      c.base = base.map ConflictSide.ofEntry ∧ c.line = line.map ConflictSide.ofEntry ∧
      c.incoming = incoming.map ConflictSide.ofEntry ∧ c.sourcePolicyRefs.Nodup ∧
      ∀ r, r ∈ c.sourcePolicyRefs ↔
        ∃ e, (line = some e ∨ incoming = some e ∨ base = some e) ∧ e.policyRef = r

/-- The three-way rule at a path. -/
structure Decided (base line incoming : List TreeEntry) (plan : MergePlan) (p : PortablePath) :
    Prop where
  same : entryAt line p = entryAt incoming p → plan.Keeps p (entryAt line p)
  incomingOnly : entryAt base p = entryAt line p → plan.Keeps p (entryAt incoming p)
  lineOnly : entryAt base p = entryAt incoming p → plan.Keeps p (entryAt line p)
  both : entryAt line p ≠ entryAt incoming p → entryAt base p ≠ entryAt line p →
    entryAt base p ≠ entryAt incoming p →
    plan.Reports p (entryAt base p) (entryAt line p) (entryAt incoming p)

theorem decided_plan (h : mergeThreeWay base line incoming = .ok plan) (p : PortablePath) :
    Decided base line incoming plan p := by
  have hkept := entryAt_plan h p
  have hconflict := mem_conflictPaths h (p := p)
  refine ⟨fun hli => ?_, fun hbl => ?_, fun hbi => ?_, fun hli hbl hbi => ?_⟩
  · refine ⟨hkept.trans ?_, fun hp => (hconflict.mp hp).1 hli⟩
    simp [kept, hli]
  · refine ⟨hkept.trans ?_, fun hp => (hconflict.mp hp).2.1 hbl⟩
    by_cases hli : entryAt line p = entryAt incoming p <;> simp [kept, hbl, hli]
  · refine ⟨hkept.trans ?_, fun hp => (hconflict.mp hp).2.2 hbi⟩
    by_cases hli : entryAt line p = entryAt incoming p
    · simp [kept, hli]
    · simp [kept, hbi, hli, Ne.symm hli]
  · have hcontested : Contested _ _ _ := ⟨hli, hbl, hbi⟩
    refine ⟨hkept.trans (kept_eq_none_of_contested hcontested), ?_⟩
    have hfilter := conflictsAt_plan h p
    cases hc : contested (entryAt base p) (entryAt line p) (entryAt incoming p) with
    | none =>
        obtain ⟨c, hmem, hpath⟩ := List.mem_map.mp (hconflict.mpr hcontested)
        have hmem : c ∈ plan.conflicts.filter fun c => c.path = p := by simp [hmem, hpath]
        rw [hfilter, hc] at hmem
        cases hmem
    | some c =>
        obtain ⟨-, source, -, rfl⟩ := contested_eq_some.mp hc
        rw [hc] at hfilter
        exact ⟨_, hfilter, rfl, rfl, rfl, (pushPolicyRefs _).1, fun r => mem_sourcePolicyRefs _⟩

/-- Exchanging the sides exchanges them in every conflict. -/
theorem merge_swapped (h : mergeThreeWay base line incoming = .ok plan) :
    ∃ plan', mergeThreeWay base incoming line = .ok plan' ∧
      plan'.mergedEntries = plan.mergedEntries ∧
      List.Forall₂ Swapped plan.conflicts plan'.conflicts := by
  obtain ⟨b, l, i, hb, hl, hi, rfl, hvalid⟩ := mergeThreeWay_eq_ok.mp h
  have hmerged : (planOf b i l).mergedEntries = (planOf b l i).mergedEntries := by
    simp only [planOf, allPaths_comm b l i, kept_comm]
  refine ⟨planOf b i l, mergeThreeWay_eq_ok.mpr ⟨b, i, l, hb, entriesByPath_perm hi (.refl _),
    entriesByPath_perm hl (.refl _), rfl, hmerged ▸ hvalid⟩, hmerged, ?_⟩
  simp only [planOf, allPaths_comm b l i]
  refine forall₂_filterMap fun k _ => ?_
  refine contested_swapped fun e e' he he' => pathKeyBytes_injective ?_
  exact (entriesByPath_keyed hl k e he).trans (entriesByPath_keyed hi k e' he').symm

theorem merge_perm (h : mergeThreeWay base line incoming = .ok plan)
    {base' line' incoming' : List TreeEntry} (hb' : base.Perm base') (hl' : line.Perm line')
    (hi' : incoming.Perm incoming') : mergeThreeWay base' line' incoming' = .ok plan := by
  obtain ⟨b, l, i, hb, hl, hi, rfl, hvalid⟩ := mergeThreeWay_eq_ok.mp h
  exact mergeThreeWay_eq_ok.mpr ⟨b, l, i, entriesByPath_perm hb hb', entriesByPath_perm hl hl',
    entriesByPath_perm hi hi', rfl, hvalid⟩

/-- A line that is the base yields to the other side. -/
theorem merge_base (hbase : ValidTree base) (hincoming : ValidTree incoming) :
    ∃ plan, mergeThreeWay base base incoming = .ok plan ∧ plan.conflicts = [] ∧
      plan.mergedEntries.Perm incoming := by
  obtain ⟨b, hb⟩ : ∃ b, entriesByPath "base" base = .ok b := entriesByPath_isOk.mpr hbase
  obtain ⟨i, hi⟩ : ∃ i, entriesByPath "incoming" incoming = .ok i :=
    entriesByPath_isOk.mpr hincoming
  have hkept : ∀ x y : Option TreeEntry, kept x x y = y := by
    intro x y
    by_cases hxy : x = y <;> simp [kept, hxy]
  have hcontested : ∀ x y : Option TreeEntry, contested x x y = none := by
    intro x y
    simp [contested, Contested]
  have hperm : (planOf b b i).mergedEntries.Perm incoming := by
    have hkeyed := entriesByPath_keyed hb
    have hnodup : (planOf b b i).mergedEntries.Nodup :=
      .of_map _ (List.nodup_append.mp (nodup_planOf hkeyed hkeyed (entriesByPath_keyed hi))).1
    refine (List.perm_ext_iff_of_nodup hnodup (.of_map _ hincoming.1)).mpr fun e => ?_
    simp only [planOf, hkept, List.mem_filterMap, entriesByPath_get hi]
    constructor
    · rintro ⟨_, -, he, -⟩
      exact he
    · intro he
      have hget := (entriesByPath_get hi).mpr ⟨he, rfl⟩
      exact ⟨e.pathKey, mem_allPaths.mpr (.inr (.inr (BTreeMap.mem_iff_get.mpr ⟨e, hget⟩))), he,
        rfl⟩
  refine ⟨planOf b b i, mergeThreeWay_eq_ok.mpr ⟨b, b, i, hb, entriesByPath_perm hb (.refl _), hi,
    rfl, hincoming.perm hperm.symm⟩, ?_, hperm⟩
  simp [planOf, hcontested]

end Plan

/-- **The three-way merge.**  Every path is decided by the three-way rule and
once, the merged entries are a portable tree, and neither the order of the
inputs nor the names of the two sides matter.  A side that is the base yields
to the other. -/
theorem mergeThreeWay_spec (base line incoming : List TreeEntry) (hbase : ValidTree base)
    (hline : ValidTree line) (hincoming : ValidTree incoming) :
    (∀ plan, mergeThreeWay base line incoming = .ok plan →
      (∀ p, Decided base line incoming plan p) ∧
      (plan.mergedEntries.map (·.path) ++ plan.conflicts.map (·.path)).Nodup ∧
      (plan.mergedEntries.Pairwise fun a b => ¬ Collide a.path.segments b.path.segments) ∧
      (∀ base' line' incoming', base.Perm base' → line.Perm line' → incoming.Perm incoming' →
        mergeThreeWay base' line' incoming' = .ok plan) ∧
      ∃ plan', mergeThreeWay base incoming line = .ok plan' ∧
        plan'.mergedEntries = plan.mergedEntries ∧
        List.Forall₂ Swapped plan.conflicts plan'.conflicts) ∧
    (∃ plan, mergeThreeWay base base incoming = .ok plan ∧ plan.conflicts = [] ∧
      plan.mergedEntries.Perm incoming) ∧
    ∃ plan, mergeThreeWay base line base = .ok plan ∧ plan.conflicts = [] ∧
      plan.mergedEntries.Perm line := by
  refine ⟨fun plan h => ?_, merge_base hbase hincoming, ?_⟩
  · obtain ⟨b, l, i, hb, hl, hi, hplan, hvalid⟩ := mergeThreeWay_eq_ok.mp h
    refine ⟨decided_plan h, ?_, hvalid.2, fun base' line' incoming' => merge_perm h,
      merge_swapped h⟩
    rw [hplan]
    exact nodup_planOf (entriesByPath_keyed hb) (entriesByPath_keyed hl) (entriesByPath_keyed hi)
  · obtain ⟨plan, h, hnone, hperm⟩ := merge_base hbase hline
    obtain ⟨plan', h', hmerged, hswapped⟩ := merge_swapped h
    rw [hnone, List.forall₂_nil_left_iff] at hswapped
    exact ⟨plan', h', hswapped, hmerged ▸ hperm⟩

end Merge

section Sample

local instance mergeUnicode : Unicode := asciiUnicode

theorem length_zeros : (List.replicate 32 (0 : UInt8)).length = 32 := List.length_replicate

def samplePolicyRef : PolicyRef := ⟨sampleStable, ⟨.sha256, ⟨List.replicate 32 0, length_zeros⟩⟩⟩

/-- A file with the given byte in its blob's digest. -/
def sampleFile (path : PortablePath) (content : UInt8) (h : path.segments ≠ []) : TreeEntry :=
  ⟨path, .file ⟨.sha256, ⟨List.replicate 32 content, List.length_replicate⟩⟩ .regular,
    samplePolicyRef, h⟩

def pathD : PortablePath := ⟨[⟨"d", by decide +kernel⟩], by decide +kernel⟩

theorem segments_pathD : pathD.segments ≠ [] := by simp [pathD]

def pathDX : PortablePath :=
  ⟨[⟨"d", by decide +kernel⟩, ⟨"x", by decide +kernel⟩], by decide +kernel⟩

/-- The file `d/x` with the given content. -/
def fileDX (content : UInt8) : TreeEntry := sampleFile pathDX content (by simp [pathDX])

theorem validTree_singleton (e : TreeEntry) : ValidTree [e] :=
  ⟨List.nodup_singleton _, List.pairwise_singleton _ _⟩

/-- Both sides changed the file, so it is a conflict in either direction. -/
theorem mergeThreeWay_spec_changed :
    ∃ plan, mergeThreeWay [fileDX 0] [fileDX 1] [fileDX 2] = .ok plan ∧
      Decided [fileDX 0] [fileDX 1] [fileDX 2] plan pathDX ∧
      ∃ plan', mergeThreeWay [fileDX 0] [fileDX 2] [fileDX 1] = .ok plan' := by
  obtain ⟨plan, hplan⟩ : ∃ plan, mergeThreeWay [fileDX 0] [fileDX 1] [fileDX 2] = .ok plan :=
    Except.isOk_iff.mp (by decide +kernel)
  obtain ⟨hdecided, -, -, -, plan', hplan', -⟩ := (mergeThreeWay_spec [fileDX 0] [fileDX 1]
    [fileDX 2] (validTree_singleton _) (validTree_singleton _) (validTree_singleton _)).1 plan hplan
  exact ⟨plan, hplan, hdecided pathDX, plan', hplan'⟩

end Sample

end RGit.Graph
