/-
RGit/Graph/Diff.lean

The diff of `rgit-graph` over two tree views that are already authorized.

A view has the entries that the caller may see and, under identities that hide
their paths, fingerprints of the others.  The diff names the paths at which the
first ones differ (`diff_exact`), and gives the number of changes of the second
ones, which is the same for all identities and fingerprints that tell the same
entries apart (`diff_renamed`).
-/
import RGit.Graph.Merge
import RGit.Lib.MapDiff
import Mathlib.Data.Finset.Card

namespace RGit.Graph

/-! ### Hidden entries -/

/-- An identity for an entry that the caller may not see. -/
structure OpaqueEntryId where
  bytes : FixedBytes 32
  deriving DecidableEq

/-- The derived order. -/
instance : Ord OpaqueEntryId where
  compare := compareOn fun id => id.bytes.1

instance : Std.TransOrd OpaqueEntryId :=
  inferInstanceAs (Std.TransCmp (compareOn fun id : OpaqueEntryId => id.bytes.1))

instance : Std.LawfulEqOrd OpaqueEntryId where
  eq_of_compare {a b} h := by
    have hbytes : a.bytes.1 = b.bytes.1 := Std.LawfulEqOrd.eq_of_compare h
    cases a
    cases b
    exact congrArg _ (Subtype.ext hbytes)

/-- A hidden entry: its identity and a fingerprint of what it is. -/
structure OpaqueEntry where
  id : OpaqueEntryId
  fingerprint : ObjectId
  deriving DecidableEq

section Diff

variable [Unicode]

/-! ### Views -/

inductive DiffError where
  | duplicateVisiblePath
  | portablePathCollision (first second : PortablePath)
  | duplicateOpaqueIdentity
  | opaqueCountOverflow
  deriving DecidableEq

/-- An authorized tree view: every entry is under its own path, and the paths can
coexist. -/
structure DiffInput where
  visible : BTreeMap PathKey TreeEntry
  opaqueEntries : BTreeMap OpaqueEntryId ObjectId
  keyed : ∀ (k : PathKey) e, visible[k]? = some e → e.pathKey = k
  portable : firstPortableCollision visible = none

/-- The first loop of `DiffInput::new`. -/
def visibleByPath (visible : List TreeEntry) : Except DiffError (BTreeMap PathKey TreeEntry) :=
  insertUnique TreeEntry.pathKey id (fun _ => .duplicateVisiblePath) visible ∅

/-- The second loop of `DiffInput::new`. -/
def opaqueById (hidden : List OpaqueEntry) :
    Except DiffError (BTreeMap OpaqueEntryId ObjectId) :=
  insertUnique OpaqueEntry.id OpaqueEntry.fingerprint (fun _ => .duplicateOpaqueIdentity) hidden ∅

theorem visibleByPath_get {visible : List TreeEntry} {byPath : BTreeMap PathKey TreeEntry}
    (h : visibleByPath visible = .ok byPath) {k : PathKey} {e : TreeEntry} :
    byPath[k]? = some e ↔ e ∈ visible ∧ e.pathKey = k := by
  rw [insertUnique_get h]
  simp only [Std.ExtTreeMap.getElem?_empty, reduceCtorEq, false_or, id]
  constructor
  · rintro ⟨a, ha, hk, rfl⟩
    exact ⟨ha, hk⟩
  · rintro ⟨he, hk⟩
    exact ⟨e, he, hk, rfl⟩

/-- Which paths are taken does not depend on how it is reported. -/
theorem visibleByPath_eq_ok {input : String} {visible : List TreeEntry}
    {byPath : BTreeMap PathKey TreeEntry} :
    visibleByPath visible = .ok byPath ↔
      insertUnique TreeEntry.pathKey id (fun _ => MergeError.duplicatePath input) visible ∅ =
        .ok byPath := by
  constructor
  · intro h
    obtain ⟨byPath', h'⟩ := insertUnique_isOk.mpr (insertUnique_isOk.mp ⟨byPath, h⟩)
    rw [h', Except.ok.injEq]
    exact Std.ExtTreeMap.ext_getElem? fun k => Option.ext fun e => by
      rw [fillByPath_get h', visibleByPath_get h]
  · intro h
    obtain ⟨byPath', h'⟩ := insertUnique_isOk.mpr (insertUnique_isOk.mp ⟨byPath, h⟩)
    rw [visibleByPath, h', Except.ok.injEq]
    exact Std.ExtTreeMap.ext_getElem? fun k => Option.ext fun e => by
      rw [fillByPath_get h, visibleByPath_get h']

/-- The views are checked as the trees of a merge are. -/
theorem entriesByPath_eq_ok {input : String} {visible : List TreeEntry}
    {byPath : BTreeMap PathKey TreeEntry} :
    entriesByPath input visible = .ok byPath ↔
      visibleByPath visible = .ok byPath ∧ firstPortableCollision byPath = none := by
  rw [@visibleByPath_eq_ok _ input]
  constructor
  · intro h
    obtain ⟨filled, hfilled, h⟩ := Except.bind_eq_ok.mp h
    cases hportable : firstPortableCollision filled with
    | none =>
        rw [hportable] at h
        cases h
        exact ⟨hfilled, hportable⟩
    | some pair =>
        rw [hportable] at h
        cases h
  · rintro ⟨hfilled, hportable⟩
    exact Except.bind_eq_ok.mpr ⟨byPath, hfilled, by rw [hportable]⟩

theorem visibleByPath_keyed {visible : List TreeEntry} {byPath : BTreeMap PathKey TreeEntry}
    (h : visibleByPath visible = .ok byPath) (k : PathKey) (e : TreeEntry)
    (hget : byPath[k]? = some e) : e.pathKey = k := ((visibleByPath_get h).mp hget).2

/-- `DiffInput::new`. -/
def DiffInput.new (visible : List TreeEntry) (hidden : List OpaqueEntry) :
    Except DiffError DiffInput :=
  match hvisible : visibleByPath visible with
  | .error e => .error e
  | .ok byPath =>
      match hportable : firstPortableCollision byPath with
      | some (first, second) => .error (.portablePathCollision first second)
      | none => do
          let byId ← opaqueById hidden
          .ok ⟨byPath, byId, visibleByPath_keyed hvisible, hportable⟩

/-! ### The diff -/

/-- A diff that names visible paths only; the hidden changes are counted. -/
structure FileDiff where
  added : List PortablePath
  modified : List PortablePath
  deleted : List PortablePath
  opaqueChanged : UInt64
  deriving DecidableEq

/-- `diff`. -/
def diff (previous current : DiffInput) : Except DiffError FileDiff :=
  let paths := entryDiff (fun _ entry => entry.path) previous.visible current.visible
  let opaqueChanged := (changedKeys previous.opaqueEntries current.opaqueEntries).length
  if opaqueChanged < UInt64.size then
    .ok ⟨paths.added, paths.modified, paths.deleted, UInt64.ofNat opaqueChanged⟩
  else .error .opaqueCountOverflow

/-- The diff of two views, from what the caller supplies for them. -/
def diffViews (visible visible' : List TreeEntry) (hidden hidden' : List OpaqueEntry) :
    Except DiffError FileDiff := do
  let previous ← DiffInput.new visible hidden
  let current ← DiffInput.new visible' hidden'
  diff previous current

/-! ### What a view shows -/

/-- The fingerprint of the hidden entry with an identity. -/
def fingerprintAt (hidden : List OpaqueEntry) (id : OpaqueEntryId) : Option ObjectId :=
  (hidden.find? fun entry => entry.id = id).map (·.fingerprint)

omit [Unicode] in
theorem fingerprintAt_eq_some {hidden : List OpaqueEntry} (h : (hidden.map (·.id)).Nodup)
    {id : OpaqueEntryId} {fingerprint : ObjectId} :
    fingerprintAt hidden id = some fingerprint ↔ ⟨id, fingerprint⟩ ∈ hidden := by
  rw [fingerprintAt, Option.map_eq_some_iff]
  constructor
  · rintro ⟨entry, hfind, rfl⟩
    obtain rfl : entry.id = id := by simpa using List.find?_some hfind
    exact List.mem_of_find?_eq_some hfind
  · intro hmem
    obtain ⟨entry, hfind⟩ : ∃ entry, (hidden.find? fun entry => entry.id = id) = some entry :=
      Option.isSome_iff_exists.mp (List.find?_isSome.mpr ⟨_, hmem, by simp⟩)
    have hid : entry.id = id := by simpa using List.find?_some hfind
    have heq := List.inj_on_of_nodup_map h (List.mem_of_find?_eq_some hfind) hmem hid
    exact ⟨entry, hfind, by rw [heq]⟩

theorem opaqueById_isOk {hidden : List OpaqueEntry} :
    (∃ byId, opaqueById hidden = .ok byId) ↔ (hidden.map (·.id)).Nodup := by
  rw [opaqueById, insertUnique_isOk]
  simp

theorem opaqueById_get {hidden : List OpaqueEntry} {byId : BTreeMap OpaqueEntryId ObjectId}
    (h : opaqueById hidden = .ok byId) (id : OpaqueEntryId) :
    byId[id]? = fingerprintAt hidden id := by
  ext fingerprint
  rw [fingerprintAt_eq_some (opaqueById_isOk.mp ⟨byId, h⟩), insertUnique_get h]
  simp only [Std.ExtTreeMap.getElem?_empty, reduceCtorEq, false_or]
  constructor
  · rintro ⟨entry, hmem, rfl, rfl⟩
    exact hmem
  · intro hmem
    exact ⟨_, hmem, rfl, rfl⟩

/-- The two loops and the check of `DiffInput::new`. -/
theorem DiffInput.new_eq_ok {visible : List TreeEntry} {hidden : List OpaqueEntry}
    {input : DiffInput} :
    DiffInput.new visible hidden = .ok input ↔
      visibleByPath visible = .ok input.visible ∧
        opaqueById hidden = .ok input.opaqueEntries := by
  rw [DiffInput.new]
  split
  · next e hvisible => simp [hvisible]
  · next byPath hvisible =>
      split
      · next first second hportable =>
          rw [hvisible]
          constructor
          · intro h
            cases h
          · rintro ⟨heq, -⟩
            have hnone := input.portable
            rw [← Except.ok.inj heq, hportable] at hnone
            cases hnone
      · obtain ⟨byPath', byId, hkeyed, hportable'⟩ := input
        constructor
        · intro h
          obtain ⟨byId', hhidden, heq⟩ := Except.bind_eq_ok.mp h
          cases heq
          exact ⟨hvisible, hhidden⟩
        · rintro ⟨hvisible', hhidden⟩
          obtain rfl : byPath = byPath' := Except.ok.inj (hvisible.symm.trans hvisible')
          exact Except.bind_eq_ok.mpr ⟨byId, hhidden, rfl⟩

/-- What makes a view: a valid tree, and no identity twice. -/
theorem DiffInput.new_isOk {visible : List TreeEntry} {hidden : List OpaqueEntry} :
    (∃ input, DiffInput.new visible hidden = .ok input) ↔
      ValidTree visible ∧ (hidden.map (·.id)).Nodup := by
  rw [← opaqueById_isOk, ← @entriesByPath_isOk _ "visible"]
  constructor
  · rintro ⟨input, h⟩
    obtain ⟨hvisible, hhidden⟩ := new_eq_ok.mp h
    exact ⟨⟨_, entriesByPath_eq_ok.mpr ⟨hvisible, input.portable⟩⟩, _, hhidden⟩
  · rintro ⟨⟨byPath, h⟩, byId, hhidden⟩
    obtain ⟨hvisible, hportable⟩ := entriesByPath_eq_ok.mp h
    exact ⟨⟨byPath, byId, visibleByPath_keyed hvisible, hportable⟩,
      new_eq_ok.mpr ⟨hvisible, hhidden⟩⟩

/-- A view has the entries of its tree. -/
theorem DiffInput.visible_get {visible : List TreeEntry} {hidden : List OpaqueEntry}
    {input : DiffInput} (h : DiffInput.new visible hidden = .ok input) (p : PortablePath) :
    input.visible[pathKeyBytes p]? = entryAt visible p := by
  obtain ⟨hvisible, -⟩ := new_eq_ok.mp h
  have htree : entriesByPath "visible" visible = .ok input.visible :=
    entriesByPath_eq_ok.mpr ⟨hvisible, input.portable⟩
  exact get_pathKeyBytes htree p

theorem DiffInput.opaque_get {visible : List TreeEntry} {hidden : List OpaqueEntry}
    {input : DiffInput} (h : DiffInput.new visible hidden = .ok input) (id : OpaqueEntryId) :
    input.opaqueEntries[id]? = fingerprintAt hidden id :=
  opaqueById_get (new_eq_ok.mp h).2 id

/-! ### What the diff says -/

/-- The identities whose entries differ. -/
def changedIds (hidden hidden' : List OpaqueEntry) : Finset OpaqueEntryId :=
  (hidden ++ hidden').map (·.id) |>.toFinset.filter
    fun id => fingerprintAt hidden id ≠ fingerprintAt hidden' id

omit [Unicode] in
theorem fingerprintAt_eq_none {hidden : List OpaqueEntry} {id : OpaqueEntryId} :
    fingerprintAt hidden id = none ↔ id ∉ hidden.map (·.id) := by
  simp [fingerprintAt]

omit [Unicode] in
theorem mem_changedIds {hidden hidden' : List OpaqueEntry} {id : OpaqueEntryId} :
    id ∈ changedIds hidden hidden' ↔ fingerprintAt hidden id ≠ fingerprintAt hidden' id := by
  rw [changedIds, Finset.mem_filter, List.mem_toFinset, List.map_append, List.mem_append,
    and_iff_right_of_imp]
  intro hne
  by_contra habsent
  rw [not_or, ← fingerprintAt_eq_none, ← fingerprintAt_eq_none] at habsent
  exact hne (habsent.1.trans habsent.2.symm)

/-- A diff that is exact: it names the paths at which the trees differ, each one in
the list that it belongs to and in the order of the paths, and gives the number of
identities whose entries differ. -/
structure ExactDiff (visible visible' : List TreeEntry) (hidden hidden' : List OpaqueEntry)
    (d : FileDiff) : Prop where
  added : ∀ p, p ∈ d.added ↔ entryAt visible p = none ∧ entryAt visible' p ≠ none
  deleted : ∀ p, p ∈ d.deleted ↔ entryAt visible p ≠ none ∧ entryAt visible' p = none
  modified : ∀ p, p ∈ d.modified ↔ entryAt visible p ≠ none ∧ entryAt visible' p ≠ none ∧
    entryAt visible p ≠ entryAt visible' p
  sorted : ∀ paths ∈ [d.added, d.deleted, d.modified],
    paths.Pairwise fun p q => compare (pathKeyBytes p) (pathKeyBytes q) = .lt
  opaqueChanged : d.opaqueChanged.toNat = (changedIds hidden hidden').card

section Exact

variable {visible visible' : List TreeEntry} {hidden hidden' : List OpaqueEntry}
  {previous current : DiffInput}

theorem length_changedKeys (hprevious : DiffInput.new visible hidden = .ok previous)
    (hcurrent : DiffInput.new visible' hidden' = .ok current) :
    (changedKeys previous.opaqueEntries current.opaqueEntries).length =
      (changedIds hidden hidden').card := by
  rw [← List.toFinset_card_of_nodup nodup_changedKeys]
  congr 1
  ext id
  rw [List.mem_toFinset, mem_changedKeys, mem_changedIds, DiffInput.opaque_get hprevious,
    DiffInput.opaque_get hcurrent]

/-- An entry of a view is found by the path it names. -/
theorem DiffInput.get_of_path {input : DiffInput} {k : PathKey} {e : TreeEntry}
    (h : input.visible[k]? = some e) : k = pathKeyBytes e.path := (input.keyed k e h).symm

theorem exactDiff_of_diff (hprevious : DiffInput.new visible hidden = .ok previous)
    (hcurrent : DiffInput.new visible' hidden' = .ok current) {d : FileDiff}
    (hdiff : diff previous current = .ok d) : ExactDiff visible visible' hidden hidden' d := by
  rw [diff] at hdiff
  split at hdiff
  · next hcount =>
      cases hdiff
      have hat := DiffInput.visible_get hprevious
      have hat' := DiffInput.visible_get hcurrent
      refine ⟨fun p => ?_, fun p => ?_, fun p => ?_, ?_, ?_⟩
      · rw [mem_added, ← hat, ← hat']
        constructor
        · rintro ⟨k, e, hnone, hget, rfl⟩
          obtain rfl := DiffInput.get_of_path hget
          exact ⟨hnone, by simp [hget]⟩
        · rintro ⟨hnone, hsome⟩
          obtain ⟨e, hget⟩ := Option.ne_none_iff_exists'.mp hsome
          have hpath := pathKeyBytes_injective (DiffInput.get_of_path hget)
          exact ⟨_, e, hnone, hget, hpath.symm⟩
      · rw [mem_deleted, ← hat, ← hat']
        constructor
        · rintro ⟨k, e, hget, hnone, rfl⟩
          obtain rfl := DiffInput.get_of_path hget
          exact ⟨by simp [hget], hnone⟩
        · rintro ⟨hsome, hnone⟩
          obtain ⟨e, hget⟩ := Option.ne_none_iff_exists'.mp hsome
          have hpath := pathKeyBytes_injective (DiffInput.get_of_path hget)
          exact ⟨_, e, hget, hnone, hpath.symm⟩
      · rw [mem_modified, ← hat, ← hat']
        constructor
        · rintro ⟨k, e, e', hget, hget', hne, rfl⟩
          obtain rfl := DiffInput.get_of_path hget'
          exact ⟨by simp [hget], by simp [hget'], by simpa [hget, hget'] using hne⟩
        · rintro ⟨hsome, hsome', hne⟩
          obtain ⟨e, hget⟩ := Option.ne_none_iff_exists'.mp hsome
          obtain ⟨e', hget'⟩ := Option.ne_none_iff_exists'.mp hsome'
          have hpath := pathKeyBytes_injective (DiffInput.get_of_path hget')
          exact ⟨_, e, e', hget, hget', by simpa [hget, hget'] using hne, hpath.symm⟩
      · refine sorted_entryDiff fun k e hget => ?_
        rcases hget with hget | hget
        · exact (DiffInput.get_of_path hget).symm
        · exact (DiffInput.get_of_path hget).symm
      · exact (UInt64.toNat_ofNat_of_lt' hcount).trans (length_changedKeys hprevious hcurrent)
  · cases hdiff

/-- **The diff of two views is exact.**  There is one for every two views that are
valid, as long as the hidden changes can be counted. -/
theorem diff_exact (hvisible : ValidTree visible) (hvisible' : ValidTree visible')
    (hhidden : (hidden.map (·.id)).Nodup) (hhidden' : (hidden'.map (·.id)).Nodup) :
    (UInt64.size ≤ (changedIds hidden hidden').card ∧
        diffViews visible visible' hidden hidden' = .error .opaqueCountOverflow) ∨
      ∃ d, diffViews visible visible' hidden hidden' = .ok d ∧
        ExactDiff visible visible' hidden hidden' d := by
  obtain ⟨previous, hprevious⟩ := DiffInput.new_isOk.mpr ⟨hvisible, hhidden⟩
  obtain ⟨current, hcurrent⟩ := DiffInput.new_isOk.mpr ⟨hvisible', hhidden'⟩
  have hviews : diffViews visible visible' hidden hidden' = diff previous current := by
    rw [diffViews, hprevious, Except.ok_bind, hcurrent, Except.ok_bind]
  rw [hviews]
  cases hdiff : diff previous current with
  | ok d => exact .inr ⟨d, rfl, exactDiff_of_diff hprevious hcurrent hdiff⟩
  | error e =>
      rw [diff] at hdiff
      split at hdiff
      · cases hdiff
      · next hcount =>
          cases hdiff
          rw [length_changedKeys hprevious hcurrent] at hcount
          exact .inl ⟨Nat.le_of_not_lt hcount, rfl⟩

end Exact

/-! ### Other names for hidden entries -/

/-- A hidden entry under another identity and fingerprint. -/
def OpaqueEntry.rename (id : OpaqueEntryId → OpaqueEntryId) (fingerprint : ObjectId → ObjectId)
    (entry : OpaqueEntry) : OpaqueEntry := ⟨id entry.id, fingerprint entry.fingerprint⟩

section Renamed

variable {visible visible' : List TreeEntry} {hidden hidden' renamed renamed' : List OpaqueEntry}
  {id : OpaqueEntryId → OpaqueEntryId} {fingerprint : ObjectId → ObjectId}

theorem opaqueById_eq_error {e : DiffError} (h : opaqueById hidden = .error e) :
    e = .duplicateOpaqueIdentity := by
  have hloop : ∀ (hidden : List OpaqueEntry) (byId : BTreeMap OpaqueEntryId ObjectId),
      insertUnique OpaqueEntry.id OpaqueEntry.fingerprint
          (fun _ => DiffError.duplicateOpaqueIdentity) hidden byId = .error e →
        e = .duplicateOpaqueIdentity := by
    intro hidden
    induction hidden with
    | nil =>
        intro byId h
        cases h
    | cons entry hidden ih =>
        intro byId h
        rw [insertUnique, List.foldlM_cons] at h
        split at h
        · cases h
          rfl
        · exact ih _ h
  exact hloop hidden ∅ h

omit [Unicode] in
theorem nodup_renamed (hid : Function.Injective id)
    (hperm : renamed.Perm (hidden.map (OpaqueEntry.rename id fingerprint))) :
    (renamed.map (·.id)).Nodup ↔ (hidden.map (·.id)).Nodup := by
  have hids : (renamed.map (·.id)).Perm ((hidden.map (·.id)).map id) := by
    have hmap := hperm.map (·.id)
    rwa [List.map_map] at hmap ⊢
  rw [hids.nodup_iff, List.nodup_map_iff hid]

omit [Unicode] in
theorem fingerprintAt_renamed (hid : Function.Injective id)
    (hperm : renamed.Perm (hidden.map (OpaqueEntry.rename id fingerprint)))
    (hnodup : (hidden.map (·.id)).Nodup) (k : OpaqueEntryId) :
    fingerprintAt renamed (id k) = (fingerprintAt hidden k).map fingerprint := by
  ext v
  rw [fingerprintAt_eq_some ((nodup_renamed hid hperm).mpr hnodup), hperm.mem_iff, List.mem_map,
    Option.map_eq_some_iff]
  simp only [fingerprintAt_eq_some hnodup]
  constructor
  · rintro ⟨entry, hmem, heq⟩
    rw [OpaqueEntry.rename, OpaqueEntry.mk.injEq] at heq
    obtain rfl := hid heq.1
    exact ⟨entry.fingerprint, hmem, heq.2⟩
  · rintro ⟨v, hmem, rfl⟩
    exact ⟨_, hmem, rfl⟩

omit [Unicode] in
theorem mem_range_of_fingerprintAt
    (hperm : renamed.Perm (hidden.map (OpaqueEntry.rename id fingerprint))) {k : OpaqueEntryId}
    (h : fingerprintAt renamed k ≠ none) : k ∈ Set.range id := by
  rw [Ne, fingerprintAt_eq_none, not_not, (hperm.map _).mem_iff, List.map_map, List.mem_map] at h
  obtain ⟨entry, -, rfl⟩ := h
  exact ⟨entry.id, rfl⟩

/-- What `DiffInput::new` refuses, in the order of its checks. -/
theorem DiffInput.new_eq_error {e : DiffError} :
    DiffInput.new visible hidden = .error e ↔
      visibleByPath visible = .error e ∨ ∃ byPath, visibleByPath visible = .ok byPath ∧
        ((∃ p q, firstPortableCollision byPath = some (p, q) ∧
            e = .portablePathCollision p q) ∨
          firstPortableCollision byPath = none ∧ opaqueById hidden = .error e) := by
  rw [DiffInput.new]
  split
  · next e' hvisible => simp [hvisible]
  · next byPath hvisible =>
      split
      · next p q hportable =>
          simp only [hvisible, reduceCtorEq, Except.ok.injEq, exists_eq_left', hportable,
            Option.some.injEq, Prod.mk.injEq, false_and, or_false, false_or, Except.error.injEq]
          constructor
          · rintro rfl
            exact ⟨p, q, ⟨rfl, rfl⟩, rfl⟩
          · rintro ⟨_, _, ⟨rfl, rfl⟩, rfl⟩
            rfl
      · next hportable =>
          cases hhidden : opaqueById hidden <;> simp [hvisible, hportable]

/-- A view with other names is there whenever the view is, and shows the same. -/
theorem DiffInput.new_renamed (hid : Function.Injective id)
    (hperm : renamed.Perm (hidden.map (OpaqueEntry.rename id fingerprint))) :
    (∃ e, DiffInput.new visible hidden = .error e ∧ DiffInput.new visible renamed = .error e) ∨
      ∃ input input', DiffInput.new visible hidden = .ok input ∧
        DiffInput.new visible renamed = .ok input' ∧ input.visible = input'.visible := by
  cases hnew : DiffInput.new visible hidden with
  | ok input =>
      obtain ⟨hvalid, hnodup⟩ := new_isOk.mp ⟨input, hnew⟩
      obtain ⟨input', hnew'⟩ := new_isOk.mpr ⟨hvalid, (nodup_renamed hid hperm).mpr hnodup⟩
      have hsame := (new_eq_ok.mp hnew).1.symm.trans (new_eq_ok.mp hnew').1
      exact .inr ⟨input, input', rfl, hnew', Except.ok.inj hsame⟩
  | error e =>
      refine .inl ⟨e, rfl, new_eq_error.mpr ((new_eq_error.mp hnew).imp_right fun h => ?_)⟩
      obtain ⟨byPath, hvisible, hcollision | ⟨hportable, hhidden⟩⟩ := h
      · exact ⟨byPath, hvisible, .inl hcollision⟩
      · refine ⟨byPath, hvisible, .inr ⟨hportable, ?_⟩⟩
        cases hrenamed : opaqueById renamed with
        | ok byId =>
            have hnodup := (nodup_renamed hid hperm).mp (opaqueById_isOk.mp ⟨byId, hrenamed⟩)
            obtain ⟨byId', hbyId'⟩ := opaqueById_isOk.mpr hnodup
            rw [hbyId'] at hhidden
            cases hhidden
        | error e' => rw [opaqueById_eq_error hrenamed, opaqueById_eq_error hhidden]

/-- **Only the number of hidden changes is seen.**  Other identities and fingerprints, in any
order, give the same diff and the same errors. -/
theorem diff_renamed (hid : Function.Injective id) (hfingerprint : Function.Injective fingerprint)
    (hperm : renamed.Perm (hidden.map (OpaqueEntry.rename id fingerprint)))
    (hperm' : renamed'.Perm (hidden'.map (OpaqueEntry.rename id fingerprint))) :
    diffViews visible visible' renamed renamed' = diffViews visible visible' hidden hidden' := by
  rw [diffViews, diffViews]
  rcases @DiffInput.new_renamed _ visible _ _ _ _ hid hperm with
    ⟨e, herror, herror'⟩ | ⟨previous, previous', hprevious, hrenamed, hvisible⟩
  · rw [herror, herror']
    rfl
  rcases @DiffInput.new_renamed _ visible' _ _ _ _ hid hperm' with
    ⟨e, herror, herror'⟩ | ⟨current, current', hcurrent, hrenamed', hvisible'⟩
  · rw [hprevious, hrenamed, herror, herror']
    rfl
  have hnodup := (DiffInput.new_isOk.mp ⟨_, hprevious⟩).2
  have hnodup' := (DiffInput.new_isOk.mp ⟨_, hcurrent⟩).2
  have hcount : (changedKeys previous'.opaqueEntries current'.opaqueEntries).Perm
      ((changedKeys previous.opaqueEntries current.opaqueEntries).map id) := by
    refine perm_changedKeys_map hid hfingerprint (fun k => ?_) (fun k => ?_) fun k hk => ?_
    · rw [DiffInput.opaque_get hrenamed, DiffInput.opaque_get hprevious,
        fingerprintAt_renamed hid hperm hnodup]
    · rw [DiffInput.opaque_get hrenamed', DiffInput.opaque_get hcurrent,
        fingerprintAt_renamed hid hperm' hnodup']
    · rw [DiffInput.opaque_get hrenamed, DiffInput.opaque_get hrenamed'] at hk
      exact hk.elim (mem_range_of_fingerprintAt hperm) (mem_range_of_fingerprintAt hperm')
  have hlength := hcount.length_eq
  rw [List.length_map] at hlength
  rw [hprevious, hcurrent, hrenamed, hrenamed']
  simp only [Except.ok_bind, diff, hvisible, hvisible', hlength]

end Renamed

end Diff

section Sample

local instance diffUnicode : Unicode := asciiUnicode

theorem length_ones : (List.replicate 32 (1 : UInt8)).length = 32 := List.length_replicate

/-- A hidden entry. -/
def sampleHidden : OpaqueEntry :=
  ⟨⟨⟨List.replicate 32 1, length_ones⟩⟩, .sha256, ⟨List.replicate 32 0, length_zeros⟩⟩

/-- One file is changed, and one hidden entry is gone. -/
theorem diff_exact_changed :
    ∃ d, diffViews [fileDX 0] [fileDX 1] [sampleHidden] [] = .ok d ∧ pathDX ∈ d.modified ∧
      d.opaqueChanged.toNat = 1 := by
  have hcount : (changedIds [sampleHidden] []).card = 1 := by decide
  have hnodup : ([sampleHidden].map (·.id)).Nodup := List.nodup_singleton _
  have hnodup' : (([] : List OpaqueEntry).map (·.id)).Nodup := List.nodup_nil
  rcases diff_exact (validTree_singleton (fileDX 0)) (validTree_singleton (fileDX 1)) hnodup
    hnodup' with ⟨hoverflow, -⟩ | ⟨d, hd, hexact⟩
  · rw [hcount] at hoverflow
    exact absurd hoverflow (by decide)
  · exact ⟨d, hd, (hexact.modified pathDX).mpr (by decide),
      hexact.opaqueChanged.trans hcount⟩

theorem length_reversed (id : OpaqueEntryId) : id.bytes.1.reverse.length = 32 := by
  rw [List.length_reverse, id.bytes.2]

/-- The bytes of an identity, the other way around. -/
def reversedId (id : OpaqueEntryId) : OpaqueEntryId := ⟨⟨id.bytes.1.reverse, length_reversed id⟩⟩

theorem reversedId_injective : Function.Injective reversedId := by
  rintro ⟨a, ha⟩ ⟨b, hb⟩ h
  have hreverse : a.reverse = b.reverse := congrArg (fun id => id.bytes.1) h
  obtain rfl := List.reverse_injective hreverse
  rfl

theorem diff_renamed_reversed :
    diffViews [fileDX 0] [fileDX 1] [sampleHidden.rename reversedId id] [] =
      diffViews [fileDX 0] [fileDX 1] [sampleHidden] [] :=
  diff_renamed reversedId_injective Function.injective_id (List.Perm.refl _) (List.Perm.refl _)

end Sample

end RGit.Graph
