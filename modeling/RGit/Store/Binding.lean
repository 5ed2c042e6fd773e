/-
RGit/Store/Binding.lean

Which key an accepted operation changes.

A change or a release names its stable identity in the target, so one
operation cannot be published for two keys.  A marker does not, and the
transition of a schema-0 operation names only the objects: acceptance does
not depend on the identifier of the marker key (`markerKey_congr`).
-/
import RGit.Store.Concurrent

namespace RGit

open MemoryStore

/-- The keys whose transition is a generic action of the operation. -/
def ReferenceKey.Bindable : ReferenceKey → Bool
  | .change _ | .release _ | .marker _ => true
  | .line _ | .operationHead => false

def ReferenceKey.isMarker : ReferenceKey → Bool
  | .marker _ => true
  | _ => false

/-- A publication with one update. -/
def singlePublication (objects : List PublicationObject) (operation : ObjectId)
    (key : ReferenceKey) (expected : ExpectedRef) (target : ObjectId) : Publication :=
  ⟨objects, [⟨key, expected, target⟩], operation⟩

/-- The two publications mean the same object by `target`. -/
def SameTarget (target : ObjectId) (objects objects' : List PublicationObject) : Prop :=
  ∀ candidate ∈ objects, ∀ candidate' ∈ objects', candidate.id = target →
    candidate'.id = target → candidate.bytes = candidate'.bytes

/-- **Key binding**: from no state is one operation accepted both for an
update of `key` and for an update of `key'` to the same target, if the two
keys have the same state. -/
def KeyBinding (key key' : ReferenceKey) : Prop :=
  ∀ (_ : Unicode) (_ : Hashes) (s : MemorySnapshot) (objects objects' : List PublicationObject)
    (operation target : ObjectId) (expected expected' : ExpectedRef)
    (validator validator' : PublicationValidator),
    s.references[key]? = s.references[key']? → SameTarget target objects objects' →
    ¬((publish (singlePublication objects operation key expected target) validator s).1.isOk = true ∧
      (publish (singlePublication objects' operation key' expected' target)
        validator' s).1.isOk = true)

section Binding

variable [Unicode] [Hashes] {s : MemorySnapshot} {objects objects' : List PublicationObject}
  {operation target : ObjectId} {key key' : ReferenceKey} {expected expected' : ExpectedRef}

/-- The target of an accepted update, as it is staged. -/
theorem target_of_accepted {validator : PublicationValidator}
    (h : (publish (singlePublication objects operation key expected target) validator
      s).1.isOk = true) :
    ∃ staged o, objects.foldlM stageObject s = .ok staged ∧ staged.objects[target]? = some o ∧
      o.kind = key.expectedKind ∧ referenceIdentityMatches key o = true := by
  obtain ⟨p, hbegin, -⟩ := publish_isOk_iff.mp h
  obtain ⟨-, -, -, hstage⟩ := beginPublish_eq_ok.mp hbegin
  obtain ⟨staged, hobjects, hcheck, -⟩ := stage_eq_ok.mp hstage
  obtain ⟨-, -, -, -, hupdates, -⟩ := checkStaged_eq_ok.mp hcheck
  obtain ⟨-, o, hvisible, hkind, hidentity⟩ := hupdates _ (List.mem_singleton.mpr rfl)
  exact ⟨staged, o, hobjects, (visibleObject_eq_ok.mp hvisible).2, hkind, hidentity⟩

/-- Both publications stage the same target. -/
theorem sameTarget_staged {t t' : MemorySnapshot} {o o' : StoredObject}
    (hsame : SameTarget target objects objects') (ht : objects.foldlM stageObject s = .ok t)
    (ht' : objects'.foldlM stageObject s = .ok t') (ho : t.objects[target]? = some o)
    (ho' : t'.objects[target]? = some o') : o = o' := by
  have hgrows := (StagesObjects.of_loop ht).grows
  have hgrows' := (StagesObjects.of_loop ht').grows
  rcases stageObjects_origin ht ho with hold | ⟨c, hc, hid, hdecode⟩
  · rw [hgrows' _ _ hold] at ho'
    exact Option.some.inj ho'
  · rcases stageObjects_origin ht' ho' with hold | ⟨c', hc', hid', hdecode'⟩
    · rw [hgrows _ _ hold] at ho
      exact (Option.some.inj ho).symm
    · rw [hsame c hc c' hc' hid hid', hdecode'] at hdecode
      exact (Except.ok.inj hdecode).symm

omit [Unicode] [Hashes] in
/-- Keys of these kinds that accept one object are equal, or markers. -/
theorem key_of_identity {o : StoredObject} (hkey : key.Bindable = true)
    (hkey' : key'.Bindable = true) (hkind : o.kind = key.expectedKind)
    (hkind' : o.kind = key'.expectedKind) (hidentity : referenceIdentityMatches key o = true)
    (hidentity' : referenceIdentityMatches key' o = true) :
    key = key' ∨ (key.isMarker = true ∧ key'.isMarker = true) := by
  rw [hkind] at hkind'
  unfold referenceIdentityMatches at hidentity hidentity'
  cases hm : valueMap o.object.value with
  | none => simp [hm] at hidentity
  | some m =>
      simp only [hm] at hidentity hidentity'
      cases key with
      | line | operationHead => cases hkey
      | change id =>
          cases key' with
          | change id' =>
              rw [beq_iff_eq] at hidentity hidentity'
              rw [hidentity, Option.some.injEq] at hidentity'
              exact .inl (congrArg _ (Subtype.ext hidentity'))
          | line | operationHead => cases hkey'
          | release | marker => cases hkind'
      | release id =>
          cases key' with
          | release id' =>
              rw [beq_iff_eq] at hidentity hidentity'
              rw [hidentity, Option.some.injEq] at hidentity'
              exact .inl (congrArg _ (Subtype.ext hidentity'))
          | line | operationHead => cases hkey'
          | change | marker => cases hkind'
      | marker id =>
          cases key' with
          | marker id' => exact .inr ⟨rfl, rfl⟩
          | line | operationHead => cases hkey'
          | change | release => cases hkind'

omit [Unicode] [Hashes] in
/-- The checks do not read the identifier of a marker key. -/
theorem checkStaged_markerKey {staged : MemorySnapshot} {id id' : FixedBytes 16}
    (hstate : s.references[ReferenceKey.marker id]? = s.references[ReferenceKey.marker id']?)
    (h : checkStaged (singlePublication objects operation (.marker id) expected target) s staged =
      .ok ()) :
    checkStaged (singlePublication objects operation (.marker id') expected target) s staged =
      .ok () := by
  obtain ⟨o, hvisible, hkind, -, hupdates, hvalidate, closure, hclosure, hgraphs⟩ :=
    checkStaged_eq_ok.mp h
  refine checkStaged_eq_ok.mpr ⟨o, hvisible, hkind, List.nodup_singleton _, ?_, hvalidate,
    closure, hclosure, hgraphs⟩
  intro update hupdate
  obtain rfl := List.mem_singleton.mp hupdate
  obtain ⟨hexpected, htarget⟩ := hupdates _ (List.mem_singleton.mpr rfl)
  refine ⟨?_, htarget⟩
  rw [checkExpected_eq_ok] at hexpected ⊢
  rw [← hstate]
  exact hexpected

/-- **Acceptance does not depend on the identifier of a marker key.** -/
theorem markerKey_congr {id id' : FixedBytes 16}
    (hstate : s.references[ReferenceKey.marker id]? = s.references[ReferenceKey.marker id']?)
    (h : (publish (singlePublication objects operation (.marker id) expected target) acceptAll
      s).1.isOk = true) :
    (publish (singlePublication objects operation (.marker id') expected target) acceptAll
      s).1.isOk = true := by
  obtain ⟨p, hbegin, -⟩ := publish_isOk_iff.mp h
  obtain ⟨hnext, hstage⟩ := beginPublish_isOk_iff.mp ⟨p, hbegin⟩
  obtain ⟨staged, hobjects, hcheck, hstates⟩ := stage_isOk_iff.mp hstage
  have hstage' : ∃ t, stage (singlePublication objects operation (.marker id') expected target) s =
      .ok t := by
    refine stage_isOk_iff.mpr ⟨staged, hobjects, checkStaged_markerKey hstate hcheck, ?_⟩
    intro update hupdate
    obtain rfl := List.mem_singleton.mp hupdate
    obtain ⟨state, hnextState⟩ := hstates _ (List.mem_singleton.mpr rfl)
    refine ⟨state, ?_⟩
    rw [nextState_eq_ok] at hnextState ⊢
    rw [← hstate]
    exact hnextState
  obtain ⟨p', hbegin'⟩ := beginPublish_isOk_iff.mpr ⟨hnext, hstage'⟩
  exact publish_isOk_iff.mpr ⟨p', hbegin', rfl⟩

end Binding

/-- The sample marker is accepted under every marker key. -/
theorem markPublication_marker (id : FixedBytes 16) :
    letI := asciiUnicode
    letI := objectHashes markObjects
    (publish (markPublication (.marker id)) acceptAll {}).1.isOk = true :=
  letI := asciiUnicode
  letI := objectHashes markObjects
  markerKey_congr (by simp) markPublication_accepted

theorem sameTarget_refl (target : ObjectId) {objects : List PublicationObject}
    (h : (objects.map (·.id)).Nodup) : SameTarget target objects objects := by
  intro c hc c' hc' hid hid'
  have heq : c = c' := List.inj_on_of_nodup_map h hc hc' (hid.trans hid'.symm)
  rw [heq]

/-- **Which keys an accepted operation determines**: all pairs of distinct
change, release and marker keys, except two markers. -/
theorem keyBinding_iff {key key' : ReferenceKey} (hne : key ≠ key')
    (hkey : key.Bindable = true) (hkey' : key'.Bindable = true) :
    KeyBinding key key' ↔ ¬(key.isMarker = true ∧ key'.isMarker = true) := by
  constructor
  · rintro h ⟨hmarker, hmarker'⟩
    cases key with
    | marker id =>
        cases key' with
        | marker id' =>
            exact h asciiUnicode (objectHashes markObjects) {} _ _ _ _ _ _ acceptAll acceptAll
              (by simp) (sameTarget_refl _ (by decide +kernel))
              ⟨markPublication_marker id, markPublication_marker id'⟩
        | _ => cases hmarker'
    | _ => cases hmarker
  · intro hmarkers _ _ s objects objects' operation target expected expected' v v' _ hsame
    rintro ⟨haccepted, haccepted'⟩
    obtain ⟨t, o, ht, ho, hkind, hidentity⟩ := target_of_accepted haccepted
    obtain ⟨t', o', ht', ho', hkind', hidentity'⟩ := target_of_accepted haccepted'
    obtain rfl := sameTarget_staged hsame ht ht' ho ho'
    rcases key_of_identity hkey hkey' hkind hkind' hidentity hidentity' with rfl | h
    · exact hne rfl
    · exact hmarkers h

theorem keyBinding_iff_change_release :
    KeyBinding (.change sampleStable) (.release sampleStable) ↔
      ¬((ReferenceKey.change sampleStable).isMarker = true ∧
        (ReferenceKey.release sampleStable).isMarker = true) :=
  keyBinding_iff (by decide) rfl rfl

/-- A second marker identifier. -/
def otherStable : FixedBytes 16 := ⟨toBeBytes 16 8, by decide⟩

theorem keyBinding_fails_markers :
    ReferenceKey.marker sampleStable ≠ ReferenceKey.marker otherStable ∧
      ¬KeyBinding (.marker sampleStable) (.marker otherStable) := by
  refine ⟨by decide, fun h => ?_⟩
  exact h asciiUnicode (objectHashes markObjects) {} _ _ _ _ _ _ acceptAll acceptAll
    (by simp) (sameTarget_refl _ (by decide +kernel))
    ⟨markPublication_marker sampleStable, markPublication_marker otherStable⟩

end RGit
