/-
RGit/Merge/Effects.lean

What the commands write.

A successful command is taken apart once: the records it read, and the
repository it leaves as an update of the one before.  Storing contents
touches nothing but the blobs (`OnlyBlobs`).
-/
import RGit.Lib.Loops
import RGit.Merge.Integrate

namespace RGit.Cli

/-! ### Contents -/

/-- The second repository has more blobs, and is otherwise the first. -/
structure OnlyBlobs (repo repo' : Repo) : Prop where
  same : repo' = { repo with blobs := repo'.blobs }
  grows : ∀ (hash : String) (bytes : Bytes), repo.blobs[hash]? = some bytes →
    repo'.blobs[hash]? = some bytes

theorem OnlyBlobs.refl (repo : Repo) : OnlyBlobs repo repo := ⟨rfl, fun _ _ h => h⟩

theorem OnlyBlobs.trans {a b c : Repo} (h : OnlyBlobs a b) (h' : OnlyBlobs b c) :
    OnlyBlobs a c := by
  refine ⟨?_, fun hash bytes hget => h'.grows hash bytes (h.grows hash bytes hget)⟩
  rw [h'.same, h.same]

theorem OnlyBlobs.insert {repo : Repo} {hash : String} (bytes : Bytes)
    (h : repo.blobs[hash]? = none) :
    OnlyBlobs repo { repo with blobs := repo.blobs.insert hash bytes } := by
  refine ⟨rfl, fun other stored hget => BTreeMap.get_insert_eq_some_iff.mpr (.inr ⟨?_, hget⟩)⟩
  intro heq
  rw [← heq, h] at hget
  cases hget

section Contents

variable {host : Host} {env : Env} {repo repo' : Repo}

theorem storeBlob_onlyBlobs {bytes : Bytes} {message : String}
    (h : storeBlob host repo bytes message = .ok repo') :
    OnlyBlobs repo repo' ∧ repo'.blobs[host.hashBytes bytes]? = some bytes := by
  rw [storeBlob] at h
  split at h
  · next stored hget =>
      obtain ⟨hsame, h⟩ := Except.ite_error_eq_ok.mp h
      obtain rfl := Except.ok.inj h
      exact ⟨.refl repo, not_not.mp hsame ▸ hget⟩
  · next hget =>
      obtain rfl := Except.ok.inj h
      exact ⟨.insert bytes hget, BTreeMap.get_insert_self _ _ _⟩

end Contents

/-! ### Single records -/

section Records

variable {repo repo' : Repo}

theorem writeSnapshot_eq_ok {snapshot : Snapshot} :
    writeSnapshot repo snapshot = .ok repo' ↔ validateObjectId snapshot.id "snap_" = .ok () ∧
      { repo with snapshots := repo.snapshots.insert snapshot.id snapshot } = repo' := by
  rw [writeSnapshot, Except.bind_unit_eq_ok, Except.pure_eq_ok, Except.ok.injEq]

theorem writeChange_eq_ok {change : Change} :
    writeChange repo change = .ok repo' ↔ validateObjectId change.id "chg_" = .ok () ∧
      { repo with changes := repo.changes.insert change.id change } = repo' := by
  rw [writeChange, Except.bind_unit_eq_ok, Except.pure_eq_ok, Except.ok.injEq]

end Records

end RGit.Cli
