/-
RGit/Git/History.lean

The history of a line, in the order of its export, and its commits.

`ordered_history` is a post-order of the ancestors of a snapshot
(`orderedHistory_eq_ok`): every snapshot comes after its parents.  So the
commit of a parent is there when `write_history` asks for it
(`exportParents_isOk`), and the commit of the last snapshot is that of the head.

What the `git` command answers is a parameter.
-/
import RGit.Git.Objects
import RGit.Lib.PostOrder
import RGit.Merge.Bases

namespace RGit.Cli

/-! ### The order -/

section Order

variable (graph : BTreeMap String Snapshot)

/-- `graph[&id]`, which panics where there is none. -/
def graphEntry (id : String) : Except CliError Snapshot :=
  Except.ofOption graph[id]? (.failure "no entry found for key")

/-- `while let Some((id, leaving)) = stack.pop()`; the top of the stack is the
head of the list. -/
def orderLoop : Nat → List (String × Bool) → BTreeSet String → List Snapshot →
    Except CliError (List Snapshot)
  | _, [], _, order => .ok order
  | 0, _ :: _, _, order => .ok order
  | fuel + 1, (id, leaving) :: stack, visited, order =>
      if leaving then do
        let snapshot ← graphEntry graph id
        orderLoop fuel stack visited (order ++ [snapshot])
      else if visited.contains id then orderLoop fuel stack visited order
      else do
        let snapshot ← graphEntry graph id
        orderLoop fuel
          ((parents snapshot).reverse.map (fun parent => (parent, false)) ++ (id, true) :: stack)
          (visited.insert id) order

end Order

/-- `ordered_history`. -/
def orderedHistory (repo : Repo) (head : String) : Except CliError (List Snapshot) := do
  let graph ← loadGraph repo (passes repo.snapshots + 1) [head] ∅
  validateGraph graph
  orderLoop graph (passes graph + 1) [(head, false)] ∅ []

/-! ### The commits -/

/-- A Git repository: the objects that were written to it, and its references. -/
structure Destination where
  objects : List GitObject
  references : BTreeMap String String

/-- The `git` command: the digest that `hash-object` prints for a kind and some
bytes, and whether `update-ref` succeeds. -/
structure GitCommand where
  hashObject : String → Bytes → Except CliError String
  updateRef : String → String → Except CliError Unit

/-- What `write_history` carries from one snapshot to the next. -/
structure Export where
  destination : Destination
  commits : BTreeMap String String
  bindings : List Snapshot
  written : BTreeSet String

/-- Nothing was exported yet. -/
def Export.start (destination : Destination) : Export := ⟨destination, ∅, [], ∅⟩

section Writing

variable (git : GitCommand) (host : Host) (repo : Repo) (author : Option String) (format : String)

/-- `write_object`. -/
def writeObject (destination : Destination) (object : GitObject) :
    Except CliError Destination := do
  let actual ← git.hashObject object.kind object.bytes
  if actual ≠ object.id then .error (.failure "Git object digest differs from expected value")
  else .ok { destination with objects := destination.objects ++ [object] }

/-- One pass over the objects of a tree: an object is written once. -/
def writeNew (state : Destination × BTreeSet String) (object : GitObject) :
    Except CliError (Destination × BTreeSet String) :=
  if state.2.contains object.id then .ok state
  else do
    let destination ← writeObject git state.1 object
    .ok (destination, state.2.insert object.id)

/-- The commits of the parents of a snapshot. -/
def exportParents (commits : BTreeMap String String) (snapshot : Snapshot) :
    Except CliError (List String) :=
  (parents snapshot).mapM fun id =>
    Except.ofOption commits[id]? (.failure "export parent missing")

/-- The text of the commit of a native snapshot. -/
def nativeCommit (snapshot : Snapshot) (author tree : String) (parentIds : List String) : String :=
  let seconds := snapshot.createdAt / 1000
  s!"tree {tree}\n" ++ String.join (parentIds.map fun parent => s!"parent {parent}\n") ++
    s!"author {author} {seconds} +0000\ncommitter {author} {seconds} +0000\n" ++
    s!"rgit-snapshot {snapshot.id}\n\n" ++ snapshot.message

/-- The bytes of the commit of a snapshot: those it was imported with, or its own. -/
def commitBytes (snapshot : Snapshot) (tree : String) (parentIds : List String) :
    Except CliError Bytes :=
  match snapshot.git with
  | some metadata => do
      let original ← metadata.parse host
      if original.tree ≠ tree ∨ original.parents ≠ parentIds then
        .error (.failure "imported Git provenance no longer matches snapshot")
      else .ok metadata.rawCommit
  | none => do
      let author ← Except.ofOption (snapshot.author.or author)
        (.failure "native export requires author")
      .ok (utf8Bytes (nativeCommit snapshot author tree parentIds))

/-- An imported snapshot keeps the identifier of its commit. -/
def checkIdentity (snapshot : Snapshot) (id : String) : Except CliError Unit :=
  Except.ifSome snapshot.git fun metadata =>
    if metadata.objectId ≠ id then .error (.failure "imported Git identity changed") else .ok ()

/-- A native snapshot is bound to its commit. -/
def bound (snapshot : Snapshot) (id : String) (bytes : Bytes) : List Snapshot :=
  if snapshot.git.isNone then [{ snapshot with git := some ⟨id, format, bytes⟩ }] else []

/-- One pass of the loop of `write_history`. -/
def exportSnapshot (state : Export) (snapshot : Snapshot) : Except CliError Export := do
  let (tree, objects) ← gitTree host repo snapshot.files format
  let (destination, written) ←
    objects.foldlM (writeNew git) (state.destination, state.written)
  let parentIds ← exportParents state.commits snapshot
  let bytes ← commitBytes host author snapshot tree parentIds
  let id ← objectId host "commit" bytes format
  checkIdentity snapshot id
  let destination ← writeObject git destination ⟨id, "commit", bytes⟩
  .ok {
    destination := destination
    commits := state.commits.insert snapshot.id id
    bindings := state.bindings ++ bound format snapshot id bytes
    written := written }

/-- `write_history`: the bound snapshots, and the destination with the reference. -/
def writeHistory (destination : Destination) (history : List Snapshot) (reference : String) :
    Except CliError (List Snapshot × Destination) := do
  let state ← history.foldlM (exportSnapshot git host repo author format) (Export.start destination)
  let head ← Except.ofOption history.getLast? (.failure "empty export history")
  let id ← Except.ofOption state.commits[head.id]? (.failure "no entry found for key")
  git.updateRef reference id
  .ok (state.bindings,
    { state.destination with references := state.destination.references.insert reference id })

end Writing

/-! ### What the order is -/

section Ordered

variable {graph : BTreeMap String Snapshot}

/-- The parents that a graph names. -/
def namedParents (graph : BTreeMap String Snapshot) (id : String) : List String :=
  (graph[id]?.map parents).getD []

theorem leadsTo_namedParents {p n : String} :
    LeadsTo (namedParents graph) p n ↔ NamedParent graph p n := by
  rw [LeadsTo, namedParents, NamedParent]
  cases graph[n]? with
  | none => simp
  | some snapshot => simp

/-- The snapshots of a list of identifiers. -/
def Lists (graph : BTreeMap String Snapshot) : List String → List Snapshot → Prop :=
  List.Forall₂ fun id snapshot => graph[id]? = some snapshot

/-- In a graph with all the parents, no lookup panics, and the loop is a post-order. -/
theorem orderLoop_eq_ok (hpresent : ∀ p n, NamedParent graph p n → p ∈ graph) {fuel : Nat}
    {stack : List (String × Bool)} {visited : BTreeSet String} {ids : List String}
    {order : List Snapshot} (hstack : ∀ entry ∈ stack, entry.1 ∈ graph)
    (horder : Lists graph ids order) :
    ∃ order', orderLoop graph fuel stack visited order = .ok order' ∧
      Lists graph (postLoop (namedParents graph) fuel stack visited ids) order' := by
  induction fuel generalizing stack visited ids order with
  | zero => cases stack <;> exact ⟨order, rfl, horder⟩
  | succ fuel ih =>
      cases stack with
      | nil => exact ⟨order, rfl, horder⟩
      | cons entry stack =>
          obtain ⟨id, leaving⟩ := entry
          obtain ⟨hid, hrest⟩ := List.forall_mem_cons.mp hstack
          obtain ⟨snapshot, hget⟩ := BTreeMap.mem_iff_get.mp hid
          have hentry : graphEntry graph id = .ok snapshot := by
            rw [graphEntry, hget]
            rfl
          rw [orderLoop, postLoop, hentry]
          cases leaving with
          | true => exact ih hrest (List.rel_append horder (.cons hget .nil))
          | false =>
              rw [if_neg Bool.false_ne_true, if_neg Bool.false_ne_true]
              split
              · exact ih hrest horder
              · have hnamed : namedParents graph id = parents snapshot := by
                  rw [namedParents, hget]
                  rfl
                rw [entered, hnamed]
                refine ih (fun entry hmem => ?_) horder
                rcases List.mem_append.mp hmem with hmem | hmem
                · obtain ⟨p, hp, rfl⟩ := List.mem_map.mp hmem
                  exact hpresent p id ⟨snapshot, hget, List.mem_reverse.mp hp⟩
                · rcases List.mem_cons.mp hmem with rfl | hmem
                  · exact hid
                  · exact hrest entry hmem

/-- The passes over a graph are enough for its post-order. -/
theorem postWork_graph (head : String) :
    postWork (namedParents graph) (graph.toList.map (·.1)) [(head, false)] ∅ = passes graph + 1 := by
  have hall : ∀ entry ∈ graph.toList,
      (namedParents graph entry.1).length + 1 = (parents entry.2).length + 1 := by
    intro entry hentry
    rw [namedParents, BTreeMap.mem_toList_iff_get.mp hentry]
    rfl
  rw [postWork, weightOutside, passes, List.length_singleton, Nat.add_comm]
  simp only [Std.ExtTreeSet.contains_empty, Bool.not_false, List.filter_true, List.map_map]
  exact congrArg (fun l => l.sum + 1) (List.map_congr_left hall)

variable {repo : Repo} {head : String}

/-- **The history of a snapshot**: its ancestors once each, parents first, itself last. -/
theorem orderedHistory_eq_ok (h : SoundHistory repo head head) :
    ∃ order, orderedHistory repo head = .ok order ∧
      (∀ snapshot ∈ order, readSnapshot repo snapshot.id = .ok snapshot) ∧
      (order.map (·.id)).Nodup ∧ (∀ id, id ∈ order.map (·.id) ↔ Ancestor repo id head) ∧
      Follows (IsParent repo) (order.map (·.id)) ∧ (order.map (·.id)).getLast? = some head := by
  have hroots : ∀ id, (∃ root ∈ [head], Ancestor repo id root) ↔ Ancestor repo id head := by simp
  obtain ⟨graph, hload, hgraph⟩ : ∃ graph,
      loadGraph repo (passes repo.snapshots + 1) [head] ∅ = .ok graph ∧
        ∀ (id : String) (snapshot : Snapshot), graph[id]? = some snapshot ↔
          (∃ root ∈ [head], Ancestor repo id root) ∧ readSnapshot repo id = .ok snapshot :=
    loadGraph_roots fun id hid => h.complete id (.inl ((hroots id).mp hid))
  simp only [hroots] at hgraph
  have hread : ∀ (id : String) (snapshot : Snapshot), graph[id]? = some snapshot →
      readSnapshot repo id = .ok snapshot := fun id snapshot hget => ((hgraph id snapshot).mp hget).2
  have hin : ∀ id, id ∈ graph ↔ Ancestor repo id head := by
    intro id
    rw [BTreeMap.mem_iff_get]
    constructor
    · rintro ⟨snapshot, hget⟩
      exact ((hgraph id snapshot).mp hget).1
    · intro hid
      obtain ⟨snapshot, hsnapshot⟩ := h.complete id (.inl hid)
      exact ⟨snapshot, (hgraph id snapshot).mpr ⟨hid, hsnapshot⟩⟩
  have hnamed : ∀ p n, Ancestor repo n head → (NamedParent graph p n ↔ IsParent repo p n) := by
    intro p n hn
    constructor
    · rintro ⟨snapshot, hget, hp⟩
      exact ⟨snapshot, hread n snapshot hget, hp⟩
    · rintro ⟨snapshot, hsnapshot, hp⟩
      exact ⟨snapshot, (hgraph n snapshot).mpr ⟨hn, hsnapshot⟩, hp⟩
  have hholds : Holds repo graph := by
    refine ⟨hread, fun id snapshot hget p hp => (hin p).mpr ?_⟩
    exact .head ⟨snapshot, hread id snapshot hget, hp⟩ ((hgraph id snapshot).mp hget).1
  have hvalid : validateGraph graph = .ok () := by
    refine validateGraph_eq_ok hholds (fun id hid => h.acyclic id (.inl ((hin id).mp hid))) ?_
    intro id snapshot hget
    exact h.distinct id snapshot (.inl ((hgraph id snapshot).mp hget).1) (hread id snapshot hget)
  -- the graph and the repository have the same paths to the head
  have hagree : AgreeAbove (IsParent repo) (LeadsTo (namedParents graph)) head := by
    intro n hn p
    rw [leadsTo_namedParents, hnamed p n hn]
  have hpath : ∀ id, Relation.ReflTransGen (LeadsTo (namedParents graph)) id head ↔
      Ancestor repo id head := fun id => hagree.reflTransGen_iff.symm
  have hnodes : ∀ id, Relation.ReflTransGen (LeadsTo (namedParents graph)) id head →
      id ∈ graph.toList.map (·.1) := by
    intro id hid
    obtain ⟨snapshot, hget⟩ := BTreeMap.mem_iff_get.mp ((hin id).mpr ((hpath id).mp hid))
    exact List.mem_map.mpr ⟨(id, snapshot), BTreeMap.mem_toList_iff_get.mpr hget, rfl⟩
  have hacyclic : ∀ id, Relation.ReflTransGen (LeadsTo (namedParents graph)) id head →
      ¬ Relation.TransGen (LeadsTo (namedParents graph)) id id := by
    intro id hid hcycle
    have hid := (hpath id).mp hid
    exact h.acyclic id (.inl hid) ((hagree.of_path hid).transGen_iff.mpr hcycle)
  obtain ⟨hnodup, hmem, hfollows, hlast⟩ :=
    postLoop_spec graph.nodup_keys hnodes hacyclic (postWork_graph head).le
  obtain ⟨order, hloop, hlists⟩ : ∃ order,
      orderLoop graph (passes graph + 1) [(head, false)] ∅ [] = .ok order ∧
        Lists graph (postLoop (namedParents graph) (passes graph + 1) [(head, false)] ∅ []) order :=
    orderLoop_eq_ok (fun p n ⟨snapshot, hget, hp⟩ => hholds.closed n snapshot hget p hp)
      (by simpa using (hin head).mpr .refl) .nil
  generalize postLoop (namedParents graph) (passes graph + 1) [(head, false)] ∅ [] = ids at *
  have hids : ids = order.map (·.id) := by
    apply List.forall₂_eq_eq_eq ▸ List.forall₂_map_right_iff.mpr (hlists.imp ?_)
    intro id snapshot hget
    exact (readSnapshot_eq_ok.mp (hread id snapshot hget)).2.2.symm
  subst hids
  refine ⟨order, ?_, fun snapshot hsnapshot => ?_, hnodup, fun id => (hmem id).trans (hpath id),
    ?_, hlast⟩
  · rw [orderedHistory, hload, Except.ok_bind, hvalid, Except.ok_bind, hloop]
  · exact hread _ _ (List.forall₂_same.mp (List.forall₂_map_left_iff.mp hlists) snapshot hsnapshot)
  · intro above id below hsplit p hp
    have hid : id ∈ order.map (·.id) := by simp [hsplit]
    have hid := (hpath id).mp ((hmem id).mp hid)
    exact hfollows above id below hsplit p (leadsTo_namedParents.mpr ((hnamed p id hid).mpr hp))

end Ordered

/-! ### What is exported -/

section Exported

variable {git : GitCommand} {host : Host} {repo : Repo} {author : Option String} {format : String}
  {state state' : Export}

/-- A snapshot was exported: its tree and the commits of its parents are in the
commit that was written for it. -/
structure Exported (host : Host) (repo : Repo) (author : Option String) (format : String)
    (commits : BTreeMap String String) (snapshot : Snapshot) (object : GitObject) : Prop where
  kind : object.kind = "commit"
  id : objectId host "commit" object.bytes format = .ok object.id
  bytes : ∃ tree objects parentIds, gitTree host repo snapshot.files format = .ok (tree, objects) ∧
    exportParents commits snapshot = .ok parentIds ∧
      commitBytes host author snapshot tree parentIds = .ok object.bytes

theorem writeObject_eq_ok {destination destination' : Destination} {object : GitObject} :
    writeObject git destination object = .ok destination' ↔
      git.hashObject object.kind object.bytes = .ok object.id ∧
        { destination with objects := destination.objects ++ [object] } = destination' := by
  rw [writeObject, Except.bind_eq_ok]
  simp only [Except.ite_error_eq_ok, ne_eq, not_not, Except.ok.injEq]
  constructor
  · rintro ⟨actual, hactual, rfl, h⟩
    exact ⟨hactual, h⟩
  · rintro ⟨hactual, h⟩
    exact ⟨_, hactual, rfl, h⟩

/-- One pass writes the commit of the snapshot. -/
theorem exportSnapshot_eq_ok {snapshot : Snapshot}
    (h : exportSnapshot git host repo author format state snapshot = .ok state') :
    ∃ object, Exported host repo author format state.commits snapshot object ∧
      object ∈ state'.destination.objects ∧
      state'.commits = state.commits.insert snapshot.id object.id := by
  obtain ⟨⟨tree, objects⟩, htree, h⟩ := Except.bind_eq_ok.mp h
  obtain ⟨⟨destination, written⟩, -, h⟩ := Except.bind_eq_ok.mp h
  obtain ⟨parentIds, hparents, h⟩ := Except.bind_eq_ok.mp h
  obtain ⟨bytes, hbytes, h⟩ := Except.bind_eq_ok.mp h
  obtain ⟨id, hid, h⟩ := Except.bind_eq_ok.mp h
  obtain ⟨⟨⟩, -, h⟩ := Except.bind_eq_ok.mp h
  obtain ⟨destination', hwrite, h⟩ := Except.bind_eq_ok.mp h
  obtain ⟨-, rfl⟩ := writeObject_eq_ok.mp hwrite
  cases h
  exact ⟨⟨id, "commit", bytes⟩, ⟨rfl, hid, tree, objects, parentIds, htree, hparents, hbytes⟩,
    List.mem_append_right _ (List.mem_singleton.mpr rfl), rfl⟩

/-- The commits of a run are those of the snapshots that were exported. -/
theorem mem_commits {history : List Snapshot} {id : String}
    (h : history.foldlM (exportSnapshot git host repo author format) state = .ok state') :
    id ∈ state'.commits ↔ id ∈ state.commits ∨ id ∈ history.map (·.id) := by
  induction history generalizing state with
  | nil =>
      cases h
      simp
  | cons snapshot history ih =>
      rw [List.foldlM_cons] at h
      obtain ⟨next, hstep, h⟩ := Except.bind_eq_ok.mp h
      obtain ⟨object, -, -, hcommits⟩ := exportSnapshot_eq_ok hstep
      rw [ih h, hcommits, Std.ExtTreeMap.mem_insert, Std.LawfulEqCmp.compare_eq_iff_eq,
        List.map_cons, List.mem_cons, or_assoc, or_left_comm, @eq_comm _ snapshot.id]

/-- Where the parents come first, their commits are there. -/
theorem exportParents_isOk {above : List Snapshot} {snapshot : Snapshot}
    {destination : Destination} (hparents : ∀ p ∈ parents snapshot, p ∈ above.map (·.id))
    (h : above.foldlM (exportSnapshot git host repo author format) (Export.start destination) =
      .ok state) : ∃ ids, exportParents state.commits snapshot = .ok ids := by
  refine mapM_isOk fun p hp => ?_
  obtain ⟨id, hid⟩ := BTreeMap.mem_iff_get.mp ((mem_commits h).mpr (.inr (hparents p hp)))
  exact ⟨id, Except.ofOption_eq_ok.mpr hid⟩

/-- The reference names the commit of the last snapshot. -/
theorem writeHistory_eq_ok {destination destination' : Destination} {above : List Snapshot}
    {last : Snapshot} {reference : String} {bindings : List Snapshot}
    (h : writeHistory git host repo author format destination (above ++ [last]) reference =
      .ok (bindings, destination')) :
    ∃ state object,
      above.foldlM (exportSnapshot git host repo author format) (Export.start destination) =
        .ok state ∧
      Exported host repo author format state.commits last object ∧
      object ∈ destination'.objects ∧ destination'.references[reference]? = some object.id := by
  obtain ⟨state', hrun, h⟩ := Except.bind_eq_ok.mp h
  obtain ⟨head, hhead, h⟩ := Except.bind_eq_ok.mp h
  obtain ⟨id, hid, h⟩ := Except.bind_eq_ok.mp h
  obtain ⟨⟨⟩, -, h⟩ := Except.bind_eq_ok.mp h
  cases h
  rw [Except.ofOption_eq_ok] at hhead hid
  rw [List.getLast?_concat] at hhead
  cases hhead
  rw [List.foldlM_append] at hrun
  obtain ⟨state, hrun, hlast⟩ := Except.bind_eq_ok.mp hrun
  rw [List.foldlM_cons] at hlast
  obtain ⟨state'', hstep, hlast⟩ := Except.bind_eq_ok.mp hlast
  cases hlast
  obtain ⟨object, hobject, hmem, hcommits⟩ := exportSnapshot_eq_ok hstep
  rw [hcommits, BTreeMap.get_insert_self] at hid
  cases hid
  exact ⟨state, object, hrun, hobject, hmem, BTreeMap.get_insert_self _ _ _⟩

/-- The history of a snapshot of a sound graph has each of its ancestors once,
every snapshot after its parents and the snapshot itself last; in its export the
commits of the parents are always there, and the reference that is set names the
commit of the snapshot. -/
theorem orderedHistory_spec {head : String} (h : SoundHistory repo head head) :
    ∃ order, orderedHistory repo head = .ok order ∧
      (∀ snapshot ∈ order, readSnapshot repo snapshot.id = .ok snapshot) ∧
      (order.map (·.id)).Nodup ∧ (∀ id, id ∈ order.map (·.id) ↔ Ancestor repo id head) ∧
      (∀ above snapshot below, order = above ++ snapshot :: below →
        ∀ p ∈ parents snapshot, p ∈ above.map (·.id)) ∧
      (∃ above last, order = above ++ [last] ∧ last.id = head) ∧
      ∀ git host author format destination,
        (∀ above snapshot below state, order = above ++ snapshot :: below →
          above.foldlM (exportSnapshot git host repo author format) (Export.start destination) =
            .ok state → ∃ ids, exportParents state.commits snapshot = .ok ids) ∧
        ∀ reference bindings destination',
          writeHistory git host repo author format destination order reference =
            .ok (bindings, destination') →
          ∃ above last state object, order = above ++ [last] ∧ last.id = head ∧
            above.foldlM (exportSnapshot git host repo author format)
              (Export.start destination) = .ok state ∧
            Exported host repo author format state.commits last object ∧
            object ∈ destination'.objects ∧
            destination'.references[reference]? = some object.id := by
  obtain ⟨order, hok, hread, hnodup, hmem, hfollows, hlast⟩ := orderedHistory_eq_ok h
  have hparents : ∀ above snapshot below, order = above ++ snapshot :: below →
      ∀ p ∈ parents snapshot, p ∈ above.map (·.id) := by
    intro above snapshot below hsplit p hp
    refine hfollows (above.map (·.id)) snapshot.id (below.map (·.id)) (by simp [hsplit]) p ?_
    exact ⟨snapshot, hread snapshot (by simp [hsplit]), hp⟩
  obtain ⟨above, last, hsplit, hid⟩ : ∃ above last, order = above ++ [last] ∧ last.id = head := by
    rcases List.eq_nil_or_concat order with rfl | ⟨above, last, rfl⟩
    · cases hlast
    · rw [List.concat_eq_append, List.map_append, List.map_singleton,
        List.getLast?_concat] at hlast
      exact ⟨above, last, List.concat_eq_append, Option.some.inj hlast⟩
  refine ⟨order, hok, hread, hnodup, hmem, hparents, ⟨above, last, hsplit, hid⟩, ?_⟩
  intro git host author format destination
  refine ⟨fun above snapshot below state hsplit hrun =>
    exportParents_isOk (hparents above snapshot below hsplit) hrun, ?_⟩
  intro reference bindings destination' hwrite
  rw [hsplit] at hwrite
  obtain ⟨state, object, hrun, hobject, hin, href⟩ := writeHistory_eq_ok hwrite
  exact ⟨above, last, state, object, hsplit, hid, hrun, hobject, hin, href⟩

end Exported

/-- A snapshot and its parent. -/
theorem orderedHistory_spec_child :
    ∃ order, orderedHistory (childRepo []) "snap_000000000002" = .ok order ∧
      order.map (·.id) = ["snap_000000000001", "snap_000000000002"] := by
  obtain ⟨order, hok, -⟩ := orderedHistory_spec soundHistory_childRepo.incoming
  refine ⟨order, hok, ?_⟩
  have hids : (orderedHistory (childRepo []) "snap_000000000002").map (·.map (·.id)) =
      .ok ["snap_000000000001", "snap_000000000002"] := by decide
  rw [hok] at hids
  exact Except.ok.inj hids

end RGit.Cli
