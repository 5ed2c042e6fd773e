/-
RGit/Lib/Worklist.lean

A depth-first worklist.

`workLoop` pops an edge, looks it up, records what it leads to and, the
first time it meets that key, pushes the outgoing edges.  Every lookup is
answered from a fixed finite map, so the number of passes is bounded by the
number of edges in the map; with that much fuel the loop is total and
computes the set of everything reachable (`workLoop_eq_ok`).

Nothing here mentions the modelled program.
-/
import Mathlib.Algebra.GroupWithZero.Nat
import RGit.Lib.Result
import RGit.Lib.Maps

universe u

section Worklist

variable {ε E A K : Type u} [Ord K] [Std.TransOrd K] [Std.LawfulEqOrd K]

/-- `while let Some(edge) = pending.pop()`.  The top of the stack is the head
of the list; `fuel` bounds the number of passes. -/
def workLoop (key : E → K) (check : E → Except ε A) (next : A → List E) :
    Nat → List E → BTreeMap K A → Except ε (BTreeMap K A)
  | _, [], done => .ok done
  | 0, _ :: _, done => .ok done
  | fuel + 1, e :: pending, done => do
      let a ← check e
      workLoop key check next fuel
        (if done.contains (key e) then pending else (next a).reverse ++ pending)
        (done.insert (key e) a)

/-- The edges that can be reached from `roots`. -/
inductive Reached (check : E → Except ε A) (next : A → List E) (roots : List E) : E → Prop
  | root {e : E} : e ∈ roots → Reached check next roots e
  | step {e e' : E} {a : A} : Reached check next roots e → check e = .ok a → e' ∈ next a →
      Reached check next roots e'

omit [Ord K] [Std.TransOrd K] [Std.LawfulEqOrd K] in
/-- A lookup that answers more reaches no more from roots that are complete. -/
theorem Reached.of_agree {ε' : Type u} {check : E → Except ε A} {check' : E → Except ε' A}
    {next : A → List E} {roots : List E}
    (hok : ∀ e, Reached check next roots e → ∃ a, check e = .ok a)
    (hagree : ∀ e a, check e = .ok a → check' e = .ok a) {e : E}
    (h : Reached check' next roots e) : Reached check next roots e := by
  induction h with
  | root he => exact .root he
  | step _ ha he' ih =>
      obtain ⟨b, hb⟩ := hok _ ih
      have hsame := hagree _ _ hb
      rw [ha] at hsame
      cases hsame
      exact .step ih hb he'

/-! ### What is left to do -/

section Weight

variable {weight : A → Nat} {seen seen' : K → Bool}

/-- The weight of the part of the map that was not seen. -/
def weightOutside (weight : A → Nat) (all : List (K × A)) (seen : K → Bool) : Nat :=
  ((all.filter fun p => !seen p.1).map fun p => weight p.2).sum

omit [Ord K] [Std.TransOrd K] [Std.LawfulEqOrd K] in
theorem weightOutside_cons (p : K × A) (all : List (K × A)) (seen : K → Bool) :
    weightOutside weight (p :: all) seen =
      (if seen p.1 then 0 else weight p.2) + weightOutside weight all seen := by
  unfold weightOutside
  cases h : seen p.1 <;> simp [h]

omit [Ord K] [Std.TransOrd K] [Std.LawfulEqOrd K] in
theorem weightOutside_congr (weight : A → Nat) {all : List (K × A)} (h : ∀ p ∈ all, seen p.1 = seen' p.1) :
    weightOutside weight all seen = weightOutside weight all seen' := by
  unfold weightOutside
  rw [List.filter_congr fun p hp => by rw [h p hp]]

omit [Ord K] [Std.TransOrd K] [Std.LawfulEqOrd K] in
theorem weightOutside_le (weight : A → Nat) (all : List (K × A))
    (h : ∀ k, seen k = true → seen' k = true) :
    weightOutside weight all seen' ≤ weightOutside weight all seen := by
  induction all with
  | nil => exact Nat.le_refl _
  | cons p all ih =>
      rw [weightOutside_cons, weightOutside_cons]
      refine Nat.add_le_add ?_ ih
      cases hp : seen p.1 with
      | true => simp [h p.1 hp]
      | false => cases seen' p.1 <;> simp

omit [Ord K] [Std.TransOrd K] [Std.LawfulEqOrd K] in
/-- Seeing a new key takes its weight off. -/
theorem weightOutside_insert (weight : A → Nat) {k : K} {a : A} {all : List (K × A)}
    (hnodup : (all.map (·.1)).Nodup) (hmem : (k, a) ∈ all) (hnew : seen k = false)
    (hself : seen' k = true) (hother : ∀ k', k ≠ k' → seen' k' = seen k') :
    weightOutside weight all seen' + weight a = weightOutside weight all seen := by
  induction all with
  | nil => cases hmem
  | cons p all ih =>
      rw [List.map_cons, List.nodup_cons] at hnodup
      rw [weightOutside_cons, weightOutside_cons]
      rcases List.mem_cons.mp hmem with rfl | hmem
      · have hrest : weightOutside weight all seen' = weightOutside weight all seen :=
          weightOutside_congr weight fun p hp => hother _ fun hk =>
            hnodup.1 (List.mem_map.mpr ⟨p, hp, hk.symm⟩)
        rw [hrest, hnew, hself]
        simp only [if_true, Bool.false_eq_true, if_false]
        omega
      · have hne : k ≠ p.1 := by
          rintro rfl
          exact hnodup.1 (List.mem_map.mpr ⟨_, hmem, rfl⟩)
        have hrest := ih hnodup.2 hmem
        rw [hother _ hne]
        omega

end Weight

/-- The edges out of the part of the map that is not done. -/
def openEdges (next : A → List E) (all : List (K × A)) (done : BTreeMap K A) : Nat :=
  ((all.filter fun p => !done.contains p.1).map fun p => (next p.2).length).sum

variable {key : E → K} {check : E → Except ε A} {next : A → List E}

omit [Std.LawfulEqOrd K] in
theorem openEdges_congr {all : List (K × A)} {done done' : BTreeMap K A}
    (h : ∀ p ∈ all, done.contains p.1 = done'.contains p.1) :
    openEdges next all done = openEdges next all done' :=
  weightOutside_congr (fun a => (next a).length) h

/-- Doing a new key takes its edges off the count. -/
theorem openEdges_insert (next : A → List E) {k : K} {a : A} {all : List (K × A)}
    {done : BTreeMap K A} (hnodup : (all.map (·.1)).Nodup) (hmem : (k, a) ∈ all) (hnew : done.contains k = false) :
    openEdges next all (done.insert k a) + (next a).length = openEdges next all done :=
  weightOutside_insert (fun a => (next a).length) hnodup hmem hnew
    Std.ExtTreeMap.contains_insert_self fun _ hne => BTreeMap.contains_insert_of_ne _ _ hne

/-- An edge that has been looked up and recorded. -/
def Visited (key : E → K) (check : E → Except ε A) (done : BTreeMap K A) (e : E) : Prop :=
  ∃ a, check e = .ok a ∧ done[key e]? = some a

/-- The invariant of the loop: what is recorded comes from the map, and the
edges out of it are pending or recorded. -/
structure WorkInvariant (key : E → K) (check : E → Except ε A) (next : A → List E)
    (all : BTreeMap K A) (roots pending : List E) (done : BTreeMap K A) : Prop where
  recorded : ∀ (k : K) (a : A), done[k]? = some a →
    all[k]? = some a ∧ ∃ e, key e = k ∧ check e = .ok a ∧ Reached check next roots e
  pending_reached : ∀ e ∈ pending, Reached check next roots e
  roots_seen : ∀ e ∈ roots, e ∈ pending ∨ Visited key check done e
  closed : ∀ (k : K) (a : A), done[k]? = some a → ∀ e ∈ next a, e ∈ pending ∨ Visited key check done e

variable {all : BTreeMap K A} {roots : List E}

omit [Std.LawfulEqOrd K] in
theorem workInvariant_init : WorkInvariant key check next all roots roots.reverse ∅ where
  recorded _ _ h := by simp at h
  pending_reached _ he := .root (List.mem_reverse.mp he)
  roots_seen _ he := .inl (List.mem_reverse.mpr he)
  closed _ _ h := by simp at h

/-- One pass keeps the invariant. -/
theorem WorkInvariant.step (hall : ∀ e a, check e = .ok a → all[key e]? = some a)
    {e : E} {pending : List E} {done : BTreeMap K A} {a : A}
    (h : WorkInvariant key check next all roots (e :: pending) done) (ha : check e = .ok a) :
    WorkInvariant key check next all roots
      (if done.contains (key e) then pending else (next a).reverse ++ pending)
      (done.insert (key e) a) := by
  have hreached : Reached check next roots e := h.pending_reached e List.mem_cons_self
  -- nothing recorded is lost: the key leads to the same `a` as before
  have hkeep : ∀ (k : K) (b : A), done[k]? = some b → (done.insert (key e) a)[k]? = some b := by
    intro k b hb
    by_cases hk : key e = k
    · subst hk
      have heq : all[key e]? = some b := (h.recorded _ _ hb).1
      rw [hall e a ha] at heq
      rw [BTreeMap.get_insert_self, heq]
    · rw [BTreeMap.get_insert_of_ne _ _ hk, hb]
  have hvisited : ∀ e', Visited key check done e' →
      Visited key check (done.insert (key e) a) e' :=
    fun e' ⟨b, hb, hget⟩ => ⟨b, hb, hkeep _ _ hget⟩
  have hself : Visited key check (done.insert (key e) a) e :=
    ⟨a, ha, BTreeMap.get_insert_self _ _ _⟩
  have hpending : ∀ e' ∈ pending,
      e' ∈ (if done.contains (key e) then pending else (next a).reverse ++ pending) := by
    intro e' he'
    split
    · exact he'
    · exact List.mem_append_right _ he'
  have hmove : ∀ e', e' ∈ e :: pending ∨ Visited key check done e' →
      e' ∈ (if done.contains (key e) then pending else (next a).reverse ++ pending) ∨
        Visited key check (done.insert (key e) a) e' := by
    rintro e' (he' | he')
    · rcases List.mem_cons.mp he' with rfl | he'
      · exact .inr hself
      · exact .inl (hpending e' he')
    · exact .inr (hvisited e' he')
  refine ⟨?_, ?_, fun e' he' => hmove e' (h.roots_seen e' he'), ?_⟩
  · intro k b hb
    rcases BTreeMap.get_insert_eq_some_iff.mp hb with ⟨rfl, rfl⟩ | ⟨-, hb⟩
    · exact ⟨hall e a ha, e, rfl, ha, hreached⟩
    · exact h.recorded k b hb
  · intro e' he'
    have hcases : e' ∈ next a ∨ e' ∈ pending := by
      split at he'
      · exact .inr he'
      · rcases List.mem_append.mp he' with he' | he'
        · exact .inl (List.mem_reverse.mp he')
        · exact .inr he'
    rcases hcases with he' | he'
    · exact .step hreached ha he'
    · exact h.pending_reached e' (List.mem_cons_of_mem _ he')
  · intro k b hb e' he'
    rcases BTreeMap.get_insert_eq_some_iff.mp hb with ⟨rfl, rfl⟩ | ⟨-, hb⟩
    · cases hcontains : done.contains (key e) with
      | true =>
          -- met before: its edges were taken care of then
          obtain ⟨b, hb⟩ := BTreeMap.contains_iff_get.mp hcontains
          have heq : some a = some b := (hall e a ha).symm.trans (h.recorded _ _ hb).1
          cases heq
          have hmoved := hmove e' (h.closed _ _ hb e' he')
          rwa [hcontains] at hmoved
      | false =>
          left
          simp [he']
    · exact hmove e' (h.closed k b hb e' he')

/-- One pass takes one off the count. -/
theorem length_add_openEdges_le (hall : ∀ e a, check e = .ok a → all[key e]? = some a)
    {e : E} {pending : List E} {done : BTreeMap K A} {a : A} {fuel : Nat} (ha : check e = .ok a)
    (hfuel : (e :: pending).length + openEdges next all.toList done ≤ fuel + 1) :
    (if done.contains (key e) then pending else (next a).reverse ++ pending).length +
      openEdges next all.toList (done.insert (key e) a) ≤ fuel := by
  rw [List.length_cons] at hfuel
  cases hcontains : done.contains (key e) with
  | true =>
      have hsame : openEdges next all.toList (done.insert (key e) a) =
          openEdges next all.toList done := by
        refine openEdges_congr fun p _ => ?_
        by_cases hk : key e = p.1
        · rw [← hk, hcontains, Std.ExtTreeMap.contains_insert_self]
        · exact BTreeMap.contains_insert_of_ne _ _ hk
      rw [hsame]
      simp
      omega
  | false =>
      have hcount := openEdges_insert next (BTreeMap.nodup_keys all)
        (BTreeMap.mem_toList_iff_get.mpr (hall e a ha)) hcontains
      simp
      omega

/-- With enough fuel the loop ends with nothing pending. -/
theorem workLoop_invariant (hall : ∀ e a, check e = .ok a → all[key e]? = some a) :
    ∀ {fuel : Nat} {pending : List E} {done result : BTreeMap K A},
      WorkInvariant key check next all roots pending done →
      pending.length + openEdges next all.toList done ≤ fuel →
      workLoop key check next fuel pending done = .ok result →
      WorkInvariant key check next all roots [] result := by
  intro fuel
  induction fuel with
  | zero =>
      intro pending done result hinv hfuel h
      cases pending with
      | nil => cases h; exact hinv
      | cons e pending => simp at hfuel
  | succ fuel ih =>
      intro pending done result hinv hfuel h
      cases pending with
      | nil => cases h; exact hinv
      | cons e pending =>
          simp only [workLoop, Except.bind_eq_ok] at h
          obtain ⟨a, ha, h⟩ := h
          exact ih (hinv.step hall ha) (length_add_openEdges_le hall ha hfuel) h

/-- With enough fuel the loop ends by itself: more passes change nothing. -/
theorem workLoop_fuel (hall : ∀ e a, check e = .ok a → all[key e]? = some a) (more : Nat) :
    ∀ {fuel : Nat} {pending : List E} {done : BTreeMap K A},
      pending.length + openEdges next all.toList done ≤ fuel →
      workLoop key check next (fuel + more) pending done =
        workLoop key check next fuel pending done := by
  intro fuel
  induction fuel with
  | zero =>
      intro pending done hfuel
      cases pending with
      | nil => cases more <;> rfl
      | cons e pending => simp at hfuel
  | succ fuel ih =>
      intro pending done hfuel
      cases pending with
      | nil => rw [Nat.add_right_comm]; rfl
      | cons e pending =>
          rw [Nat.add_right_comm, workLoop, workLoop]
          cases ha : check e with
          | error err => rfl
          | ok a =>
              rw [Except.ok_bind, Except.ok_bind]
              exact ih (length_add_openEdges_le hall ha hfuel)

/-- If every reachable edge can be looked up, the loop does not fail. -/
theorem workLoop_isOk (hall : ∀ e a, check e = .ok a → all[key e]? = some a)
    (hok : ∀ e, Reached check next roots e → ∃ a, check e = .ok a) :
    ∀ {fuel : Nat} {pending : List E} {done : BTreeMap K A},
      WorkInvariant key check next all roots pending done →
      ∃ result, workLoop key check next fuel pending done = .ok result := by
  intro fuel
  induction fuel with
  | zero =>
      intro pending done _
      cases pending <;> exact ⟨done, rfl⟩
  | succ fuel ih =>
      intro pending done hinv
      cases pending with
      | nil => exact ⟨done, rfl⟩
      | cons e pending =>
          obtain ⟨a, ha⟩ := hok e (hinv.pending_reached e List.mem_cons_self)
          obtain ⟨result, hresult⟩ := ih (hinv.step hall ha)
          exact ⟨result, by simp only [workLoop, ha, Except.ok_bind, hresult]⟩

/-- Passes that are enough for any run over `all` from `roots`. -/
def workFuel (next : A → List E) (all : BTreeMap K A) (roots : List E) : Nat :=
  roots.length + openEdges next all.toList ∅

/-- **The worklist computes reachability**: it succeeds exactly when every
reachable edge can be looked up, and then holds exactly what they lead to. -/
theorem workLoop_eq_ok (hall : ∀ e a, check e = .ok a → all[key e]? = some a)
    {result : BTreeMap K A} :
    workLoop key check next (workFuel next all roots) roots.reverse ∅ = .ok result ↔
      (∀ e, Reached check next roots e → ∃ a, check e = .ok a) ∧
        ∀ (k : K) (a : A), result[k]? = some a ↔
          ∃ e, Reached check next roots e ∧ key e = k ∧ check e = .ok a := by
  have hinvariant : ∀ {result : BTreeMap K A},
      workLoop key check next (workFuel next all roots) roots.reverse ∅ = .ok result →
      WorkInvariant key check next all roots [] result :=
    workLoop_invariant hall workInvariant_init (by simp [workFuel])
  -- once nothing is pending, every reached edge is recorded
  have hvisited : ∀ {result : BTreeMap K A},
      WorkInvariant key check next all roots [] result →
      ∀ e, Reached check next roots e → Visited key check result e := by
    intro result hinv e he
    induction he with
    | root he => exact (hinv.roots_seen _ he).resolve_left List.not_mem_nil
    | step _ ha he' ih =>
        obtain ⟨b, hb, hget⟩ := ih
        rw [ha] at hb
        cases hb
        exact (hinv.closed _ _ hget _ he').resolve_left List.not_mem_nil
  have hexact : ∀ {result : BTreeMap K A},
      WorkInvariant key check next all roots [] result →
      ∀ (k : K) (a : A), result[k]? = some a ↔
        ∃ e, Reached check next roots e ∧ key e = k ∧ check e = .ok a := by
    intro result hinv k a
    constructor
    · intro hget
      obtain ⟨-, e, hkey, ha, he⟩ := hinv.recorded k a hget
      exact ⟨e, he, hkey, ha⟩
    · rintro ⟨e, he, rfl, ha⟩
      obtain ⟨b, hb, hget⟩ := hvisited hinv e he
      rw [ha] at hb
      cases hb
      exact hget
  constructor
  · intro h
    have hinv := hinvariant h
    refine ⟨fun e he => ?_, hexact hinv⟩
    obtain ⟨a, ha, -⟩ := hvisited hinv e he
    exact ⟨a, ha⟩
  · rintro ⟨hok, hresult⟩
    obtain ⟨result', hrun⟩ := workLoop_isOk hall hok workInvariant_init
    have hsame : result' = result := by
      refine Std.ExtTreeMap.ext_getElem? fun k => ?_
      refine Option.ext fun a => ?_
      rw [hexact (hinvariant hrun), hresult]
    rw [hrun, hsame]

/-- A lookup that answers more computes the same, where the other computes
anything. -/
theorem workLoop_mono {check' : E → Except ε A} {all' : BTreeMap K A}
    (hall : ∀ e a, check e = .ok a → all[key e]? = some a)
    (hall' : ∀ e a, check' e = .ok a → all'[key e]? = some a)
    (hagree : ∀ e a, check e = .ok a → check' e = .ok a) {result : BTreeMap K A}
    (h : workLoop key check next (workFuel next all roots) roots.reverse ∅ = .ok result) :
    workLoop key check' next (workFuel next all' roots) roots.reverse ∅ = .ok result := by
  obtain ⟨hok, hresult⟩ := (workLoop_eq_ok hall).mp h
  have hup : ∀ e, Reached check next roots e → Reached check' next roots e := by
    intro e he
    induction he with
    | root he => exact .root he
    | step _ ha he' ih => exact .step ih (hagree _ _ ha) he'
  have hdown : ∀ e, Reached check' next roots e → Reached check next roots e :=
    fun e he => he.of_agree hok hagree
  refine (workLoop_eq_ok hall').mpr ⟨fun e he => ?_, fun k a => ?_⟩
  · obtain ⟨a, ha⟩ := hok e (hdown e he)
    exact ⟨a, hagree e a ha⟩
  · rw [hresult]
    constructor
    · rintro ⟨e, he, hkey, ha⟩
      exact ⟨e, hup e he, hkey, hagree e a ha⟩
    · rintro ⟨e, he, hkey, ha⟩
      obtain ⟨b, hb⟩ := hok e (hdown e he)
      have hsame := hagree e b hb
      rw [ha] at hsame
      cases hsame
      exact ⟨e, hdown e he, hkey, hb⟩

end Worklist
