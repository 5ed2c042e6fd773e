/-
RGit/Lib/Stepwise.lean

Programs of atomic steps, which a crash can stop after any of them.

A run has the states after its steps, in their order, and the way it ends
(`Stepwise.Outcome`).  `Holds crash post x s` says that from `s` every state in which a
crash can stop `x` meets `crash`, and that the state in which it ends without an
error meets `post`: a weakest precondition with a crash condition.  There is one
rule for each way to build a program; a loop over a list has an invariant of what
is left of the list.

Nothing here mentions the modelled program.
-/
import RGit.Lib.Result

/-- The states after the steps, and what the run ends with. -/
structure Stepwise.Outcome (σ ε α : Type) where
  visited : List σ
  result : Except ε (α × σ)

def Stepwise (σ ε α : Type) : Type := σ → Stepwise.Outcome σ ε α

namespace Stepwise

variable {σ τ ε α β : Type}

instance monad : Monad (Stepwise σ ε) where
  pure a := fun s => ⟨[], .ok (a, s)⟩
  bind x f := fun s =>
    match (x s).result with
    | .error e => ⟨(x s).visited, .error e⟩
    | .ok (a, t) => ⟨(x s).visited ++ (f a t).visited, (f a t).result⟩

/-- What is read off the state, without a step. -/
def read (f : σ → Except ε α) : Stepwise σ ε α := fun s => ⟨[], (f s).map fun a => (a, s)⟩

/-- The run stops. -/
def fail (e : ε) : Stepwise σ ε α := fun _ => ⟨[], .error e⟩

/-- One step, or an error and no step. -/
def step (f : σ → Except ε σ) : Stepwise σ ε Unit := fun s =>
  match f s with
  | .error e => ⟨[], .error e⟩
  | .ok t => ⟨[t], .ok ((), t)⟩

/-- The error of a program as a value, in the state after its last step. -/
def attempt (x : Stepwise σ ε α) : Stepwise σ ε (Except ε α) := fun s =>
  ⟨(x s).visited, .ok (match (x s).result with
    | .error e => (.error e, (x s).visited.getLast?.getD s)
    | .ok (a, t) => (.ok a, t))⟩

/-- A program that runs on a part of the state. -/
def within (get : τ → σ) (set : τ → σ → τ) (x : Stepwise σ ε α) : Stepwise τ ε α := fun t =>
  ⟨(x (get t)).visited.map (set t), (x (get t)).result.map fun r => (r.1, set t r.2)⟩

/-- `t` is a state in which a crash can stop the program. -/
def Stops (x : Stepwise σ ε α) (s t : σ) : Prop := t = s ∨ t ∈ (x s).visited

/-! ### The rules -/

/-- Every state in which the run can stop, and the one in which it ends well. -/
def Holds (crash : σ → Prop) (post : α → σ → Prop) (x : Stepwise σ ε α) (s : σ) : Prop :=
  (∀ t ∈ (x s).visited, crash t) ∧ ∀ a t, (x s).result = .ok (a, t) → post a t

variable {crash crash' : σ → Prop} {post post' : α → σ → Prop} {s t : σ}

theorem Holds.mono {x : Stepwise σ ε α} (h : Holds crash post x s)
    (hcrash : ∀ t, crash t → crash' t) (hpost : ∀ a t, post a t → post' a t) :
    Holds crash' post' x s :=
  ⟨fun t ht => hcrash t (h.1 t ht), fun a t ht => hpost a t (h.2 a t ht)⟩

theorem holds_pure {a : α} (h : post a s) : Holds crash post (pure a : Stepwise σ ε α) s := by
  refine ⟨List.forall_mem_nil _, fun b t hend => ?_⟩
  obtain ⟨rfl, rfl⟩ := Prod.mk.inj (Except.ok.inj hend)
  exact h

theorem holds_fail {e : ε} : Holds crash post (fail e : Stepwise σ ε α) s :=
  ⟨List.forall_mem_nil _, fun _ _ hend => by cases hend⟩

theorem holds_read {f : σ → Except ε α} (h : ∀ a, f s = .ok a → post a s) :
    Holds crash post (read f) s := by
  refine ⟨List.forall_mem_nil _, fun a t hend => ?_⟩
  obtain ⟨b, hread, heq⟩ := Except.map_eq_ok.mp hend
  obtain ⟨rfl, rfl⟩ := Prod.mk.inj heq
  exact h _ hread

theorem holds_step {post : Unit → σ → Prop} {f : σ → Except ε σ}
    (h : ∀ t, f s = .ok t → crash t ∧ post () t) : Holds crash post (step f) s := by
  rw [Holds, step]
  cases hrun : f s with
  | error e => exact ⟨List.forall_mem_nil _, fun _ _ hend => by cases hend⟩
  | ok t =>
      refine ⟨fun t' ht => ?_, fun a t' hend => ?_⟩
      · obtain rfl := List.mem_singleton.mp ht
        exact (h _ hrun).1
      · obtain ⟨rfl, rfl⟩ := Prod.mk.inj (Except.ok.inj hend)
        exact (h _ hrun).2

theorem bind_apply (x : Stepwise σ ε α) (f : α → Stepwise σ ε β) (s : σ) :
    (x >>= f) s = match (x s).result with
      | .error e => ⟨(x s).visited, .error e⟩
      | .ok (a, t) => ⟨(x s).visited ++ (f a t).visited, (f a t).result⟩ := rfl

theorem holds_bind {x : Stepwise σ ε α} {f : α → Stepwise σ ε β} {post : β → σ → Prop}
    (h : Holds crash (fun a t => Holds crash post (f a) t) x s) : Holds crash post (x >>= f) s := by
  obtain ⟨hvisited, hend⟩ := h
  rw [Holds, bind_apply]
  cases hrun : (x s).result with
  | error e => exact ⟨hvisited, fun _ _ hend => by cases hend⟩
  | ok r =>
      obtain ⟨a, t⟩ := r
      have hrest := hend a t hrun
      exact ⟨fun t' ht => (List.mem_append.mp ht).elim (hvisited t') (hrest.1 t'), hrest.2⟩

/-- A loop: `inv` is of the part of the list that is left. -/
theorem holds_forM {body : β → Stepwise σ ε Unit} {inv : List β → σ → Prop}
    (hbody : ∀ b rest s, inv (b :: rest) s → Holds crash (fun _ t => inv rest t) (body b) s) :
    ∀ (l : List β) (s : σ), inv l s → Holds crash (fun _ t => inv [] t) (l.forM body) s
  | [], _, h => holds_pure h
  | b :: rest, s, h => by
      show Holds crash (fun _ t => inv [] t) (body b >>= fun _ => rest.forM body) s
      refine holds_bind ((hbody b rest s h).mono (fun _ h => h) fun _ t ht => ?_)
      exact holds_forM hbody rest t ht

theorem holds_within {get : τ → σ} {set : τ → σ → τ} {x : Stepwise σ ε α} {t : τ}
    {crash : τ → Prop} {post : α → τ → Prop}
    (h : Holds (fun s => crash (set t s)) (fun a s => post a (set t s)) x (get t)) :
    Holds crash post (within get set x) t := by
  obtain ⟨hvisited, hend⟩ := h
  refine ⟨fun t' ht => ?_, fun a t' ht => ?_⟩
  · obtain ⟨s, hs, rfl⟩ := List.mem_map.mp ht
    exact hvisited s hs
  · obtain ⟨r, hr, heq⟩ := Except.map_eq_ok.mp ht
    obtain ⟨rfl, rfl⟩ := Prod.mk.inj heq
    exact hend _ _ hr

/-- Two facts about the same runs. -/
theorem Holds.and {x : Stepwise σ ε α} (h : Holds crash post x s) (h' : Holds crash' post' x s) :
    Holds (fun t => crash t ∧ crash' t) (fun a t => post a t ∧ post' a t) x s :=
  ⟨fun t ht => ⟨h.1 t ht, h'.1 t ht⟩, fun a t ht => ⟨h.2 a t ht, h'.2 a t ht⟩⟩

/-- What fails before the first step leaves the state alone. -/
theorem read_bind_error {f : σ → Except ε α} {g : α → Stepwise σ ε β} {e : ε} (h : f s = .error e) :
    (read f >>= g) s = ⟨[], .error e⟩ := by
  rw [bind_apply, read, h]
  rfl

theorem read_bind_ok {f : σ → Except ε α} {g : α → Stepwise σ ε β} {a : α} (h : f s = .ok a) :
    (read f >>= g) s = g a s := by
  rw [bind_apply, read, h]
  rfl

end Stepwise
