/-
RGit/Lib/Result.lean

Inversion rules for `Except` computations.  A fallible function of the kind
Rust writes with `?` becomes a `do` block in `Except ε`; the lemmas below
take a successful run of such a block apart, one bind, one guard and one
loop at a time, so that no later proof has to unfold the monad.

Nothing here mentions the modelled program.
-/
import Mathlib.Logic.Basic
import Mathlib.Data.List.Basic

namespace Except

universe u v

variable {ε : Type u} {α β : Type v}

/-! ### Binds and guards -/

@[simp] theorem pure_eq_ok (a : α) : (pure a : Except ε α) = .ok a := rfl

@[simp] theorem ok_bind (a : α) (f : α → Except ε β) :
    ((.ok a : Except ε α) >>= f) = f a := rfl

@[simp] theorem error_bind (e : ε) (f : α → Except ε β) :
    ((.error e : Except ε α) >>= f) = .error e := rfl

/-- A bind succeeds exactly when both of its halves do. -/
theorem bind_eq_ok {x : Except ε α} {f : α → Except ε β} {b : β} :
    (x >>= f) = .ok b ↔ ∃ a, x = .ok a ∧ f a = .ok b := by
  cases x <;> simp

/-- A bind whose first half has no interesting value. -/
theorem bind_unit_eq_ok {x : Except ε PUnit} {f : PUnit → Except ε β} {b : β} :
    (x >>= f) = .ok b ↔ x = .ok ⟨⟩ ∧ f ⟨⟩ = .ok b := by
  cases x <;> simp

/-- The value of such a half, once it is bound. -/
theorem exists_unit_iff {p : PUnit → Prop} : (∃ a, p a) ↔ p ⟨⟩ :=
  ⟨fun ⟨_, h⟩ => h, fun h => ⟨⟨⟩, h⟩⟩

/-- A guard passes exactly when its condition is false. -/
@[simp] theorem ite_error_eq_ok {c : Prop} [Decidable c] {e : ε}
    {x : Except ε α} {a : α} :
    (if c then .error e else x) = .ok a ↔ ¬c ∧ x = .ok a := by
  split <;> simp_all

/-- A guard written the other way round. -/
@[simp] theorem ite_else_error_eq_ok {c : Prop} [Decidable c] {e : ε}
    {x : Except ε α} {a : α} :
    (if c then x else .error e) = .ok a ↔ c ∧ x = .ok a := by
  split <;> simp_all

/-- Translating the error leaves the successes. -/
@[simp] theorem mapError_eq_ok {ε' : Type u} {f : ε → ε'} {x : Except ε α} {a : α} :
    x.mapError f = .ok a ↔ x = .ok a := by
  cases x <;> simp [Except.mapError]

/-- Mapping the value leaves the successes too. -/
theorem map_eq_ok {f : α → β} {x : Except ε α} {b : β} :
    x.map f = .ok b ↔ ∃ a, x = .ok a ∧ f a = b := by
  cases x <;> simp [Except.map]

theorem isOk_iff {x : Except ε α} : x.isOk = true ↔ ∃ a, x = .ok a := by
  cases x <;> simp [Except.isOk, Except.toBool]

/-! ### Optional parts -/

/-- `if let Some(a) = o { f(a)?; }`. -/
def ifSome (o : Option α) (f : α → Except ε Unit) : Except ε Unit :=
  match o with
  | some a => f a
  | none => .ok ()

theorem ifSome_eq_ok {o : Option α} {f : α → Except ε Unit} :
    ifSome o f = .ok () ↔ ∀ a ∈ o, f a = .ok () := by
  cases o <;> simp [ifSome]

/-- `o.ok_or(e)`. -/
def ofOption (o : Option α) (e : ε) : Except ε α :=
  match o with
  | some a => .ok a
  | none => .error e

@[simp] theorem ofOption_eq_ok {o : Option α} {e : ε} {a : α} :
    ofOption o e = .ok a ↔ o = some a := by
  cases o <;> simp [ofOption]

end Except
