/-
RGit/Lib/Loops.lean

Loops of the form `for x in xs { check(x)?; .. }`.

A checking loop without state is a `forM` and succeeds when every pass
does (`forM_eq_ok`).  A loop that also carries state is a `foldlM` whose
body accepts an element under a condition on the state and then updates the
state in one way; `Walk` is that condition along the whole list
(`foldlM_eq_ok`).  The two states Rust code of this kind carries are a set
of keys already seen, which makes the keys distinct (`walk_seen`), and the
previous key, which makes neighbours related (`walk_previous`).

Nothing here mentions the modelled program.
-/
import Mathlib.Data.List.Nodup
import Mathlib.Data.List.Dedup
import RGit.Lib.Result

variable {ε α β σ τ : Type}

/-! ### Checking loops -/

theorem forM_eq_ok {f : α → Except ε PUnit} {l : List α} :
    forM l f = .ok ⟨⟩ ↔ ∀ a ∈ l, f a = .ok ⟨⟩ := by
  induction l with
  | nil => simp
  | cons a l ih => rw [List.forM_cons, Except.bind_unit_eq_ok, ih, List.forall_mem_cons]

theorem forM_error {f : α → Except ε PUnit} {l : List α} {e : ε}
    (h : forM l f = .error e) : ∃ a ∈ l, f a = .error e := by
  induction l with
  | nil => cases h
  | cons a l ih =>
      rw [List.forM_cons] at h
      cases ha : f a with
      | error e' =>
          rw [ha, Except.error_bind] at h
          exact ⟨a, List.mem_cons_self, h ▸ ha⟩
      | ok u =>
          rw [ha, Except.ok_bind] at h
          obtain ⟨b, hb, he⟩ := ih h
          exact ⟨b, List.mem_cons_of_mem _ hb, he⟩

/-- `iter().map(f).collect::<Result<Vec<_>, _>>()`. -/
theorem mapM_eq_ok {f : α → Except ε β} {l : List α} {bs : List β} :
    l.mapM f = .ok bs ↔ List.Forall₂ (fun a b => f a = .ok b) l bs := by
  induction l generalizing bs with
  | nil => simp [eq_comm]
  | cons a l ih =>
      rw [List.mapM_cons]
      simp only [Except.bind_eq_ok, ih, Except.pure_eq_ok, Except.ok.injEq,
        List.forall₂_cons_left_iff]
      constructor
      · rintro ⟨b, hb, bs, hbs, rfl⟩
        exact ⟨b, bs, hb, hbs, rfl⟩
      · rintro ⟨b, bs, hb, hbs, rfl⟩
        exact ⟨b, hb, bs, hbs, rfl⟩

/-- A loop whose passes all return returns. -/
theorem mapM_isOk {f : α → Except ε β} {l : List α} (h : ∀ a ∈ l, ∃ b, f a = .ok b) :
    ∃ bs, l.mapM f = .ok bs := by
  induction l with
  | nil => exact ⟨[], rfl⟩
  | cons a l ih =>
      obtain ⟨b, hb⟩ := h a List.mem_cons_self
      obtain ⟨bs, hbs⟩ := ih fun a' ha' => h a' (List.mem_cons_of_mem _ ha')
      exact ⟨b :: bs, mapM_eq_ok.mpr (.cons hb (mapM_eq_ok.mp hbs))⟩

/-! ### Loops with state -/

/-- Every element is accepted in the state the elements before it left. -/
def Walk (good : σ → α → Prop) (next : σ → α → σ) : σ → List α → Prop
  | _, [] => True
  | s, a :: l => good s a ∧ Walk good next (next s a) l

theorem foldlM_eq_ok {step : σ → α → Except ε σ} {good : σ → α → Prop}
    {next : σ → α → σ}
    (hstep : ∀ s a s', step s a = .ok s' ↔ good s a ∧ next s a = s') :
    ∀ {l : List α} {s s' : σ},
      l.foldlM step s = .ok s' ↔ Walk good next s l ∧ l.foldl next s = s' := by
  intro l
  induction l with
  | nil => intro s s'; simp [Walk]
  | cons a l ih =>
      intro s s'
      simp only [List.foldlM_cons, Except.bind_eq_ok, hstep, ih, Walk, List.foldl_cons]
      constructor
      · rintro ⟨-, ⟨ha, rfl⟩, hl, rfl⟩
        exact ⟨⟨ha, hl⟩, rfl⟩
      · rintro ⟨⟨ha, hl⟩, rfl⟩
        exact ⟨_, ⟨ha, rfl⟩, hl, rfl⟩

/-- What every pass preserves, the loop preserves. -/
theorem foldlM_preserves {step : σ → α → Except ε σ} {P : σ → Prop} :
    ∀ {l : List α}, (∀ a ∈ l, ∀ s s', P s → step s a = .ok s' → P s') →
      ∀ {s s' : σ}, P s → l.foldlM step s = .ok s' → P s' := by
  intro l
  induction l with
  | nil =>
      intro _ s s' hs h
      cases h
      exact hs
  | cons a l ih =>
      intro hstep s s' hs h
      simp only [List.foldlM_cons, Except.bind_eq_ok] at h
      obtain ⟨t, ht, h⟩ := h
      exact ih (fun b hb => hstep b (List.mem_cons_of_mem _ hb))
        (hstep a List.mem_cons_self s t hs ht) h

/-- What a pass makes true of its element, and every pass keeps, holds of all
elements when the loop ends. -/
theorem foldlM_establishes {step : σ → α → Except ε σ} {Q : α → σ → Prop}
    (hmake : ∀ s a s', step s a = .ok s' → Q a s')
    (hkeep : ∀ a b s s', Q a s → step s b = .ok s' → Q a s') :
    ∀ {l : List α} {s s' : σ}, l.foldlM step s = .ok s' → ∀ a ∈ l, Q a s' := by
  intro l
  induction l with
  | nil =>
      intro s s' _ a ha
      cases ha
  | cons b l ih =>
      intro s s' h a ha
      simp only [List.foldlM_cons, Except.bind_eq_ok] at h
      obtain ⟨t, ht, h⟩ := h
      rcases List.mem_cons.mp ha with rfl | ha
      · exact foldlM_preserves (P := Q a) (fun c _ u u' hu hstep => hkeep a c u u' hu hstep)
          (hmake s a t ht) h
      · exact ih h a ha

/-- A loop that ends has made a pass over every element. -/
theorem foldlM_step_of_mem {step : σ → α → Except ε σ} {l : List α} {s s' : σ}
    (h : l.foldlM step s = .ok s') {a : α} (ha : a ∈ l) : ∃ t t', step t a = .ok t' := by
  induction l generalizing s with
  | nil => cases ha
  | cons b l ih =>
      simp only [List.foldlM_cons, Except.bind_eq_ok] at h
      obtain ⟨t, ht, h⟩ := h
      rcases List.mem_cons.mp ha with rfl | ha
      · exact ⟨s, t, ht⟩
      · exact ih h ha

/-- A loop over images, each of which is read back as it is met. -/
theorem foldlM_image {ε' : Type} {step : σ → β → Except ε σ} {stepImage : σ → α → Except ε' σ}
    {f : α → β} :
    ∀ {l : List β},
      (∀ b ∈ l, ∀ s s', step s b = .ok s' ↔ ∃ a, b = f a ∧ stepImage s a = .ok s') →
      ∀ {s s' : σ}, l.foldlM step s = .ok s' ↔
        ∃ as : List α, l = as.map f ∧ as.foldlM stepImage s = .ok s' := by
  intro l
  induction l with
  | nil =>
      intro _ s s'
      constructor
      · intro h; exact ⟨[], rfl, by simpa using h⟩
      · rintro ⟨as, has, h⟩
        rw [eq_comm, List.map_eq_nil_iff] at has
        subst has
        simpa using h
  | cons b l ih =>
      intro hstep s s'
      have hl := fun b hb => hstep b (List.mem_cons_of_mem _ hb)
      simp only [List.foldlM_cons, Except.bind_eq_ok, hstep b (by simp), ih hl]
      constructor
      · rintro ⟨t, ⟨a, rfl, ha⟩, as, rfl, has⟩
        exact ⟨a :: as, rfl, by simpa [List.foldlM_cons, Except.bind_eq_ok] using ⟨t, ha, has⟩⟩
      · rintro ⟨as, has, h⟩
        cases as with
        | nil => cases has
        | cons a as =>
            cases has
            simp only [List.foldlM_cons, Except.bind_eq_ok] at h
            obtain ⟨t, ha, has⟩ := h
            exact ⟨t, ⟨a, rfl, ha⟩, as, rfl, has⟩

/-- A condition on the element alone can be taken out of a walk. -/
theorem walk_and_left {p : α → Prop} {good : σ → α → Prop} {next : σ → α → σ} :
    ∀ {l : List α} {s : σ},
      Walk (fun s a => p a ∧ good s a) next s l ↔ (∀ a ∈ l, p a) ∧ Walk good next s l := by
  intro l
  induction l with
  | nil => intro s; simp [Walk]
  | cons a l ih =>
      intro s
      simp only [Walk, ih, List.forall_mem_cons]
      exact and_and_and_comm

/-- Two independent states walk independently. -/
theorem walk_prod (good : σ → α → Prop) (next : σ → α → σ) (good' : τ → α → Prop)
    (next' : τ → α → τ) :
    ∀ {l : List α} {s : σ} {t : τ},
      Walk (fun st a => good st.1 a ∧ good' st.2 a)
          (fun st a => (next st.1 a, next' st.2 a)) (s, t) l ↔
        Walk good next s l ∧ Walk good' next' t l := by
  intro l
  induction l with
  | nil => intro s t; simp [Walk]
  | cons a l ih =>
      intro s t
      simp only [Walk, ih]
      exact and_and_and_comm

/-- `if !seen.insert(key(a)) { return Err(..) }` makes the keys distinct. -/
theorem walk_seen (key : α → β) :
    ∀ {l : List α} {seen : List β},
      Walk (fun seen a => key a ∉ seen) (fun seen a => key a :: seen) seen l ↔
        (l.map key).Nodup ∧ ∀ a ∈ l, key a ∉ seen := by
  intro l
  induction l with
  | nil => intro seen; simp [Walk]
  | cons a l ih =>
      intro seen
      simp only [Walk, ih, List.map_cons, List.nodup_cons, List.mem_cons, not_or,
        List.mem_map, not_exists, not_and]
      constructor
      · rintro ⟨ha, hnd, hl⟩
        refine ⟨⟨fun b hb => (hl b hb).1, hnd⟩, ?_⟩
        rintro b (rfl | hb)
        · exact ha
        · exact (hl b hb).2
      · rintro ⟨⟨hne, hnd⟩, hl⟩
        exact ⟨hl a (.inl rfl), hnd, fun b hb => ⟨hne b hb, hl b (.inr hb)⟩⟩

theorem foldl_seen {key : α → β} {l : List α} {seen : List β} :
    l.foldl (fun seen a => key a :: seen) seen = (l.map key).reverse ++ seen := by
  induction l generalizing seen with
  | nil => rfl
  | cons a l ih => simp [ih]

/-- `previous.is_some_and(|old| bad(old, key(a)))` relates all neighbours. -/
theorem walk_previous (key : α → β) (R : β → β → Prop) :
    ∀ {l : List α} {previous : Option β},
      Walk (fun previous a => ∀ old ∈ previous, R old (key a)) (fun _ a => some (key a))
          previous l ↔
        (l.map key).IsChain R ∧ ∀ old ∈ previous, ∀ b ∈ (l.map key).head?, R old b := by
  intro l
  induction l with
  | nil => intro previous; simp [Walk]
  | cons a l ih =>
      intro previous
      cases l with
      | nil => simp [Walk]
      | cons b l =>
          rw [Walk, ih]
          simp only [List.map_cons, List.isChain_cons_cons, List.head?_cons,
            Option.mem_def, Option.some.injEq, forall_eq']
          tauto

/-! ### Counting distinct elements -/

/-- `iter().collect::<BTreeSet<_>>().len()`. -/
def countDistinct [DecidableEq α] (l : List α) : Nat := l.dedup.length

theorem countDistinct_eq_length_iff [DecidableEq α] {l : List α} :
    countDistinct l = l.length ↔ l.Nodup := by
  constructor
  · intro h
    have heq : l.dedup = l := (List.dedup_sublist l).eq_of_length h
    exact heq ▸ l.nodup_dedup
  · intro h
    rw [countDistinct, h.dedup]
