/-
RGit/Lib/Seams.lean

Hunks whose replacements are sequences themselves, and the seams between what
they leave.

`appliedLines` joins what every position contributes (`partAt`).  When two sets
of hunks are applied together, two elements come to stand next to each other
that are neighbours in neither of the results of the single sets only where a
hunk ends and another one starts (`isChain_appliedLines`): anywhere else the
joint result looks like one of the two.

Nothing here mentions the modelled program.
-/
import RGit.Lib.Hunks

universe u

namespace Hunk

variable {β : Type u} (lines : List β)

/-- What the position `i` contributes: the replacement that starts there, then
the element itself unless a hunk covers it. -/
def partAt (hunks : List (Hunk (List β))) (i : ℕ) : List β :=
  (textAt hunks i).flatten ++ (keptAt (lines.map fun l => [l]) hunks i).flatten

/-- What the positions before `p` contribute. -/
def linesBefore (hunks : List (Hunk (List β))) (p : ℕ) : List β :=
  (List.range p).flatMap (partAt lines hunks)

/-- What the positions from `p` on contribute. -/
def linesFrom (hunks : List (Hunk (List β))) (p : ℕ) : List β :=
  (List.range' p (lines.length + 1 - p)).flatMap (partAt lines hunks)

/-- A sequence with hunks of elements applied. -/
def appliedLines (hunks : List (Hunk (List β))) : List β :=
  (applied (lines.map fun l => [l]) hunks).flatten

/-- A position that some hunk covers. -/
def Covered (hunks : List (Hunk (List β))) (i : ℕ) : Prop := ∃ h ∈ hunks, h.start ≤ i ∧ i < h.stop

/-- Ranges that are in nobody's way. -/
structure Clear (hunks : List (Hunk (List β))) : Prop where
  valid : ∀ a ∈ hunks, a.Valid
  apart : ∀ a ∈ hunks, ∀ b ∈ hunks, a ≠ b → ¬ a.Clash b

variable {lines} {hunks : List (Hunk (List β))}

theorem Clear.mono {more : List (Hunk (List β))} (h : Clear more)
    (hsub : ∀ a ∈ hunks, a ∈ more) : Clear hunks :=
  ⟨fun a ha => h.valid a (hsub a ha), fun a ha b hb => h.apart a (hsub a ha) b (hsub b hb)⟩

/-- No hunk starts behind the start of another one and before its end. -/
theorem Clear.eq_of_start {a b : Hunk (List β)} (h : Clear hunks) (ha : a ∈ hunks) (hb : b ∈ hunks)
    (hle : a.start ≤ b.start) (hlt : b.start < a.stop) : b = a := by
  by_contra hne
  have hvalid := h.valid b hb
  unfold Valid at hvalid
  refine h.apart a ha b hb (Ne.symm hne) ?_
  by_cases hempty : b.start = b.stop ∧ b.start = a.start
  · exact .inr ⟨.inr (by omega), .inr hempty.1⟩
  · exact .inl (by omega)

/-- A hunk that touches a non-empty one is not empty either. -/
theorem Clear.start_lt {a b : Hunk (List β)} (h : Clear hunks) (ha : a ∈ hunks) (hb : b ∈ hunks)
    (hlt : a.start < a.stop) (htouch : a.stop = b.start) : b.start < b.stop := by
  have hvalid := h.valid b hb
  unfold Valid at hvalid
  by_contra hge
  refine h.apart a ha b hb ?_ (.inr ⟨.inl htouch, .inr (by omega)⟩)
  rintro rfl
  omega

/-! ### Positions -/

theorem flatten_appliedFrom (p : ℕ) :
    (appliedFrom (lines.map fun l => [l]) p hunks).flatten = linesFrom lines hunks p := by
  rw [appliedFrom, linesFrom, List.length_map, List.flatMap_def, List.flatMap_def,
    List.flatten_flatten, List.map_map]
  refine congrArg List.flatten (List.map_congr_left fun i _ => ?_)
  exact List.flatten_append

theorem appliedLines_split {p : ℕ} (hp : p ≤ lines.length + 1) :
    appliedLines lines hunks = linesBefore lines hunks p ++ linesFrom lines hunks p := by
  have hrange : List.range (lines.length + 1) =
      List.range p ++ List.range' p (lines.length + 1 - p) := by
    have happend := @List.range'_append_1 0 p (lines.length + 1 - p)
    rw [Nat.zero_add, Nat.add_sub_cancel' hp] at happend
    rw [List.range_eq_range', List.range_eq_range', happend]
  rw [appliedLines, applied, flatten_appliedFrom, linesFrom, linesBefore, linesFrom,
    Nat.sub_zero, ← List.range_eq_range', hrange, List.flatMap_append]

theorem linesFrom_succ {p : ℕ} (hp : p ≤ lines.length) :
    linesFrom lines hunks p = partAt lines hunks p ++ linesFrom lines hunks (p + 1) := by
  rw [linesFrom, linesFrom, show lines.length + 1 - p = lines.length + 1 - (p + 1) + 1 by omega,
    List.range'_succ, List.flatMap_cons]

theorem linesBefore_succ (p : ℕ) :
    linesBefore lines hunks (p + 1) = linesBefore lines hunks p ++ partAt lines hunks p := by
  rw [linesBefore, List.range_succ, List.flatMap_append, List.flatMap_singleton]
  rfl

theorem covered_iff {i : ℕ} :
    Covered hunks i ↔ (hunks.any fun h => h.start ≤ i && i < h.stop) = true := by
  simp [Covered]

theorem flatten_keptAt_of_covered {i : ℕ} (h : Covered hunks i) :
    (keptAt (lines.map fun l => [l]) hunks i).flatten = [] := by
  rw [keptAt, if_pos (covered_iff.mp h)]
  rfl

theorem flatten_keptAt {i : ℕ} (h : ¬ Covered hunks i) :
    (keptAt (lines.map fun l => [l]) hunks i).flatten = lines[i]?.toList := by
  rw [keptAt, if_neg fun hany => h (covered_iff.mpr hany), List.getElem?_map]
  cases lines[i]? <;> rfl

/-- What a position contributes is of a hunk, or is kept. -/
theorem mem_partAt {i : ℕ} {l : β} (hl : l ∈ partAt lines hunks i) :
    (∃ a ∈ hunks, a.start = i ∧ l ∈ a.text) ∨ lines[i]? = some l := by
  rcases List.mem_append.mp hl with htext | hkept
  · obtain ⟨text, htext, hl⟩ := List.mem_flatten.mp htext
    obtain ⟨a, ha, rfl⟩ := Option.map_eq_some_iff.mp (Option.mem_toList.mp htext)
    exact .inl ⟨a, List.mem_of_find?_eq_some ha, by simpa using List.find?_some ha, hl⟩
  · by_cases hcover : Covered hunks i
    · rw [flatten_keptAt_of_covered hcover] at hkept
      cases hkept
    · rw [flatten_keptAt hcover] at hkept
      exact .inr (Option.mem_toList.mp hkept)

theorem mem_appliedLines {l : β} (hl : l ∈ appliedLines lines hunks) :
    ∃ i, l ∈ partAt lines hunks i := by
  rw [appliedLines, applied, flatten_appliedFrom] at hl
  obtain ⟨i, -, hl⟩ := List.mem_flatMap.mp hl
  exact ⟨i, hl⟩

/-- Where no hunk starts. -/
theorem partAt_of_no_start {i : ℕ} (h : ∀ a ∈ hunks, a.start ≠ i) :
    partAt lines hunks i = (keptAt (lines.map fun l => [l]) hunks i).flatten := by
  rw [partAt, textAt_eq_nil h]
  rfl

/-- An element that is kept is the last one up to its position. -/
theorem getLast?_linesBefore {i : ℕ} (hi : i < lines.length) (h : ¬ Covered hunks i) :
    (linesBefore lines hunks (i + 1)).getLast? = lines[i]? := by
  rw [linesBefore_succ, partAt, flatten_keptAt h, List.getElem?_eq_getElem hi,
    Option.toList_some, ← List.append_assoc, List.getLast?_concat]

/-- A non-empty hunk contributes its replacement. -/
theorem linesBefore_stop (h : Clear hunks) {a : Hunk (List β)} (ha : a ∈ hunks)
    (hlt : a.start < a.stop) :
    linesBefore lines hunks a.stop = linesBefore lines hunks a.start ++ a.text := by
  have hparts : ∀ n, n ≤ a.stop - a.start - 1 →
      linesBefore lines hunks (a.start + 1 + n) = linesBefore lines hunks a.start ++ a.text := by
    intro n hn
    induction n with
    | zero =>
        have hfind : hunks.find? (fun h => h.start == a.start) = some a := by
          cases hfind : hunks.find? fun h => h.start == a.start with
          | none => simpa using List.find?_eq_none.mp hfind a ha
          | some b =>
              have hb : b.start = a.start := by simpa using List.find?_some hfind
              rw [h.eq_of_start ha (List.mem_of_find?_eq_some hfind) (by omega) (by omega)]
        rw [Nat.add_zero, linesBefore_succ, partAt,
          flatten_keptAt_of_covered ⟨a, ha, le_rfl, hlt⟩, textAt, hfind]
        simp
    | succ n ih =>
        have hnone : ∀ b ∈ hunks, b.start ≠ a.start + 1 + n := by
          rintro b hb heq
          obtain rfl := h.eq_of_start ha hb (by omega) (by omega)
          omega
        rw [← Nat.add_assoc, linesBefore_succ, ih (by omega), partAt_of_no_start hnone,
          flatten_keptAt_of_covered ⟨a, ha, by omega, by omega⟩, List.append_nil]
  have := hparts (a.stop - a.start - 1) le_rfl
  rwa [show a.start + 1 + (a.stop - a.start - 1) = a.stop by omega] at this

/-! ### Chains -/

section Chain

variable {R : β → β → Prop}

/-- Parts that are chains, each of them fitting what is before it. -/
theorem isChain_flatMap_range {f : ℕ → List β} {n : ℕ} (hpart : ∀ i < n, (f i).IsChain R)
    (hseam : ∀ i < n, ∀ x ∈ ((List.range i).flatMap f).getLast?, ∀ y ∈ (f i).head?, R x y) :
    ((List.range n).flatMap f).IsChain R := by
  induction n with
  | zero => exact .nil
  | succ n ih =>
      rw [List.range_succ, List.flatMap_append, List.flatMap_singleton]
      refine List.isChain_append.mpr ⟨ih ?_ ?_, hpart n (by omega), hseam n (by omega)⟩
      · exact fun i hi => hpart i (by omega)
      · exact fun i hi => hseam i (by omega)

/-- A chain of applied hunks at one position. -/
theorem rel_of_isChain {p : ℕ} (hp : p ≤ lines.length)
    (hchain : (appliedLines lines hunks).IsChain R) {x y : β}
    (hx : x ∈ (linesBefore lines hunks p).getLast?) (hy : y ∈ (partAt lines hunks p).head?) :
    R x y := by
  rw [appliedLines_split (show p ≤ lines.length + 1 by omega)] at hchain
  refine (List.isChain_append.mp hchain).2.2 x hx y ?_
  rw [linesFrom_succ hp, List.head?_append, hy]
  rfl

end Chain

/-! ### Two sets of hunks -/

section Sides

variable {R : β → β → Prop} {left right : List (Hunk (List β))}

/-- The replacement at a position is the one of one of the two sides. -/
theorem exists_side (left right : List (Hunk (List β))) (i : ℕ) :
    ∃ side, (side = left ∨ side = right) ∧ textAt side i = textAt (left ++ right) i := by
  by_cases hstart : ∃ a ∈ left, a.start = i
  · obtain ⟨a, ha, rfl⟩ := hstart
    refine ⟨left, .inl rfl, ?_⟩
    have hfind : ((left.find? fun h => h.start == a.start).isSome) = true :=
      List.find?_isSome.mpr ⟨a, ha, by simp⟩
    obtain ⟨b, hb⟩ := Option.isSome_iff_exists.mp hfind
    rw [textAt, textAt, List.find?_append, hb]
    rfl
  · refine ⟨right, .inr rfl, ?_⟩
    have hfind : left.find? (fun h => h.start == i) = none :=
      List.find?_eq_none.mpr fun a ha hstart' => hstart ⟨a, ha, by simpa using hstart'⟩
    rw [textAt, textAt, List.find?_append, hfind, Option.none_or]

variable {side : List (Hunk (List β))}

theorem mem_of_side (hside : side = left ∨ side = right) {a : Hunk (List β)} (ha : a ∈ side) :
    a ∈ left ++ right := by
  rcases hside with rfl | rfl
  · exact List.mem_append_left _ ha
  · exact List.mem_append_right _ ha

theorem Covered.of_side (hside : side = left ∨ side = right) {i : ℕ} (h : Covered side i) :
    Covered (left ++ right) i := by
  obtain ⟨a, ha, hcover⟩ := h
  exact ⟨a, mem_of_side hside ha, hcover⟩

/-- What a position contributes with both sides is what it contributes with one
of them, up to the element that the other one may cover. -/
theorem partAt_prefix (hside : side = left ∨ side = right) {i : ℕ}
    (htext : textAt side i = textAt (left ++ right) i) :
    List.IsPrefix (partAt lines (left ++ right) i) (partAt lines side i) := by
  by_cases hcover : Covered (left ++ right) i
  · rw [partAt, partAt, htext, flatten_keptAt_of_covered hcover, List.append_nil]
    exact List.prefix_append _ _
  · have hsame : partAt lines (left ++ right) i = partAt lines side i := by
      rw [partAt, partAt, htext, flatten_keptAt hcover,
        flatten_keptAt fun h => hcover (h.of_side hside)]
    exact hsame ▸ List.prefix_rfl

theorem head?_partAt (hside : side = left ∨ side = right) {i : ℕ}
    (htext : textAt side i = textAt (left ++ right) i) {y : β}
    (hy : y ∈ (partAt lines (left ++ right) i).head?) : y ∈ (partAt lines side i).head? := by
  obtain ⟨more, hmore⟩ := partAt_prefix hside htext
  rw [← hmore, List.head?_append, hy]
  rfl

variable (lines left right) in
/-- What two hunks that touch leave: the last element before the place and the
first one behind it. -/
def SeamsFit (R : β → β → Prop) : Prop :=
  ∀ a ∈ left ++ right, ∀ b ∈ left ++ right, a.start < a.stop → a.stop = b.start →
    b.start < b.stop → ∀ x ∈ (linesBefore lines (left ++ right) b.start).getLast?,
      ∀ y ∈ (linesFrom lines (left ++ right) b.start).head?, R x y

/-- A hunk that covers the position before `p` ends at `p` when `p` contributes. -/
theorem stop_eq_of_covered (h : Clear hunks) {p : ℕ} {a : Hunk (List β)} (ha : a ∈ hunks)
    (hle : a.start ≤ p) (hlt : p < a.stop) (hne : partAt lines hunks (p + 1) ≠ []) :
    a.stop = p + 1 := by
  by_contra hstop
  apply hne
  rw [partAt_of_no_start, flatten_keptAt_of_covered ⟨a, ha, by omega, by omega⟩]
  intro b hb hstart
  obtain rfl := h.eq_of_start ha hb (by omega) (by omega)
  omega

/-- Behind a hunk where no other one starts. -/
theorem rel_at_stop (h : Clear (left ++ right)) (hside : side = left ∨ side = right)
    (hchain : (appliedLines lines side).IsChain R) (hfit : SeamsFit lines left right R)
    {e : Hunk (List β)} (he : e ∈ side) (hlt : e.start < e.stop) (hlen : e.stop ≤ lines.length)
    (hnone : ∀ f ∈ left ++ right, f.start ≠ e.stop) {x y : β}
    (hx : x ∈ (linesBefore lines (left ++ right) e.stop).getLast?)
    (hy : y ∈ (partAt lines (left ++ right) e.stop).head?) : R x y := by
  have hboth : linesBefore lines (left ++ right) e.stop =
      linesBefore lines (left ++ right) e.start ++ e.text :=
    linesBefore_stop h (mem_of_side hside he) hlt
  have hone : linesBefore lines side e.stop = linesBefore lines side e.start ++ e.text :=
    linesBefore_stop (h.mono fun a => mem_of_side hside) he hlt
  have hy' : y ∈ (partAt lines side e.stop).head? := by
    refine head?_partAt hside ?_ hy
    rw [textAt_eq_nil hnone, textAt_eq_nil fun f hf => hnone f (mem_of_side hside hf)]
  rcases List.eq_nil_or_concat' e.text with htext | ⟨init, last, htext⟩
  · -- a deletion: what is before the hunk comes to stand before `y`
    rw [htext, List.append_nil] at hboth hone
    rw [hboth] at hx
    cases hr : e.start with
    | zero =>
        rw [hr] at hx
        cases hx
    | succ r =>
        by_cases hcover : Covered (left ++ right) r
        · obtain ⟨g, hg, hgle, hglt⟩ := hcover
          have hstop : g.stop = e.start := by
            by_contra hne
            obtain rfl := h.eq_of_start hg (mem_of_side hside he) (by omega) (by omega)
            omega
          refine hfit g hg e (mem_of_side hside he) (by omega) hstop hlt x hx y ?_
          have hsplit : linesBefore lines (left ++ right) e.start ++
              linesFrom lines (left ++ right) e.start =
              linesBefore lines (left ++ right) e.stop ++ linesFrom lines (left ++ right) e.stop := by
            rw [← appliedLines_split (by omega), ← appliedLines_split (by omega)]
          rw [hboth] at hsplit
          rw [List.append_cancel_left hsplit, linesFrom_succ hlen, List.head?_append, hy]
          rfl
        · refine rel_of_isChain hlen hchain ?_ hy'
          rw [hone, hr, getLast?_linesBefore (by omega) fun h => hcover (h.of_side hside),
            ← getLast?_linesBefore (by omega) hcover, ← hr]
          exact hx
  · refine rel_of_isChain hlen hchain ?_ hy'
    rw [hboth, htext, ← List.append_assoc, List.getLast?_concat] at hx
    rw [hone, htext, ← List.append_assoc, List.getLast?_concat]
    exact hx

/-- **Seams are where hunks touch.**  When the results of two sets of hunks are
chains, so is the joint result, provided that what is left on both sides of
the places where hunks touch fits. -/
theorem isChain_appliedLines (h : Clear (left ++ right))
    (hleft : (appliedLines lines left).IsChain R) (hright : (appliedLines lines right).IsChain R)
    (hfit : SeamsFit lines left right R) : (appliedLines lines (left ++ right)).IsChain R := by
  have hsides : ∀ {side}, side = left ∨ side = right → (appliedLines lines side).IsChain R := by
    rintro side (rfl | rfl)
    · exact hleft
    · exact hright
  rw [appliedLines_split le_rfl, linesFrom, Nat.sub_self, List.range'_zero, List.flatMap_nil,
    List.append_nil]
  refine isChain_flatMap_range (fun i hi => ?_) fun p hp x hx y hy => ?_
  · obtain ⟨side, hside, htext⟩ := exists_side left right i
    have hchain := hsides hside
    rw [appliedLines_split (show i ≤ lines.length + 1 by omega), linesFrom_succ (by omega)] at hchain
    have hpart := (List.isChain_append.mp (List.isChain_append.mp hchain).2.1).1
    obtain ⟨more, hmore⟩ : List.IsPrefix (partAt lines (left ++ right) i) (partAt lines side i) :=
      partAt_prefix hside htext
    rw [← hmore] at hpart
    exact (List.isChain_append.mp hpart).1
  · cases p with
    | zero => cases hx
    | succ q =>
        have hne : partAt lines (left ++ right) (q + 1) ≠ [] := by
          intro hnil
          rw [hnil] at hy
          cases hy
        by_cases hcover : Covered (left ++ right) q
        · obtain ⟨e, he, hle, hlt⟩ := hcover
          have hstop := stop_eq_of_covered h he hle hlt hne
          rw [← hstop] at hx hy
          by_cases htouch : ∃ f ∈ left ++ right, f.start = e.stop
          · obtain ⟨f, hf, hstart⟩ := htouch
            have hfirst : y ∈ (linesFrom lines (left ++ right) e.stop).head? := by
              rw [linesFrom_succ (by omega), List.head?_append, hy]
              rfl
            rw [← hstart] at hx hfirst
            exact hfit e he f hf (by omega) hstart.symm (h.start_lt he hf (by omega) hstart.symm)
              x hx y hfirst
          · have hnone : ∀ f ∈ left ++ right, f.start ≠ e.stop :=
              fun f hf hstart => htouch ⟨f, hf, hstart⟩
            obtain ⟨side, hside, he⟩ : ∃ side, (side = left ∨ side = right) ∧ e ∈ side := by
              rcases List.mem_append.mp he with he | he
              · exact ⟨left, .inl rfl, he⟩
              · exact ⟨right, .inr rfl, he⟩
            exact rel_at_stop h hside (hsides hside) hfit he (by omega) (by omega) hnone hx hy
        · obtain ⟨side, hside, htext⟩ := exists_side left right (q + 1)
          refine rel_of_isChain (by omega) (hsides hside) ?_ (head?_partAt hside htext hy)
          rw [getLast?_linesBefore (by omega) fun h => hcover (h.of_side hside),
            ← getLast?_linesBefore (by omega) hcover]
          exact hx

end Sides

end Hunk
