/-
RGit/Lib/Lines.lean

Splitting a text into lines that end after `\n`, after `\r\n` or after `\r`.

The lines of a text can be joined again (`flatten_lineTokens`), and a list of
lines is the split of its join exactly when every line but the last one has an
end, and no line that ends in `\r` is followed by one that begins with `\n`
(`lineTokens_flatten_iff`).

Nothing here mentions the modelled program.
-/
import Mathlib.Data.List.Basic
import Mathlib.Data.List.Chain

/-- The lines of a text, with their ends. -/
def lineTokens : List Char → List (List Char)
  | [] => []
  | [c] => [[c]]
  | c :: d :: rest =>
      if c = '\n' then [c] :: lineTokens (d :: rest)
      else if c = '\r' then
        if d = '\n' then [c, d] :: lineTokens rest else [c] :: lineTokens (d :: rest)
      else
        match lineTokens (d :: rest) with
        | [] => [[c]]
        | l :: ls => (c :: l) :: ls

/-- The text ends where a line does. -/
def Ended (l : List Char) : Prop := ∀ c ∈ l.getLast?, c = '\n' ∨ c = '\r'

/-- Joined, the end of the first text and the begin of the second one are one end. -/
def Seam (l l' : List Char) : Prop := l.getLast? = some '\r' ∧ l'.head? = some '\n'

instance (l : List Char) : Decidable (Ended l) :=
  inferInstanceAs (Decidable (∀ c ∈ l.getLast?, c = '\n' ∨ c = '\r'))

instance (l l' : List Char) : Decidable (Seam l l') :=
  inferInstanceAs (Decidable (l.getLast? = some '\r' ∧ l'.head? = some '\n'))

/-- The two texts can be lines after each other. -/
def FitsBefore (l l' : List Char) : Prop := Ended l ∧ ¬ Seam l l'

/-- How a text is split, line end by line end and character by character. -/
inductive Splits : List Char → List (List Char) → Prop
  | nil : Splits [] []
  | last {c : Char} (hn : c ≠ '\n') (hr : c ≠ '\r') : Splits [c] [[c]]
  | feed {cs : List Char} {ls : List (List Char)} (h : Splits cs ls) :
      Splits ('\n' :: cs) (['\n'] :: ls)
  | both {cs : List Char} {ls : List (List Char)} (h : Splits cs ls) :
      Splits ('\r' :: '\n' :: cs) (['\r', '\n'] :: ls)
  | ret {cs : List Char} {ls : List (List Char)} (hd : cs.head? ≠ some '\n') (h : Splits cs ls) :
      Splits ('\r' :: cs) (['\r'] :: ls)
  | char {c : Char} {cs l : List Char} {ls : List (List Char)} (hn : c ≠ '\n') (hr : c ≠ '\r')
      (h : Splits cs (l :: ls)) : Splits (c :: cs) ((c :: l) :: ls)

section Lines

variable {cs l : List Char} {ls ls' : List (List Char)}

theorem splits_lineTokens (cs : List Char) : Splits cs (lineTokens cs) := by
  induction cs using lineTokens.induct with
  | case1 => exact .nil
  | case2 c =>
      by_cases hn : c = '\n'
      · exact hn ▸ .feed .nil
      · by_cases hr : c = '\r'
        · exact hr ▸ .ret (by simp) .nil
        · exact .last hn hr
  | case3 d rest ih =>
      rw [lineTokens, if_pos rfl]
      exact .feed ih
  | case4 rest hne ih =>
      rw [lineTokens, if_neg hne, if_pos rfl, if_pos rfl]
      exact .both ih
  | case5 d rest hd hne ih =>
      rw [lineTokens, if_neg hne, if_pos rfl, if_neg hd]
      exact .ret (fun h => hd (Option.some.inj h)) ih
  | case6 c d rest hn hr hnil ih =>
      rw [hnil] at ih
      cases ih
  | case7 c d rest hn hr l ls hcons ih =>
      rw [lineTokens, if_neg hn, if_neg hr, hcons]
      exact .char hn hr (hcons ▸ ih)

theorem Splits.lineTokens_eq (h : Splits cs ls) : lineTokens cs = ls := by
  induction h with
  | nil => rfl
  | last hn hr => rfl
  | @feed cs ls h ih =>
      cases cs with
      | nil =>
          cases h
          rfl
      | cons d rest => rw [lineTokens, if_pos rfl, ih]
  | both h ih => rw [lineTokens, if_neg (by decide), if_pos rfl, if_pos rfl, ih]
  | @ret cs ls hd h ih =>
      cases cs with
      | nil =>
          cases h
          rfl
      | cons d rest =>
          rw [lineTokens, if_neg (by decide), if_pos rfl, if_neg fun h => hd (congrArg some h), ih]
  | @char c cs l ls hn hr h ih =>
      cases cs with
      | nil => cases h
      | cons d rest => rw [lineTokens, if_neg hn, if_neg hr, ih]

theorem lineTokens_eq_iff : lineTokens cs = ls ↔ Splits cs ls :=
  ⟨fun h => h ▸ splits_lineTokens cs, Splits.lineTokens_eq⟩

/-! ### What the lines of a text are -/

theorem Splits.flatten_eq (h : Splits cs ls) : ls.flatten = cs := by
  induction h with
  | nil => rfl
  | last hn hr => rfl
  | feed h ih => rw [List.flatten_cons, ih, List.singleton_append]
  | both h ih =>
      rw [List.flatten_cons, ih]
      rfl
  | ret hd h ih => rw [List.flatten_cons, ih, List.singleton_append]
  | char hn hr h ih => rw [List.flatten_cons, List.cons_append, ← List.flatten_cons, ih]

theorem flatten_lineTokens (cs : List Char) : (lineTokens cs).flatten = cs :=
  (splits_lineTokens cs).flatten_eq

/-- A line of a text is not empty and has no other line in it. -/
theorem Splits.line (h : Splits cs ls) : ∀ l ∈ ls, l ≠ [] ∧ Splits l [l] := by
  induction h with
  | nil => exact nofun
  | last hn hr =>
      exact List.forall_mem_singleton.mpr ⟨List.cons_ne_nil _ _, .last hn hr⟩
  | feed h ih => exact List.forall_mem_cons.mpr ⟨⟨List.cons_ne_nil _ _, .feed .nil⟩, ih⟩
  | both h ih => exact List.forall_mem_cons.mpr ⟨⟨List.cons_ne_nil _ _, .both .nil⟩, ih⟩
  | ret hd h ih => exact List.forall_mem_cons.mpr ⟨⟨List.cons_ne_nil _ _, .ret (by simp) .nil⟩, ih⟩
  | char hn hr h ih =>
      obtain ⟨⟨-, hl⟩, hls⟩ := List.forall_mem_cons.mp ih
      exact List.forall_mem_cons.mpr ⟨⟨List.cons_ne_nil _ _, .char hn hr hl⟩, hls⟩

/-- A text begins as its first line does. -/
theorem head?_flatten (hl : l ≠ []) : (l :: ls).flatten.head? = l.head? := by
  obtain ⟨c, l, rfl⟩ := List.exists_cons_of_ne_nil hl
  rfl

/-- Characters before the last one of a text do not change how it ends. -/
theorem ended_of_getLast? {c : Char} (hl : l.getLast? = some c) (hc : c = '\n' ∨ c = '\r') :
    Ended l := by
  intro d hd
  rw [hl] at hd
  cases hd
  exact hc

theorem fits_cons {c : Char} {l' : List Char} (hl : l ≠ []) :
    FitsBefore (c :: l) l' ↔ FitsBefore l l' := by
  obtain ⟨d, l, rfl⟩ := List.exists_cons_of_ne_nil hl
  rw [FitsBefore, FitsBefore, Ended, Seam, Ended, Seam, List.getLast?_cons_cons]

theorem Splits.isChain (h : Splits cs ls) : ls.IsChain FitsBefore := by
  induction h with
  | nil => exact .nil
  | last hn hr => exact .singleton _
  | @feed cs ls h ih =>
      cases ls with
      | nil => exact .singleton _
      | cons l ls =>
          exact List.isChain_cons_cons.mpr
            ⟨⟨ended_of_getLast? rfl (.inl rfl), fun hseam => absurd hseam.1 (by decide)⟩, ih⟩
  | @both cs ls h ih =>
      cases ls with
      | nil => exact .singleton _
      | cons l ls =>
          exact List.isChain_cons_cons.mpr
            ⟨⟨ended_of_getLast? rfl (.inl rfl), fun hseam => absurd hseam.1 (by decide)⟩, ih⟩
  | @ret cs ls hd h ih =>
      cases ls with
      | nil => exact .singleton _
      | cons l ls =>
          refine List.isChain_cons_cons.mpr
            ⟨⟨ended_of_getLast? rfl (.inr rfl), fun hseam => hd ?_⟩, ih⟩
          rw [← h.flatten_eq, head?_flatten (h.line l List.mem_cons_self).1, hseam.2]
  | @char c cs l ls hn hr h ih =>
      cases ls with
      | nil => exact .singleton _
      | cons l' ls =>
          obtain ⟨hfits, hrest⟩ := List.isChain_cons_cons.mp ih
          have hl := (h.line l List.mem_cons_self).1
          exact List.isChain_cons_cons.mpr ⟨(fits_cons hl).mpr hfits, hrest⟩

/-! ### Joining lines -/

/-- Two texts that fit are split one after the other. -/
theorem Splits.append {cs' : List Char} (h : Splits cs ls) (h' : Splits cs' ls')
    (hfits : FitsBefore cs cs') : Splits (cs ++ cs') (ls ++ ls') := by
  -- the end of the text does not change when a line is taken from its begin
  have hrest : ∀ {c : Char} {rest : List Char},
      FitsBefore (c :: rest) cs' → FitsBefore rest cs' := by
    intro c rest hfits
    cases rest with
    | nil => exact ⟨nofun, fun hseam => absurd hseam.1 (by simp)⟩
    | cons d rest => exact (fits_cons (List.cons_ne_nil _ _)).mp hfits
  induction h with
  | nil => exact h'
  | @last c hn hr =>
      rcases hfits.1 c rfl with hc | hc
      · exact absurd hc hn
      · exact absurd hc hr
  | feed h ih => exact .feed (ih (hrest hfits))
  | both h ih => exact .both (ih (hrest (hrest hfits)))
  | @ret cs ls hd h ih =>
      refine .ret ?_ (ih (hrest hfits))
      cases cs with
      | nil => exact fun hhead => hfits.2 ⟨rfl, hhead⟩
      | cons d rest => exact hd
  | char hn hr h ih => exact .char hn hr (ih (hrest hfits))

/-- **Which lists of lines are the lines of their join.** -/
theorem lineTokens_flatten_iff (hlines : ∀ l ∈ ls, l ≠ [] ∧ lineTokens l = [l]) :
    lineTokens ls.flatten = ls ↔ ls.IsChain FitsBefore := by
  constructor
  · intro h
    exact h ▸ (splits_lineTokens ls.flatten).isChain
  · intro hchain
    apply Splits.lineTokens_eq
    induction ls with
    | nil => exact .nil
    | cons l ls ih =>
        obtain ⟨hl, hls⟩ := List.forall_mem_cons.mp hlines
        have hsplits := lineTokens_eq_iff.mp hl.2
        cases ls with
        | nil =>
            rw [List.flatten_singleton]
            exact hsplits
        | cons l' ls =>
            obtain ⟨hfits, hrest⟩ := List.isChain_cons_cons.mp hchain
            refine hsplits.append (ih hls hrest) ⟨hfits.1, fun hseam => hfits.2 ⟨hseam.1, ?_⟩⟩
            rw [← hseam.2, head?_flatten (hls l' List.mem_cons_self).1]

end Lines
