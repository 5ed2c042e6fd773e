/-
RGit/Merge/TextMerge.lean

When texts merge, and to what.

The two scripts are joined as sets of edits; sorting and removing doubles
gives the one sorted list of the union (`sortedEdits_congr`), neighbours in
it are clear of each other exactly when no two edits clash, and then the
pass over the lines applies the union (`merge_eq`).
-/
import RGit.Canonical.RoundTrip
import RGit.Merge.Text

namespace RGit.Cli

/-! ### Sorting and removing doubles -/

section Sorting

theorem editKey_injective : Function.Injective editKey := by
  rintro ⟨start, stop, text⟩ ⟨start', stop', text'⟩ h
  obtain ⟨rfl, h⟩ := Prod.mk.inj (toLex.injective h)
  obtain ⟨rfl, rfl⟩ := Prod.mk.inj (toLex.injective h)
  rfl

/-- The order of the edits. -/
def editLE (a b : Edit) : Prop := editKey a ≤ editKey b

instance : DecidableRel editLE := fun a b => inferInstanceAs (Decidable (editKey a ≤ editKey b))

instance : Std.Total editLE := ⟨fun a b => le_total (editKey a) (editKey b)⟩

instance : IsTrans Edit editLE := ⟨fun _ _ _ hab hbc => le_trans hab hbc⟩

instance : Std.Antisymm editLE := ⟨fun _ _ hab hba => editKey_injective (le_antisymm hab hba)⟩

theorem sortedEdits_eq (changes : List Edit) :
    sortedEdits changes = (changes.insertionSort editLE).dedup :=
  (List.pairwise_insertionSort editLE changes).destutter_eq_dedup

theorem mem_sortedEdits {changes : List Edit} {e : Edit} :
    e ∈ sortedEdits changes ↔ e ∈ changes := by
  rw [sortedEdits_eq, List.mem_dedup, List.mem_insertionSort]

theorem nodup_sortedEdits (changes : List Edit) : (sortedEdits changes).Nodup := by
  rw [sortedEdits_eq]
  exact List.nodup_dedup _

theorem pairwise_sortedEdits (changes : List Edit) : (sortedEdits changes).Pairwise editLE := by
  rw [sortedEdits_eq]
  exact (List.pairwise_insertionSort editLE changes).sublist (List.dedup_sublist _)

/-- A sorted list without doubles is determined by its members. -/
theorem eq_of_mem_iff {l l' : List Edit} (hmem : ∀ e, e ∈ l ↔ e ∈ l') (hl : l.Nodup)
    (hl' : l'.Nodup) (hsorted : l.Pairwise editLE) (hsorted' : l'.Pairwise editLE) : l = l' :=
  ((List.perm_ext_iff_of_nodup hl hl').mpr hmem).eq_of_pairwise' hsorted hsorted'

theorem sortedEdits_congr {l l' : List Edit} (hmem : ∀ e, e ∈ l ↔ e ∈ l') :
    sortedEdits l = sortedEdits l' :=
  eq_of_mem_iff (fun e => by rw [mem_sortedEdits, mem_sortedEdits, hmem]) (nodup_sortedEdits l)
    (nodup_sortedEdits l') (pairwise_sortedEdits l) (pairwise_sortedEdits l')

/-- Sorted as the library of hunks wants it. -/
theorem sorted_sortedEdits (changes : List Edit) :
    (sortedEdits changes).Pairwise fun a b =>
      a ≠ b ∧ (a.start < b.start ∨ (a.start = b.start ∧ a.stop ≤ b.stop)) := by
  refine ((nodup_sortedEdits changes).and (pairwise_sortedEdits changes)).imp fun {a b} h => ?_
  refine ⟨h.1, ?_⟩
  have hle : editKey a ≤ editKey b := h.2
  rw [editKey, editKey, Prod.Lex.toLex_le_toLex, Prod.Lex.toLex_le_toLex] at hle
  dsimp only at hle
  rcases hle with hlt | ⟨heq, hlt | ⟨hstop, -⟩⟩
  · exact .inl hlt
  · exact .inr ⟨heq, hlt.le⟩
  · exact .inr ⟨heq, hstop.le⟩

theorem tooClose_eq_false {a b : Edit} : tooClose a b = false ↔ a.Before b := by
  simp only [tooClose, Hunk.Before, Bool.or_eq_false_iff, Bool.and_eq_false_iff,
    decide_eq_false_iff_not, beq_eq_false_iff_ne]
  omega

/-- **Looking at neighbours is enough.** -/
theorem anyWindow_tooClose {changes : List Edit} (hvalid : ∀ e ∈ changes, e.Valid) :
    anyWindow tooClose (sortedEdits changes) = false ↔
      ∀ a ∈ changes, ∀ b ∈ changes, a ≠ b → ¬a.Clash b := by
  rw [anyWindow_eq_false_iff]
  simp only [tooClose_eq_false]
  rw [Hunk.isChain_before_iff (fun e he => hvalid e (mem_sortedEdits.mp he))
    (sorted_sortedEdits changes)]
  simp only [mem_sortedEdits]

end Sorting

/-! ### Bytes -/

theorem utf8Bytes_join (l : List String) : utf8Bytes (String.join l) = l.flatMap utf8Bytes := by
  induction l with
  | nil => rfl
  | cons s l ih => rw [String.join_cons, utf8Bytes_append, ih, List.flatMap_cons]

/-! ### Scripts -/

/-- The operations go through both sequences without a gap; what is said to be
equal is, and is not empty. -/
def Contiguous (old new : List String) : ℕ → ℕ → List DiffOp → Prop
  | i, j, [] => i = old.length ∧ j = new.length
  | i, j, op :: ops =>
      op.oldRange.1 = i ∧ op.newRange.1 = j ∧ op.oldRange.2 ≤ old.length ∧
        op.newRange.2 ≤ new.length ∧
        (op.tag = .equal → op.oldRange.1 < op.oldRange.2 ∧
          slice old op.oldRange = slice new op.newRange) ∧
        Contiguous old new op.oldRange.2 op.newRange.2 ops

instance decidableContiguous (old new : List String) :
    (i j : ℕ) → (ops : List DiffOp) → Decidable (Contiguous old new i j ops)
  | i, j, [] => inferInstanceAs (Decidable (i = old.length ∧ j = new.length))
  | i, j, op :: ops =>
      let := decidableContiguous old new op.oldRange.2 op.newRange.2 ops
      inferInstanceAs (Decidable (op.oldRange.1 = i ∧ op.newRange.1 = j ∧
        op.oldRange.2 ≤ old.length ∧ op.newRange.2 ≤ new.length ∧
        (op.tag = .equal → op.oldRange.1 < op.oldRange.2 ∧
          slice old op.oldRange = slice new op.newRange) ∧
        Contiguous old new op.oldRange.2 op.newRange.2 ops))

/-- A contiguous script without adjacent changes. -/
structure IsScript (old new : List String) (ops : List DiffOp) : Prop where
  contiguous : Contiguous old new 0 0 ops
  separated : ops.IsChain fun a b => a.tag = .equal ∨ b.tag = .equal

/-- The edit of an operation. -/
def editOf (new : List String) (op : DiffOp) : Edit :=
  ⟨op.oldRange.1, op.oldRange.2, String.join (slice new op.newRange)⟩

/-- The edits of a script. -/
def editsOf (new : List String) (ops : List DiffOp) : List Edit :=
  (ops.filter fun op => op.tag ≠ .equal).map (editOf new)

theorem edits_eq (diff : TextDiff) (base side : String) :
    edits diff base side = editsOf (diff.tokenizeLines side)
      (diff.ops (diff.tokenizeLines base) (diff.tokenizeLines side)) := rfl

/-- The edit of an operation, with its lines. -/
def lineEditOf (new : List String) (op : DiffOp) : Hunk (List String) :=
  ⟨op.oldRange.1, op.oldRange.2, slice new op.newRange⟩

/-- The edits of a script, with their lines. -/
def lineEditsOf (new : List String) (ops : List DiffOp) : List (Hunk (List String)) :=
  (ops.filter fun op => op.tag ≠ .equal).map (lineEditOf new)

theorem editsOf_eq (new : List String) (ops : List DiffOp) :
    editsOf new ops = (lineEditsOf new ops).map (Hunk.map String.join) := by
  rw [lineEditsOf, List.map_map]
  rfl

theorem lineEditsOf_cons_equal {new : List String} {op : DiffOp} (ops : List DiffOp)
    (h : op.tag = .equal) : lineEditsOf new (op :: ops) = lineEditsOf new ops := by
  rw [lineEditsOf, List.filter_cons_of_neg (by simp [h])]
  rfl

theorem lineEditsOf_cons_change {new : List String} {op : DiffOp} (ops : List DiffOp)
    (h : op.tag ≠ .equal) :
    lineEditsOf new (op :: ops) = lineEditOf new op :: lineEditsOf new ops := by
  rw [lineEditsOf, List.filter_cons_of_pos (by simp [h])]
  rfl

section Script

variable {old new : List String}

theorem oldRange_le (op : DiffOp) : op.oldRange.1 ≤ op.oldRange.2 := by
  cases op <;> simp [DiffOp.oldRange]

theorem newRange_le (op : DiffOp) : op.newRange.1 ≤ op.newRange.2 := by
  cases op <;> simp [DiffOp.newRange]

theorem valid_of_mem_lineEditsOf {ops : List DiffOp} {e : Hunk (List String)}
    (he : e ∈ lineEditsOf new ops) : e.Valid := by
  obtain ⟨op, -, rfl⟩ := List.mem_map.mp he
  exact oldRange_le op

theorem bounds_of_mem_lineEditsOf {i j : ℕ} {ops : List DiffOp}
    (h : Contiguous old new i j ops) {e : Hunk (List String)} (he : e ∈ lineEditsOf new ops) :
    i ≤ e.start ∧ e.stop ≤ old.length := by
  induction ops generalizing i j with
  | nil => cases he
  | cons op ops ih =>
      obtain ⟨hi, hj, hold, hnew, -, hrest⟩ := h
      have hle := oldRange_le op
      by_cases htag : op.tag = .equal
      · rw [lineEditsOf_cons_equal ops htag] at he
        have := ih hrest he
        omega
      · rw [lineEditsOf_cons_change ops htag] at he
        rcases List.mem_cons.mp he with rfl | he
        · exact ⟨hi.ge, hold⟩
        · have := ih hrest he
          omega

/-- The edits of one script are clear of each other. -/
theorem pairwise_before_lineEditsOf {i j : ℕ} {ops : List DiffOp} (h : Contiguous old new i j ops)
    (hsep : ops.IsChain fun a b => a.tag = .equal ∨ b.tag = .equal) :
    (lineEditsOf new ops).Pairwise Hunk.Before := by
  induction ops generalizing i j with
  | nil => exact .nil
  | cons op ops ih =>
      obtain ⟨-, -, -, -, -, hrest⟩ := h
      have hih := ih hrest hsep.tail
      by_cases htag : op.tag = .equal
      · rwa [lineEditsOf_cons_equal ops htag]
      · rw [lineEditsOf_cons_change ops htag]
        refine List.pairwise_cons.mpr ⟨fun e he => ?_, hih⟩
        -- the next operation is a non-empty equal one
        cases ops with
        | nil => cases he
        | cons next ops =>
            have hnext : next.tag = .equal :=
              (List.isChain_cons_cons.mp hsep).1.resolve_left htag
            obtain ⟨hi, -, -, -, hequal, hafter⟩ := hrest
            rw [lineEditsOf_cons_equal ops hnext] at he
            have hpos := (hequal hnext).1
            have hstart := (bounds_of_mem_lineEditsOf hafter he).1
            have hlt : (lineEditOf new op).stop < e.start := by
              change op.oldRange.2 < e.start
              omega
            exact ⟨hlt.le, fun heq => absurd heq hlt.ne⟩

/-- Where an edit stands does not depend on its text. -/
theorem exists_lineEdit {ops : List DiffOp} {e : Edit} (he : e ∈ editsOf new ops) :
    ∃ l ∈ lineEditsOf new ops, l.start = e.start ∧ l.stop = e.stop := by
  rw [editsOf_eq] at he
  obtain ⟨l, hl, rfl⟩ := List.mem_map.mp he
  exact ⟨l, hl, rfl, rfl⟩

theorem valid_of_mem_editsOf {ops : List DiffOp} {e : Edit} (he : e ∈ editsOf new ops) :
    e.Valid := by
  obtain ⟨l, hl, hstart, hstop⟩ := exists_lineEdit he
  have hvalid := valid_of_mem_lineEditsOf hl
  unfold Hunk.Valid at hvalid ⊢
  omega

theorem bounds_of_mem_editsOf {i j : ℕ} {ops : List DiffOp} (h : Contiguous old new i j ops)
    {e : Edit} (he : e ∈ editsOf new ops) : i ≤ e.start ∧ e.stop ≤ old.length := by
  obtain ⟨l, hl, hstart, hstop⟩ := exists_lineEdit he
  have hbounds := bounds_of_mem_lineEditsOf h hl
  omega

theorem pairwise_before_editsOf {i j : ℕ} {ops : List DiffOp} (h : Contiguous old new i j ops)
    (hsep : ops.IsChain fun a b => a.tag = .equal ∨ b.tag = .equal) :
    (editsOf new ops).Pairwise Hunk.Before := by
  rw [editsOf_eq]
  exact List.pairwise_map.mpr (pairwise_before_lineEditsOf h hsep)

/-- **A script turns the old lines into the new ones.** -/
theorem splice_lineEditsOf {i j : ℕ} {ops : List DiffOp} (h : Contiguous old new i j ops) :
    (Hunk.splice (old.map fun l => [l]) i (lineEditsOf new ops)).flatten = new.drop j := by
  induction ops generalizing i j with
  | nil =>
      obtain ⟨rfl, rfl⟩ := h
      rw [List.drop_length, lineEditsOf, List.filter_nil, List.map_nil, Hunk.splice,
        List.drop_eq_nil_of_le (List.length_map _).le]
      rfl
  | cons op ops ih =>
      obtain ⟨rfl, rfl, hold, hnew, hequal, hrest⟩ := h
      have hih := ih hrest
      have hdrop : new.drop op.newRange.1 =
          slice new op.newRange ++ new.drop op.newRange.2 :=
        Hunk.drop_eq_append (newRange_le op) new
      by_cases htag : op.tag = .equal
      · rw [lineEditsOf_cons_equal ops htag, Hunk.splice_pause (oldRange_le op)
          fun e he => (bounds_of_mem_lineEditsOf hrest he).1, List.flatten_append, hih, hdrop,
          ← (hequal htag).2, ← List.map_take, ← List.map_drop, ← List.flatMap_def,
          List.flatMap_singleton']
        rfl
      · have hstart : ((old.map fun l => [l]).take (lineEditOf new op).start).drop
            op.oldRange.1 = [] := List.drop_eq_nil_of_le (List.length_take_le _ _)
        rw [lineEditsOf_cons_change ops htag, Hunk.splice, hstart, List.nil_append,
          List.flatten_cons, hdrop, ← hih, lineEditOf]

theorem splice_editsOf {i j : ℕ} {ops : List DiffOp} (h : Contiguous old new i j ops) :
    (Hunk.splice old i (editsOf new ops)).flatMap utf8Bytes = (new.drop j).flatMap utf8Bytes := by
  rw [editsOf_eq, ← splice_lineEditsOf h]
  have hold : (old.map fun l => [l]).map String.join = old := by
    rw [List.map_map]
    refine List.map_id'' (fun l => ?_) old
    rw [Function.comp_apply, String.join_cons, String.join_nil, String.append_empty]
  nth_rewrite 1 [← hold]
  rw [Hunk.splice_map, List.flatMap_map, List.flatMap_def, List.flatMap_def, List.map_flatten,
    List.flatten_flatten, List.map_map]
  refine congrArg List.flatten (List.map_congr_left fun l _ => ?_)
  exact utf8Bytes_join l

end Script

/-! ### Merging -/

section Merge

variable {diff : TextDiff} {base line incoming : String}

/-- The lines of the base with the edits of both sides applied. -/
def unionApplied (diff : TextDiff) (base line incoming : String) : Bytes :=
  (Hunk.applied (diff.tokenizeLines base)
    (edits diff base line ++ edits diff base incoming)).flatMap utf8Bytes

/-- Two distinct edits of the sides are in each other's way. -/
def EditsClash (diff : TextDiff) (base line incoming : String) : Prop :=
  ∃ a ∈ edits diff base line ++ edits diff base incoming,
    ∃ b ∈ edits diff base line ++ edits diff base incoming, a ≠ b ∧ a.Clash b

/-- The diff of a text against a base is a script. -/
def ScriptFor (diff : TextDiff) (base side : String) : Prop :=
  IsScript (diff.tokenizeLines base) (diff.tokenizeLines side)
    (diff.ops (diff.tokenizeLines base) (diff.tokenizeLines side))

theorem valid_of_mem_edits {side : String} {e : Edit} (he : e ∈ edits diff base side) :
    e.Valid := valid_of_mem_editsOf he

/-- Without a clash the pass applies the union of the edits. -/
theorem splice_union (hline : ScriptFor diff base line) (hincoming : ScriptFor diff base incoming)
    (hclear : ∀ a ∈ edits diff base line ++ edits diff base incoming,
      ∀ b ∈ edits diff base line ++ edits diff base incoming, a ≠ b → ¬a.Clash b) :
    (Hunk.splice (diff.tokenizeLines base) 0
      (sortedEdits (edits diff base line ++ edits diff base incoming))).flatMap utf8Bytes =
        unionApplied diff base line incoming := by
  have hvalid : ∀ e ∈ edits diff base line ++ edits diff base incoming, e.Valid := by
    intro e he
    rcases List.mem_append.mp he with he | he <;> exact valid_of_mem_edits he
  have hlen : ∀ e ∈ edits diff base line ++ edits diff base incoming,
      e.stop ≤ (diff.tokenizeLines base).length := by
    intro e he
    rcases List.mem_append.mp he with he | he
    · exact (bounds_of_mem_editsOf hline.contiguous he).2
    · exact (bounds_of_mem_editsOf hincoming.contiguous he).2
  have hbefore := Hunk.pairwise_of_isChain (fun e he => hvalid e (mem_sortedEdits.mp he))
    (by simpa only [anyWindow_eq_false_iff, tooClose_eq_false] using
      (anyWindow_tooClose hvalid).mpr hclear)
  -- edits that start together clash
  have hinj : ∀ a ∈ edits diff base line ++ edits diff base incoming,
      ∀ b ∈ edits diff base line ++ edits diff base incoming, a.start = b.start → a = b := by
    intro a ha b hb hstart
    by_contra hne
    exact hclear a ha b hb hne (Hunk.clash_of_start_eq (hvalid a ha) (hvalid b hb) hstart)
  rw [Hunk.splice_eq_appliedFrom (Nat.zero_le _) (fun e he => hvalid e (mem_sortedEdits.mp he))
    (fun e he => hlen e (mem_sortedEdits.mp he)) (fun _ _ => Nat.zero_le _) hbefore]
  rw [unionApplied, Hunk.applied_congr (fun e => mem_sortedEdits.symm) hinj]
  rfl

theorem clear_iff_not_editsClash :
    (∀ a ∈ edits diff base line ++ edits diff base incoming,
      ∀ b ∈ edits diff base line ++ edits diff base incoming, a ≠ b → ¬a.Clash b) ↔
    ¬EditsClash diff base line incoming := by
  simp only [EditsClash, not_exists, not_and]

theorem merge_of_clash (h : EditsClash diff base line incoming) :
    merge diff base line incoming = none := by
  rw [merge, if_pos]
  by_contra hwindow
  rw [Bool.not_eq_true, anyWindow_tooClose] at hwindow
  · exact clear_iff_not_editsClash.mp hwindow h
  · intro e he
    rcases List.mem_append.mp he with he | he <;> exact valid_of_mem_edits he

theorem merge_of_clear (hline : ScriptFor diff base line)
    (hincoming : ScriptFor diff base incoming) (h : ¬EditsClash diff base line incoming) :
    merge diff base line incoming =
      if (unionApplied diff base line incoming).length ≤ fileLimit then
        some (unionApplied diff base line incoming)
      else none := by
  have hclear := clear_iff_not_editsClash.mpr h
  have hwindow : anyWindow tooClose
      (sortedEdits (edits diff base line ++ edits diff base incoming)) = false := by
    refine (anyWindow_tooClose fun e he => ?_).mpr hclear
    rcases List.mem_append.mp he with he | he <;> exact valid_of_mem_edits he
  simp only [merge, hwindow, splice_union hline hincoming hclear, Bool.false_eq_true, if_false]

theorem merge_comm : merge diff base incoming line = merge diff base line incoming := by
  have hsorted : sortedEdits (edits diff base incoming ++ edits diff base line) =
      sortedEdits (edits diff base line ++ edits diff base incoming) :=
    sortedEdits_congr fun e => by rw [List.mem_append, List.mem_append, or_comm]
  rw [merge, hsorted]
  rfl

/-- A union of edits that is one side's gives that side. -/
theorem merge_of_union_eq {side : String} (hside : ScriptFor diff base side)
    (hlines : String.join (diff.tokenizeLines side) = side)
    (hunion : ∀ e, e ∈ edits diff base line ++ edits diff base incoming ↔
      e ∈ edits diff base side)
    (hlimit : (utf8Bytes side).length ≤ fileLimit) :
    merge diff base line incoming = some (utf8Bytes side) := by
  have hbefore : (edits diff base side).Pairwise Hunk.Before :=
    pairwise_before_editsOf hside.contiguous hside.separated
  have hsorted : sortedEdits (edits diff base line ++ edits diff base incoming) =
      edits diff base side := by
    have hlt : (edits diff base side).Pairwise fun a b => a.start < b.start :=
      hbefore.imp_of_mem fun ha _ h => h.start_lt (valid_of_mem_edits ha)
    refine eq_of_mem_iff (fun e => mem_sortedEdits.trans (hunion e)) (nodup_sortedEdits _)
      (hlt.imp fun h heq => ?_) (pairwise_sortedEdits _) (hlt.imp fun h => ?_)
    · exact absurd h (by rw [heq]; exact lt_irrefl _)
    · exact Prod.Lex.toLex_le_toLex.mpr (.inl h)
  have hwindow : anyWindow tooClose (edits diff base side) = false := by
    simp only [anyWindow_eq_false_iff, tooClose_eq_false]
    exact hbefore.isChain
  have hsplice : (Hunk.splice (diff.tokenizeLines base) 0 (edits diff base side)).flatMap utf8Bytes =
      utf8Bytes side := by
    rw [edits_eq, splice_editsOf hside.contiguous, List.drop_zero, ← utf8Bytes_join, hlines]
  simp only [merge, hsorted, hwindow, hsplice, hlimit, Bool.false_eq_true, if_false, if_true]

end Merge

/-- **Three-way text merging.**  For a differ that returns scripts: the merge is
refused exactly when two distinct edits overlap or touch at an insertion, or
when the result is too long; otherwise it is the base with the edits of both
sides; the sides may be exchanged; and a side that did not change, or changed
as the other did, yields the other one. -/
theorem merge_threeWay {diff : TextDiff} {base line incoming : String}
    (hline : ScriptFor diff base line) (hincoming : ScriptFor diff base incoming)
    (hsame : ∀ op ∈ diff.ops (diff.tokenizeLines base) (diff.tokenizeLines base),
      op.tag = .equal)
    (hlines : String.join (diff.tokenizeLines line) = line) :
    (merge diff base line incoming = none ↔
      EditsClash diff base line incoming ∨
        fileLimit < (unionApplied diff base line incoming).length) ∧
    (∀ result, merge diff base line incoming = some result →
      result = unionApplied diff base line incoming) ∧
    merge diff base incoming line = merge diff base line incoming ∧
    ((utf8Bytes line).length ≤ fileLimit →
      merge diff base base line = some (utf8Bytes line) ∧
      merge diff base line base = some (utf8Bytes line) ∧
      merge diff base line line = some (utf8Bytes line)) := by
  have hbase : edits diff base base = [] := by
    rw [edits_eq, editsOf, List.filter_eq_nil_iff.mpr fun op hop => by simp [hsame op hop]]
    rfl
  refine ⟨?_, fun result hresult => ?_, merge_comm, fun hlimit => ⟨?_, ?_, ?_⟩⟩
  · by_cases hclash : EditsClash diff base line incoming
    · simp [merge_of_clash hclash, hclash]
    · rw [merge_of_clear hline hincoming hclash]
      split
      · next hle => simp [hclash, hle]
      · next hgt => simpa [hclash] using hgt
  · by_cases hclash : EditsClash diff base line incoming
    · rw [merge_of_clash hclash] at hresult
      cases hresult
    · rw [merge_of_clear hline hincoming hclash] at hresult
      split at hresult
      · exact (Option.some.inj hresult).symm
      · cases hresult
  · exact merge_of_union_eq hline hlines (fun e => by simp [hbase]) hlimit
  · exact merge_of_union_eq hline hlines (fun e => by simp [hbase]) hlimit
  · exact merge_of_union_eq hline hlines (fun e => by simp) hlimit

/-- Lines with their line feeds. -/
def splitLines : List Char → List (List Char)
  | [] => []
  | c :: rest =>
      if c = '\n' then [c] :: splitLines rest
      else
        match splitLines rest with
        | [] => [[c]]
        | l :: ls => (c :: l) :: ls

/-- How many elements two lists start with together. -/
def commonPrefix (old new : List String) : ℕ :=
  ((old.zip new).takeWhile fun (a, b) => a == b).length

/-- The lines that two texts share at both ends, and one change between them. -/
def trimmedOps (old new : List String) : List DiffOp :=
  let head := commonPrefix old new
  let tail := commonPrefix (old.drop head).reverse (new.drop head).reverse
  let oldLen := old.length - head - tail
  let newLen := new.length - head - tail
  let change : List DiffOp :=
    if oldLen = 0 then if newLen = 0 then [] else [.insert head head newLen]
    else if newLen = 0 then [.delete head oldLen head] else [.replace head oldLen head newLen]
  (if head = 0 then [] else [.equal 0 0 head]) ++ change ++
    (if tail = 0 then [] else [.equal (head + oldLen) (head + newLen) tail])

/-- A differ that finds one change. -/
def trimmedDiff : TextDiff where
  tokenizeLines text := (splitLines text.toList).map String.ofList
  ops := trimmedOps

/-- Edits of the first and of the last line. -/
theorem merge_threeWay_sample :
    merge trimmedDiff "a\nb\nc\n" "A\nb\nc\n" "a\nb\nC\n" = some (utf8Bytes "A\nb\nC\n") ∧
      merge trimmedDiff "a\nb\nc\n" "A\nb\nc\n" "a\nb\nc\n" = some (utf8Bytes "A\nb\nc\n") :=
  have hlaw := @merge_threeWay trimmedDiff "a\nb\nc\n" "A\nb\nc\n" "a\nb\nC\n"
    ⟨by decide, by decide⟩ ⟨by decide, by decide⟩ (by decide) (by decide)
  ⟨by decide, (hlaw.2.2.2 (by decide)).2.1⟩

end RGit.Cli
