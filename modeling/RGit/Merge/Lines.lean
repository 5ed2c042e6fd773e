/-
RGit/Merge/Lines.lean

The lines of a merged text.

The edits of both sides are applied to whole lines, but the result is joined
as bytes.  What one side leaves next to an edit of its own is next to it in
that side's text as well, so the lines can only run together where an edit of
one side ends and one of the other side begins: there a line that ends in
`\r` may come before one that begins with `\n` (`merge_lines`).
-/
import RGit.Lib.Lines
import RGit.Lib.Seams
import RGit.Merge.TextMerge

namespace RGit.Cli

/-! ### The tokenizer -/

/-- `similar::DiffableStr::tokenize_lines`. -/
def tokenizeLines (text : String) : List String := (lineTokens text.toList).map String.ofList

/-- The `similar` crate: its tokenizer, and any way to find operations. -/
def similar (ops : List String → List String → List DiffOp) : TextDiff := ⟨tokenizeLines, ops⟩

/-- The end of the first line and the begin of the second one make one line end. -/
def RunTogether (a b : String) : Prop := Seam a.toList b.toList

instance (a b : String) : Decidable (RunTogether a b) :=
  inferInstanceAs (Decidable (Seam a.toList b.toList))

section Tokenizer

theorem map_toList_tokenizeLines (text : String) :
    (tokenizeLines text).map String.toList = lineTokens text.toList := by
  rw [tokenizeLines, List.map_map]
  exact List.map_id'' (fun l => String.toList_ofList) _

theorem join_tokenizeLines (text : String) : String.join (tokenizeLines text) = text := by
  apply String.toList_injective
  rw [String.toList_join, List.flatMap_def, map_toList_tokenizeLines, flatten_lineTokens]

theorem isChain_tokenizeLines (text : String) :
    (tokenizeLines text).IsChain fun a b => FitsBefore a.toList b.toList := by
  have hchain := (splits_lineTokens text.toList).isChain
  rw [← map_toList_tokenizeLines] at hchain
  exact (List.isChain_map String.toList).mp hchain

/-- A line of some text. -/
def IsLine (l : String) : Prop := l.toList ≠ [] ∧ lineTokens l.toList = [l.toList]

theorem isLine_of_mem_tokenizeLines {text l : String} (hl : l ∈ tokenizeLines text) : IsLine l := by
  have hmem : l.toList ∈ lineTokens text.toList := by
    rw [← map_toList_tokenizeLines]
    exact List.mem_map_of_mem hl
  obtain ⟨hne, hsplits⟩ := (splits_lineTokens text.toList).line l.toList hmem
  exact ⟨hne, hsplits.lineTokens_eq⟩

/-- The lines of joined lines. -/
theorem tokenizeLines_join_iff {ls : List String} (hlines : ∀ l ∈ ls, IsLine l) :
    tokenizeLines (String.join ls) = ls ↔
      ls.IsChain fun a b => FitsBefore a.toList b.toList := by
  have hmap : tokenizeLines (String.join ls) = ls ↔
      lineTokens (ls.map String.toList).flatten = ls.map String.toList := by
    rw [← List.flatMap_def, ← String.toList_join, ← map_toList_tokenizeLines]
    have hinjective : Function.Injective String.toList := fun _ _ => String.toList_injective
    exact ((List.map_injective_iff.mpr hinjective).eq_iff).symm
  rw [hmap, lineTokens_flatten_iff, List.isChain_map]
  intro cs hcs
  obtain ⟨l, hl, rfl⟩ := List.mem_map.mp hcs
  exact hlines l hl

end Tokenizer

/-! ### The merged lines -/

/-- The edits of a side, with their lines. -/
def lineEdits (diff : TextDiff) (base side : String) : List (Hunk (List String)) :=
  lineEditsOf (diff.tokenizeLines side)
    (diff.ops (diff.tokenizeLines base) (diff.tokenizeLines side))

/-- The lines of the base that are kept and those of the edits of both sides,
in order. -/
def mergedLines (diff : TextDiff) (base line incoming : String) : List String :=
  Hunk.appliedLines (diff.tokenizeLines base)
    (lineEdits diff base line ++ lineEdits diff base incoming)

/-- Wherever an edit ends and another one begins, the line that is left before
the place and the one that is left behind it do not run together. -/
def NoSeam (diff : TextDiff) (base line incoming : String) : Prop :=
  Hunk.SeamsFit (diff.tokenizeLines base) (lineEdits diff base line) (lineEdits diff base incoming)
    fun a b => ¬ RunTogether a b

section Lines

variable {diff : TextDiff} {base side line incoming : String}

theorem edits_eq_map : edits diff base side =
    (lineEdits diff base side).map (Hunk.map String.join) := editsOf_eq _ _

/-- The merged text is the join of the merged lines. -/
theorem unionApplied_eq :
    unionApplied diff base line incoming =
      utf8Bytes (String.join (mergedLines diff base line incoming)) := by
  have hbase : ((diff.tokenizeLines base).map fun l => [l]).map String.join =
      diff.tokenizeLines base := by
    rw [List.map_map]
    refine List.map_id'' (fun l => ?_) _
    rw [Function.comp_apply, String.join_cons, String.join_nil, String.append_empty]
  rw [unionApplied, edits_eq_map, edits_eq_map, ← List.map_append]
  nth_rewrite 1 [← hbase]
  rw [Hunk.applied_map, utf8Bytes_join, mergedLines, Hunk.appliedLines, List.flatMap_map,
    List.flatMap_def, List.flatMap_def, List.map_flatten, List.flatten_flatten, List.map_map]
  refine congrArg List.flatten (List.map_congr_left fun l _ => ?_)
  exact utf8Bytes_join l

/-- One side alone gives its own lines. -/
theorem appliedLines_lineEdits (h : ScriptFor diff base side) :
    Hunk.appliedLines (diff.tokenizeLines base) (lineEdits diff base side) =
      diff.tokenizeLines side := by
  have hsplice := splice_lineEditsOf h.contiguous
  rw [Hunk.splice_eq_appliedFrom (Nat.zero_le _) (fun e he => valid_of_mem_lineEditsOf he)
    (fun e he => ?_) (fun _ _ => Nat.zero_le _)
    (pairwise_before_lineEditsOf h.contiguous h.separated)] at hsplice
  · exact hsplice
  · rw [List.length_map]
    exact (bounds_of_mem_lineEditsOf h.contiguous he).2

/-- A line of an edit is a line of its side. -/
theorem slice_of_mem_lineEdits {e : Hunk (List String)} (he : e ∈ lineEdits diff base side) :
    ∃ range, e.text = slice (diff.tokenizeLines side) range := by
  obtain ⟨op, -, rfl⟩ := List.mem_map.mp he
  exact ⟨op.newRange, rfl⟩

/-- An edit that does not reach the end of the base stops before the last line
of its side. -/
theorem stop_lt_of_mem_lineEditsOf {old new : List String} {i j : ℕ} {ops : List DiffOp}
    (h : Contiguous old new i j ops)
    (hsep : ops.IsChain fun a b => a.tag = .equal ∨ b.tag = .equal) {e : Hunk (List String)}
    (he : e ∈ lineEditsOf new ops) (hstop : e.stop < old.length) :
    ∃ k k', e.text = slice new (k, k') ∧ k' < new.length := by
  induction ops generalizing i j with
  | nil => cases he
  | cons op ops ih =>
      obtain ⟨-, -, -, -, -, hrest⟩ := h
      by_cases htag : op.tag = .equal
      · rw [lineEditsOf_cons_equal ops htag] at he
        exact ih hrest hsep.tail he
      · rw [lineEditsOf_cons_change ops htag] at he
        rcases List.mem_cons.mp he with rfl | he
        · refine ⟨op.newRange.1, op.newRange.2, rfl, ?_⟩
          -- the next operation is a non-empty equal one
          cases ops with
          | nil => exact absurd hrest.1 (Nat.ne_of_lt hstop)
          | cons next ops =>
              have hnext : next.tag = .equal :=
                (List.isChain_cons_cons.mp hsep).1.resolve_left htag
              obtain ⟨-, hj, hold, hnew, hequal, -⟩ := hrest
              obtain ⟨hpos, hslices⟩ := hequal hnext
              have hlen := congrArg List.length hslices
              simp only [slice, List.length_drop, List.length_take] at hlen
              omega
        · exact ih hrest hsep.tail he

end Lines

section Similar

variable {ops : List String → List String → List DiffOp} {base side line incoming : String}

theorem isLine_of_mem_lineEdits {e : Hunk (List String)}
    (he : e ∈ lineEdits (similar ops) base side) {l : String} (hl : l ∈ e.text) : IsLine l := by
  obtain ⟨range, htext⟩ := slice_of_mem_lineEdits he
  rw [htext] at hl
  exact isLine_of_mem_tokenizeLines (List.mem_of_mem_take (List.mem_of_mem_drop hl))

/-- The lines of an edit are the lines of its text. -/
theorem tokenizeLines_join_text {e : Hunk (List String)}
    (he : e ∈ lineEdits (similar ops) base side) : tokenizeLines (String.join e.text) = e.text := by
  refine (tokenizeLines_join_iff fun l hl => isLine_of_mem_lineEdits he hl).mpr ?_
  obtain ⟨range, htext⟩ := slice_of_mem_lineEdits he
  rw [htext]
  exact ((isChain_tokenizeLines side).take _).drop _

/-- An edit that does not reach the end of the base has no line without an end. -/
theorem ended_of_mem_lineEdits (h : ScriptFor (similar ops) base side) {e : Hunk (List String)}
    (he : e ∈ lineEdits (similar ops) base side) (hstop : e.stop < (tokenizeLines base).length)
    {l : String} (hl : l ∈ e.text) : Ended l.toList := by
  obtain ⟨k, k', htext, hlt⟩ := stop_lt_of_mem_lineEditsOf h.contiguous h.separated he hstop
  rw [htext] at hl
  obtain ⟨i, hi, rfl⟩ := List.mem_iff_getElem.mp (List.mem_of_mem_drop hl)
  have hlast : i + 1 < (tokenizeLines side).length := by
    rw [List.length_take] at hi
    exact lt_of_le_of_lt (lt_min_iff.mp hi).1 hlt
  rw [List.getElem_take]
  exact (List.isChain_iff_getElem.mp (isChain_tokenizeLines side) i hlast).1

theorem mem_lineEdits_cases {e : Hunk (List String)}
    (he : e ∈ lineEdits (similar ops) base line ++ lineEdits (similar ops) base incoming) :
    ∃ side, e ∈ lineEdits (similar ops) base side := by
  rcases List.mem_append.mp he with he | he
  · exact ⟨line, he⟩
  · exact ⟨incoming, he⟩

theorem stop_le_of_mem_lineEdits (hline : ScriptFor (similar ops) base line)
    (hincoming : ScriptFor (similar ops) base incoming) {e : Hunk (List String)}
    (he : e ∈ lineEdits (similar ops) base line ++ lineEdits (similar ops) base incoming) :
    e.stop ≤ (tokenizeLines base).length := by
  rcases List.mem_append.mp he with he | he
  · exact (bounds_of_mem_lineEditsOf hline.contiguous he).2
  · exact (bounds_of_mem_lineEditsOf hincoming.contiguous he).2

/-- Edits that do not clash do not as edits of lines either. -/
theorem clear_lineEdits (h : ¬ EditsClash (similar ops) base line incoming) :
    Hunk.Clear (lineEdits (similar ops) base line ++ lineEdits (similar ops) base incoming) := by
  have hedits : ∀ {e}, e ∈ lineEdits (similar ops) base line ++
      lineEdits (similar ops) base incoming → Hunk.map String.join e ∈
        edits (similar ops) base line ++ edits (similar ops) base incoming := by
    intro e he
    rw [edits_eq_map, edits_eq_map, ← List.map_append]
    exact List.mem_map_of_mem he
  refine ⟨fun e he => ?_, fun a ha b hb hne hclash => ?_⟩
  · obtain ⟨side, he⟩ := mem_lineEdits_cases he
    exact valid_of_mem_lineEditsOf he
  · refine h ⟨_, hedits ha, _, hedits hb, fun heq => hne ?_, hclash⟩
    -- the lines of an edit can be read off its text
    obtain ⟨side, ha⟩ := mem_lineEdits_cases ha
    obtain ⟨side', hb⟩ := mem_lineEdits_cases hb
    obtain ⟨start, stop, text⟩ := a
    obtain ⟨start', stop', text'⟩ := b
    obtain ⟨hstart, hstop, htext⟩ := Hunk.mk.inj heq
    obtain rfl : start = start' := hstart
    obtain rfl : stop = stop' := hstop
    obtain rfl : text = text' := by
      have hlines := congrArg tokenizeLines htext
      rwa [tokenizeLines_join_text ha, tokenizeLines_join_text hb] at hlines
    rfl

/-- What is left before the begin of an edit has line ends. -/
theorem ended_of_mem_linesBefore (hline : ScriptFor (similar ops) base line)
    (hincoming : ScriptFor (similar ops) base incoming)
    (hclear : Hunk.Clear
      (lineEdits (similar ops) base line ++ lineEdits (similar ops) base incoming))
    {b : Hunk (List String)}
    (hb : b ∈ lineEdits (similar ops) base line ++ lineEdits (similar ops) base incoming)
    (hlt : b.start < b.stop) {l : String}
    (hl : l ∈ Hunk.linesBefore (tokenizeLines base)
      (lineEdits (similar ops) base line ++ lineEdits (similar ops) base incoming) b.start) :
    Ended l.toList := by
  have hlen := stop_le_of_mem_lineEdits hline hincoming hb
  obtain ⟨i, hi, hl⟩ := List.mem_flatMap.mp hl
  have hi := List.mem_range.mp hi
  rcases Hunk.mem_partAt hl with ⟨a, ha, hstart, hl⟩ | hkept
  · have hstop : a.stop ≤ b.start := by
      by_contra hgt
      obtain rfl := hclear.eq_of_start ha hb (by omega) (by omega)
      omega
    rcases List.mem_append.mp ha with ha | ha
    · exact ended_of_mem_lineEdits hline ha (by omega) hl
    · exact ended_of_mem_lineEdits hincoming ha (by omega) hl
  · obtain ⟨hi', rfl⟩ := List.getElem?_eq_some_iff.mp hkept
    exact (List.isChain_iff_getElem.mp (isChain_tokenizeLines base) i (by omega)).1

theorem isLine_of_mem_mergedLines {l : String}
    (hl : l ∈ mergedLines (similar ops) base line incoming) : IsLine l := by
  obtain ⟨i, hl⟩ := Hunk.mem_appliedLines hl
  rcases Hunk.mem_partAt hl with ⟨a, ha, -, hl⟩ | hkept
  · obtain ⟨side, ha⟩ := mem_lineEdits_cases ha
    exact isLine_of_mem_lineEdits ha hl
  · exact isLine_of_mem_tokenizeLines (List.mem_of_getElem? hkept)

/-- **The lines of a merged text.**  When two sides merge, the result is split
into the lines of the base that are kept and the lines of the edits, in order,
exactly when no two lines run together where an edit of one side ends and an
edit of the other side begins. -/
theorem merge_lines {m : Bytes} (hline : ScriptFor (similar ops) base line)
    (hincoming : ScriptFor (similar ops) base incoming)
    (hmerge : merge (similar ops) base line incoming = some m) :
    ∃ text, m = utf8Bytes text ∧
      (tokenizeLines text = mergedLines (similar ops) base line incoming ↔
        NoSeam (similar ops) base line incoming) := by
  have hnoClash : ¬ EditsClash (similar ops) base line incoming := by
    intro hclash
    rw [merge_of_clash hclash] at hmerge
    cases hmerge
  have hclear := clear_lineEdits hnoClash
  refine ⟨String.join (mergedLines (similar ops) base line incoming), ?_, ?_⟩
  · rw [merge_of_clear hline hincoming hnoClash] at hmerge
    split at hmerge
    · rw [← Option.some.inj hmerge, unionApplied_eq]
    · cases hmerge
  · rw [tokenizeLines_join_iff fun l hl => isLine_of_mem_mergedLines hl]
    constructor
    · intro hchain a ha b hb hlt htouch hlt' x hx y hy hrun
      have hlen : b.start ≤ ((similar ops).tokenizeLines base).length + 1 := by
        have hstop := stop_le_of_mem_lineEdits hline hincoming hb
        change b.start ≤ (tokenizeLines base).length + 1
        omega
      rw [mergedLines, Hunk.appliedLines_split hlen] at hchain
      exact ((List.isChain_append.mp hchain).2.2 x hx y hy).2 hrun
    · intro hfit
      refine Hunk.isChain_appliedLines hclear ?_ ?_ fun a ha b hb hlt htouch hlt' x hx y hy => ?_
      · rw [appliedLines_lineEdits hline]
        exact isChain_tokenizeLines line
      · rw [appliedLines_lineEdits hincoming]
        exact isChain_tokenizeLines incoming
      · refine ⟨?_, hfit a ha b hb hlt htouch hlt' x hx y hy⟩
        exact ended_of_mem_linesBefore hline hincoming hclear hb hlt' (List.mem_of_getLast? hx)

end Similar

/-- Adjacent edits of the two sides whose lines stay apart, the last one without
an end. -/
theorem merge_lines_adjacent :
    ∃ text, utf8Bytes "A\rB\r\nC" = utf8Bytes text ∧
      (tokenizeLines text = mergedLines (similar trimmedOps) "a\rb\r\nc" "A\rb\r\nc"
          "a\rB\r\nC" ↔
        NoSeam (similar trimmedOps) "a\rb\r\nc" "A\rb\r\nc" "a\rB\r\nC") :=
  merge_lines ⟨by decide, by decide⟩ ⟨by decide, by decide⟩ (by decide)

/-- The line ends its first line in `\r`, the incoming text empties the second
one: the end of the one and the begin of the other are read as one line end. -/
theorem merge_joins_lines :
    ScriptFor (similar trimmedOps) "a\nx\nb\n" "a\rx\nb\n" ∧
      ScriptFor (similar trimmedOps) "a\nx\nb\n" "a\n\nb\n" ∧
      merge (similar trimmedOps) "a\nx\nb\n" "a\rx\nb\n" "a\n\nb\n" =
        some (utf8Bytes "a\r\nb\n") ∧
      mergedLines (similar trimmedOps) "a\nx\nb\n" "a\rx\nb\n" "a\n\nb\n" =
        ["a\r", "\n", "b\n"] ∧
      tokenizeLines "a\r\nb\n" = ["a\r\n", "b\n"] :=
  ⟨⟨by decide, by decide⟩, ⟨by decide, by decide⟩, by decide, by decide,
    by decide⟩

end RGit.Cli
