/-
RGit/Merge/Text.lean

Merging texts line by line.

The `similar` crate is a parameter (`TextDiff`): it splits texts into lines
and lists the operations that turn the lines of one text into those of
another.  `merge` joins the edits of both sides when none of them is in the
way of another one.
-/
import Mathlib.Data.List.Destutter
import Mathlib.Data.Prod.Lex
import Mathlib.Data.String.Basic
import RGit.Lib.Hunks
import RGit.Lib.Lists
import RGit.Canonical.Value

namespace RGit.Cli

/-! ### The operations of a diff -/

inductive DiffTag where
  | equal
  | delete
  | insert
  | replace
  deriving DecidableEq

/-- `similar::DiffOp`. -/
inductive DiffOp where
  | equal (oldIndex newIndex len : ℕ)
  | delete (oldIndex oldLen newIndex : ℕ)
  | insert (oldIndex newIndex newLen : ℕ)
  | replace (oldIndex oldLen newIndex newLen : ℕ)
  deriving DecidableEq

namespace DiffOp

def tag : DiffOp → DiffTag
  | .equal .. => .equal
  | .delete .. => .delete
  | .insert .. => .insert
  | .replace .. => .replace

/-- The start and the end of `old_range`. -/
def oldRange : DiffOp → ℕ × ℕ
  | .equal oldIndex _ len => (oldIndex, oldIndex + len)
  | .delete oldIndex oldLen _ => (oldIndex, oldIndex + oldLen)
  | .insert oldIndex _ _ => (oldIndex, oldIndex)
  | .replace oldIndex oldLen _ _ => (oldIndex, oldIndex + oldLen)

/-- The start and the end of `new_range`. -/
def newRange : DiffOp → ℕ × ℕ
  | .equal _ newIndex len => (newIndex, newIndex + len)
  | .delete _ _ newIndex => (newIndex, newIndex)
  | .insert _ newIndex newLen => (newIndex, newIndex + newLen)
  | .replace _ _ newIndex newLen => (newIndex, newIndex + newLen)

end DiffOp

/-- `slices[range]`. -/
def slice {α : Type} (l : List α) (range : ℕ × ℕ) : List α := (l.take range.2).drop range.1

/-- What the code uses of the `similar` crate. -/
structure TextDiff where
  tokenizeLines : String → List String
  ops : List String → List String → List DiffOp

/-! ### The code -/

abbrev Edit := Hunk String

def fileLimit : ℕ := 1048576

/-- `edits`. -/
def edits (diff : TextDiff) (base side : String) : List Edit :=
  let newSlices := diff.tokenizeLines side
  ((diff.ops (diff.tokenizeLines base) newSlices).filter fun op => op.tag ≠ .equal).map fun op =>
    { start := op.oldRange.1
      stop := op.oldRange.2
      text := String.join (slice newSlices op.newRange) }

/-- The tuple `sort_by` compares. -/
def editKey (e : Edit) : ℕ ×ₗ ℕ ×ₗ String := toLex (e.start, toLex (e.stop, e.text))

/-- `sort_by`, then `dedup`. -/
def sortedEdits (changes : List Edit) : List Edit :=
  (changes.insertionSort fun a b => editKey a ≤ editKey b).destutter (· ≠ ·)

/-- The test of the loop over `windows(2)`. -/
def tooClose (a b : Edit) : Bool :=
  a.stop > b.start || (a.stop == b.start && (a.start == a.stop || b.start == b.stop))

/-- `merge`. -/
def merge (diff : TextDiff) (base line incoming : String) : Option Bytes :=
  let changes := sortedEdits (edits diff base line ++ edits diff base incoming)
  if anyWindow tooClose changes then none
  else
    let result := (Hunk.splice (diff.tokenizeLines base) 0 changes).flatMap utf8Bytes
    if result.length ≤ fileLimit then some result else none

end RGit.Cli
