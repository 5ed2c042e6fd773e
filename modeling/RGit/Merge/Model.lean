/-
RGit/Merge/Model.lean

The data of the command-line repository that merging works on: access
policies, the files of a manifest, conflicts, and the plan of a merge.
-/
import RGit.Lib.Maps

namespace RGit.Cli

/-! ### Access policies -/

inductive Redaction where
  | omit
  | placeholder
  | metadataOnly
  deriving DecidableEq

structure AccessPolicy where
  domains : List String
  redaction : Redaction
  deriving DecidableEq

structure Actor where
  name : String
  domains : List String
  deriving DecidableEq

def publicDomain : String := "public"

def adminDomain : String := "admin"

def publicPolicy : AccessPolicy := ⟨[publicDomain], .omit⟩

def adminPolicy : AccessPolicy := ⟨[adminDomain], .placeholder⟩

/-- `can_access`. -/
def canAccess (actor : Actor) (policy : AccessPolicy) : Bool :=
  actor.domains.any (· == adminDomain) ||
    policy.domains.any fun domain => actor.domains.any (· == domain)

/-- `policies.push` of a policy that is not in the list. -/
def pushPolicy (policies : List AccessPolicy) (policy : AccessPolicy) : List AccessPolicy :=
  if policy ∈ policies then policies else policies ++ [policy]

/-- `BTreeSet` of the domains of some policies, as a list. -/
def sortedDomains (policies : List AccessPolicy) : List String :=
  (Std.ExtTreeSet.ofList (policies.flatMap (·.domains)) compare).toList

/-! ### Files and conflicts -/

structure FileEntry where
  symlink : Bool := false
  path : String
  executable : Bool := false
  hash : String
  bytes : UInt64
  policy : AccessPolicy
  deriving DecidableEq

inductive ConflictKind where
  | bothModified
  | deleteModify
  | addAdd
  | fileDirectory
  deriving DecidableEq

structure PendingConflict where
  path : String
  kind : ConflictKind
  policy : AccessPolicy
  filePolicies : List AccessPolicy
  deriving DecidableEq

structure MergePlan where
  mergedFiles : List FileEntry
  conflicts : List PendingConflict
  deriving DecidableEq

/-- `manifest_map`. -/
def manifestMap (entries : List FileEntry) : BTreeMap String FileEntry :=
  entries.foldl (fun m entry => m.insert entry.path entry) ∅

end RGit.Cli
