/-
RGit/Store/Actions.lean

The actions of an operation and the updates of a publication.

`validate_operation` gives each update the first unused action that matches
it.  An action announces one thing only, a line state by its fields or a
transition by its two ends, and an update asks for one announcement; so the
first match is as good as any other (`validateOperation_iff_assignment`).
-/
import RGit.Lib.Matching
import RGit.Store.Concurrent

namespace RGit

open MemoryStore

/-! ### What actions announce and updates ask for -/

/-- A line state by the fields that are declared, or the two ends of a transition. -/
inductive Announcement where
  | line (fields : List (Option Value))
  | transition (before : Option (ObjectKind × ObjectId)) (after : ObjectKind × ObjectId)

/-- The fields of a declaration. -/
def announcedFields (declaration : Entries) : List (Option Value) :=
  declaredFields.map (fun (key, _) => valueField declaration key) ++ [valueField declaration 5]

/-- The fields of a line state that a declaration announces. -/
def stateFields (state : Entries) : List (Option Value) :=
  declaredFields.map (fun (_, key) => valueField state key) ++ [valueField state 7]

/-- What an action announces. -/
def announcement (action : Value) : Option Announcement :=
  (valueMap action).bind fun m =>
    if (valueField m 0).bind valueUnsigned = some 1 then
      ((valueField m 3).bind valueMap).map fun declaration => .line (announcedFields declaration)
    else if (valueField m 0).bind valueUnsigned = some 0 then
      ((valueField m 2).bind typedRef).map (.transition ((valueField m 1).bind typedRef))
    else none

/-- What an update expects to be there. -/
def RefUpdate.expectedTarget (update : RefUpdate) : Option (ObjectKind × ObjectId) :=
  match update.expected with
  | .absent => none
  | .exact state => some (update.key.expectedKind, state.target)

/-- The record that an update points to. -/
def targetRecord (s : MemorySnapshot) (update : RefUpdate) : Option Entries :=
  (visibleObject s update.target).toOption.bind fun o => valueMap o.object.value

/-- What an update asks for. -/
def wanted (s : MemorySnapshot) (update : RefUpdate) : Announcement :=
  match update.key with
  | .line _ => .line (((targetRecord s update).map stateFields).getD [])
  | _ => .transition update.expectedTarget (update.key.expectedKind, update.target)

/-- An update matches an action: `line_action_matches` for lines,
`transition_matches` for the other keys. -/
def actionMatches (s : MemorySnapshot) (update : RefUpdate) (action : Value) : Bool :=
  match update.key with
  | .line _ => (targetRecord s update).any (lineActionMatches action)
  | _ => transitionMatches action update

/-- The updates that need an action. -/
def requested (updates : List RefUpdate) : List RefUpdate :=
  updates.filter fun update => update.key ≠ .operationHead

theorem lineActionMatches_iff {action : Value} {state : Entries} :
    lineActionMatches action state = true ↔
      announcement action = some (.line (stateFields state)) := by
  rw [lineActionMatches, announcement]
  cases valueMap action with
  | none => simp
  | some m =>
      rw [Option.bind_some]
      dsimp only
      by_cases htag : (valueField m 0).bind valueUnsigned = some 1
      · rw [if_pos htag, htag]
        cases (valueField m 3).bind valueMap with
        | none => simp
        | some declaration =>
            rw [Option.map_some, Option.some.injEq, Announcement.line.injEq]
            simp [announcedFields, stateFields, declaredFields, and_assoc]
      · have hfalse : ((valueField m 0).bind valueUnsigned == some 1) = false := by simpa using htag
        rw [hfalse, Bool.false_and, if_neg htag]
        constructor
        · intro h
          cases h
        · intro h
          split at h
          · obtain ⟨after, -, h⟩ := Option.map_eq_some_iff.mp h
            cases h
          · cases h

theorem transitionMatches_iff {action : Value} {update : RefUpdate} :
    transitionMatches action update = true ↔
      announcement action =
        some (.transition update.expectedTarget (update.key.expectedKind, update.target)) := by
  rw [transitionMatches, announcement]
  cases valueMap action with
  | none => simp
  | some m =>
      rw [Option.bind_some]
      dsimp only
      by_cases htag : (valueField m 0).bind valueUnsigned = some 0
      · have hother : ¬(valueField m 0).bind valueUnsigned = some 1 := by
          rw [htag]
          decide
        rw [if_neg hother, if_pos htag, htag]
        simp only [BEq.rfl, Bool.true_and, Bool.and_eq_true, beq_iff_eq, Option.map_eq_some_iff,
          Announcement.transition.injEq, RefUpdate.expectedTarget]
        constructor
        · rintro ⟨hbefore, hafter⟩
          exact ⟨_, hafter, hbefore, rfl⟩
        · rintro ⟨after, hafter, hbefore, rfl⟩
          exact ⟨hbefore, hafter⟩
      · have hfalse : ((valueField m 0).bind valueUnsigned == some 0) = false := by simpa using htag
        rw [hfalse, if_neg htag]
        constructor
        · intro h
          simp at h
        · intro h
          split at h
          · obtain ⟨declaration, -, h⟩ := Option.map_eq_some_iff.mp h
            cases h
          · cases h

/-! ### The loop -/

section Loop

variable {publication : Publication} {operation : StoredObject} {s : MemorySnapshot}
  {actions : List Value}

/-- The checks of an update besides its action. -/
def UpdateChecks (publication : Publication) (operation : StoredObject) (s : MemorySnapshot)
    (update : RefUpdate) : Prop :=
  match update.key with
  | .operationHead => checkOperationHead publication operation update = .ok ()
  | .line lineId => ∃ lineState, checkLineState publication s lineId update = .ok lineState
  | _ => True

theorem targetRecord_of_checkLineState {lineId : LineId} {update : RefUpdate} {state : Entries}
    (h : checkLineState publication s lineId update = .ok state) :
    targetRecord s update = some state := by
  obtain ⟨o, ho, h⟩ := Except.bind_eq_ok.mp h
  obtain ⟨m, hm, h⟩ := Except.bind_eq_ok.mp h
  obtain ⟨line, -, h⟩ := Except.bind_eq_ok.mp h
  obtain ⟨-, h⟩ := Except.ite_error_eq_ok.mp h
  obtain ⟨-, h⟩ := Except.ite_error_eq_ok.mp h
  obtain ⟨-, h⟩ := Except.bind_unit_eq_ok.mp h
  obtain rfl := Except.ok.inj h
  rw [targetRecord, ho]
  exact Except.ofOption_eq_ok.mp hm

theorem consumeAction_firstUnused {consumed consumed' : List Nat} {holds : Value → Bool} :
    consumeAction actions consumed holds = .ok consumed' ↔
      ∃ i, firstUnused actions consumed holds = some i ∧ i :: consumed = consumed' := by
  have hsame : findAction actions consumed holds = firstUnused actions consumed holds := rfl
  rw [consumeAction, hsame]
  cases firstUnused actions consumed holds <;> simp

/-- An update that needs an action and passes its checks asks for one announcement. -/
theorem actionMatches_iff {update : RefUpdate} (hkey : update.key ≠ .operationHead)
    (hchecks : UpdateChecks publication operation s update) (action : Value) :
    actionMatches s update action = true ↔ announcement action = some (wanted s update) := by
  rw [actionMatches, wanted]
  rw [UpdateChecks] at hchecks
  cases hk : update.key with
  | operationHead => exact absurd hk hkey
  | line lineId =>
      rw [hk] at hchecks
      obtain ⟨state, hstate⟩ := hchecks
      rw [targetRecord_of_checkLineState hstate]
      exact lineActionMatches_iff
  | _ =>
      dsimp only
      rw [transitionMatches_iff, hk]

/-- One pass makes the checks of the update and consumes an action when it needs one. -/
theorem validateUpdate_eq_ok {consumed consumed' : List Nat} {update : RefUpdate} :
    validateUpdate publication operation s actions consumed update = .ok consumed' ↔
      UpdateChecks publication operation s update ∧
        if update.key = .operationHead then consumed = consumed'
        else ∃ i, firstUnused actions consumed (actionMatches s update) = some i ∧
          i :: consumed = consumed' := by
  rw [validateUpdate, UpdateChecks]
  cases hk : update.key with
  | operationHead =>
      dsimp only
      rw [Except.bind_unit_eq_ok, Except.ok.injEq, if_pos rfl]
  | line lineId =>
      dsimp only
      rw [if_neg (by simp), Except.bind_eq_ok]
      constructor
      · rintro ⟨state, hstate, h⟩
        obtain ⟨i, hfirst, rfl⟩ := consumeAction_firstUnused.mp h
        refine ⟨⟨state, hstate⟩, i, ?_, rfl⟩
        have hmatch : actionMatches s update = fun action => lineActionMatches action state := by
          funext action
          rw [actionMatches, hk, targetRecord_of_checkLineState hstate]
          rfl
        rw [hmatch]
        exact hfirst
      · rintro ⟨⟨state, hstate⟩, i, hfirst, rfl⟩
        refine ⟨state, hstate, consumeAction_firstUnused.mpr ⟨i, ?_, rfl⟩⟩
        have hmatch : actionMatches s update = fun action => lineActionMatches action state := by
          funext action
          rw [actionMatches, hk, targetRecord_of_checkLineState hstate]
          rfl
        rw [← hmatch]
        exact hfirst
  | _ =>
      dsimp only
      rw [if_neg (by simp), consumeAction_firstUnused, true_and]
      have hmatch : actionMatches s update = fun action => transitionMatches action update := by
        funext action
        rw [actionMatches, hk]
      rw [hmatch]

/-- The loop is the greedy pass over the updates that need an action. -/
theorem validateUpdates_eq_ok {updates : List RefUpdate} {consumed consumed' : List Nat} :
    updates.foldlM (validateUpdate publication operation s actions) consumed = .ok consumed' ↔
      (∀ update ∈ updates, UpdateChecks publication operation s update) ∧
        greedy actions ((requested updates).map (actionMatches s)) consumed = some consumed' := by
  induction updates generalizing consumed with
  | nil => simp [requested, greedy]
  | cons update updates ih =>
      rw [List.foldlM_cons]
      simp only [Except.bind_eq_ok, validateUpdate_eq_ok, ih, List.forall_mem_cons]
      by_cases hk : update.key = .operationHead
      · have hskip : requested (update :: updates) = requested updates :=
          List.filter_cons_of_neg (by simp [hk])
        rw [hskip]
        simp only [if_pos hk]
        constructor
        · rintro ⟨next, ⟨hchecks, rfl⟩, hall, hgreedy⟩
          exact ⟨⟨hchecks, hall⟩, hgreedy⟩
        · rintro ⟨⟨hchecks, hall⟩, hgreedy⟩
          exact ⟨consumed, ⟨hchecks, rfl⟩, hall, hgreedy⟩
      · have hkeep : requested (update :: updates) = update :: requested updates :=
          List.filter_cons_of_pos (by simp [hk])
        rw [hkeep, List.map_cons, greedy, Option.bind_eq_some_iff]
        simp only [if_neg hk]
        constructor
        · rintro ⟨next, ⟨hchecks, i, hfirst, rfl⟩, hall, hgreedy⟩
          exact ⟨⟨hchecks, hall⟩, i, hfirst, hgreedy⟩
        · rintro ⟨⟨hchecks, hall⟩, i, hfirst, hgreedy⟩
          exact ⟨i :: consumed, ⟨hchecks, i, hfirst, rfl⟩, hall, hgreedy⟩

theorem validateOperation_eq_ok :
    validateOperation publication operation s = .ok () ↔
      ∃ actions, operationActions operation = .ok actions ∧
        (∀ update ∈ publication.updates, UpdateChecks publication operation s update) ∧
        ∃ consumed, greedy actions ((requested publication.updates).map (actionMatches s)) [] =
          some consumed ∧ consumed.length = actions.length := by
  rw [validateOperation]
  simp only [Except.bind_eq_ok, Except.ite_error_eq_ok, not_not, validateUpdates_eq_ok, and_true]
  refine exists_congr fun actions => and_congr_right fun _ => ?_
  constructor
  · rintro ⟨consumed, ⟨hall, hgreedy⟩, hlength⟩
    exact ⟨hall, consumed, hgreedy, hlength⟩
  · rintro ⟨hall, consumed, hgreedy, hlength⟩
    exact ⟨consumed, ⟨hall, hgreedy⟩, hlength⟩

/-- Each update that passes its checks, with the announcement it asks for. -/
theorem forall₂_wanted
    (hall : ∀ update ∈ publication.updates, UpdateChecks publication operation s update) :
    List.Forall₂ (fun holds r => ∀ action, holds action = true ↔ announcement action = some r)
      ((requested publication.updates).map (actionMatches s))
      ((requested publication.updates).map (wanted s)) := by
  rw [List.forall₂_map_left_iff, List.forall₂_map_right_iff]
  refine List.forall₂_same.mpr fun update hmem => ?_
  obtain ⟨hmem, hkey⟩ := List.mem_filter.mp hmem
  exact actionMatches_iff (by simpa using hkey) (hall update hmem)

/-- In terms of announcements: the same ones are made and asked for. -/
theorem validateOperation_iff_perm :
    validateOperation publication operation s = .ok () ↔
      ∃ actions, operationActions operation = .ok actions ∧
        (∀ update ∈ publication.updates, UpdateChecks publication operation s update) ∧
        (((requested publication.updates).map (wanted s)).map some).Perm
          (actions.map announcement) := by
  rw [validateOperation_eq_ok]
  refine exists_congr fun actions => and_congr_right fun _ => and_congr_right fun hall => ?_
  rw [greedy_iff_perm (forall₂_wanted hall) List.nodup_nil (by simp)]
  have hunused : unused actions [] = actions := by simp [unused]
  rw [hunused]

end Loop

/-! ### Assignments -/

/-- An assignment of the actions to the updates that need one: each action is
used once, for an update that it matches. -/
def Assignable (s : MemorySnapshot) (updates : List RefUpdate) (actions : List Value) : Prop :=
  ∃ f : Fin (requested updates).length ≃ Fin actions.length,
    ∀ i, actionMatches s ((requested updates).get i) (actions.get (f i)) = true

theorem assignable_iff_greedy {publication : Publication} {operation : StoredObject}
    {s : MemorySnapshot} {actions : List Value}
    (hall : ∀ update ∈ publication.updates, UpdateChecks publication operation s update) :
    (∃ consumed, greedy actions ((requested publication.updates).map (actionMatches s)) [] =
      some consumed ∧ consumed.length = actions.length) ↔
      Assignable s publication.updates actions := by
  rw [greedy_iff_bijection (forall₂_wanted hall), Assignable]
  have hlength : ((requested publication.updates).map (actionMatches s)).length =
      (requested publication.updates).length := List.length_map _
  constructor
  · rintro ⟨f, hf⟩
    refine ⟨(finCongr hlength.symm).trans f, fun i => ?_⟩
    have hi := hf (finCongr hlength.symm i)
    simpa using hi
  · rintro ⟨f, hf⟩
    refine ⟨(finCongr hlength).trans f, fun i => ?_⟩
    have hi := hf (finCongr hlength i)
    simpa using hi

/-- **The first match is as good as any.**  Beside the checks of the single
updates, an operation is accepted exactly when its actions can be assigned to
the updates, each once; so neither the order of the updates nor that of the
actions matters. -/
theorem validateOperation_iff_assignment (publication : Publication) (operation : StoredObject)
    (s : MemorySnapshot) :
    (validateOperation publication operation s = .ok () ↔
      ∃ actions, operationActions operation = .ok actions ∧
        (∀ update ∈ publication.updates, UpdateChecks publication operation s update) ∧
        Assignable s publication.updates actions) ∧
    ∀ (publication' : Publication) (operation' : StoredObject) (actions actions' : List Value),
      publication'.operation = publication.operation →
      publication'.updates.Perm publication.updates →
      operation'.references = operation.references →
      operationActions operation = .ok actions → operationActions operation' = .ok actions' →
      actions'.Perm actions →
      (validateOperation publication' operation' s = .ok () ↔
        validateOperation publication operation s = .ok ()) := by
  refine ⟨?_, ?_⟩
  · rw [validateOperation_eq_ok]
    refine exists_congr fun actions => and_congr_right fun _ => and_congr_right fun hall => ?_
    exact assignable_iff_greedy hall
  · intro publication' operation' actions actions' hid hupdates hreferences hactions hactions'
      hperm
    have hchecks : ∀ update, UpdateChecks publication' operation' s update ↔
        UpdateChecks publication operation s update := by
      intro update
      simp only [UpdateChecks, checkOperationHead, checkLineState, hid, hreferences]
    have hasked : (((requested publication'.updates).map (wanted s)).map some).Perm
        (((requested publication.updates).map (wanted s)).map some) :=
      ((hupdates.filter _).map _).map _
    simp only [validateOperation_iff_perm, hactions, hactions', Except.ok.injEq, exists_eq_left',
      hchecks, hupdates.mem_iff]
    refine and_congr_right fun _ => ?_
    rw [hasked.congr_left, (hperm.map announcement).congr_right]

section Sample

local instance actionsUnicode : Unicode := asciiUnicode

/-- The operation that publishes the sample marker, as it is stored. -/
def markStored : StoredObject :=
  ⟨markOperationId, [], ⟨.operation, 0, .map markOperation.fields⟩, []⟩

/-- Its one action goes with the one update. -/
theorem validateOperation_iff_assignment_mark :
    validateOperation (markPublication (.marker sampleStable)) markStored {} = .ok () ∧
      ∃ actions, operationActions markStored = .ok actions ∧
        Assignable {} (markPublication (.marker sampleStable)).updates actions := by
  have haccepted : validateOperation (markPublication (.marker sampleStable)) markStored {} =
      .ok () := by decide
  obtain ⟨actions, hactions, -, hassign⟩ := (validateOperation_iff_assignment
    (markPublication (.marker sampleStable)) markStored {}).1.mp haccepted
  have hagain := ((validateOperation_iff_assignment (markPublication (.marker sampleStable))
    markStored {}).2 _ markStored actions actions rfl (.refl _) rfl hactions hactions
    (.refl _)).mpr haccepted
  exact ⟨hagain, actions, hactions, hassign⟩

end Sample

end RGit
