import Tink.Db.Data

/-!
# Concurrent updates of workflow data

Any number of calls of `UpdateWorkflowData` on one workflow.  `InsertIntoWfDataTable` counts the rows in a query of
its own and inserts the version in a transaction, so a call takes two steps, and the steps of the calls may come in
any order; each may fail.

A call that has counted is overtaken when the transaction of another one commits.  The versions are those from 1 on,
one row each, as long as no call that was overtaken commits (`versions_unique_iff`).
-/

namespace Tink.Db

open Pg Machine

/-- How far a call is: once it has counted, with the version it is going to insert and whether another transaction has
committed since. -/
inductive CallStage where
  | fresh
  | counted (version : Int) (overtaken : Bool)
  | acknowledged
  | failed
deriving DecidableEq

def CallStage.overtake : CallStage → CallStage
  | counted version _ => counted version true
  | stage => stage

/-- The table, the calls, and the calls acknowledged so far. -/
structure Writers where
  rows : List DataRow
  stage : Nat → CallStage := fun _ => .fresh
  acknowledged : List Nat := []

/-- A step of a call: its count, or its transaction. -/
inductive WriterMove where
  | count (call : Nat) (failure : Option String := none)
  | commit (call : Nat) (failure : Option String := none)

section

variable (jsonb : String → Except String String) (maxVersions : Int) (req : Nat → UpdateWorkflowDataRequest)

def Writers.step (s : Writers) : WriterMove → Writers
  | .count i failure =>
    match s.stage i with
    | .fresh =>
      match getLatestVersionWfData failure s.rows (req i).workflowId with
      | .ok version => { s with stage := Function.update s.stage i (.counted (int32 (version + 1)) false) }
      | .error _ => { s with stage := Function.update s.stage i .failed }
    | _ => s
  | .commit i failure =>
    match s.stage i with
    | .counted version _ =>
      match insertVersion jsonb maxVersions failure s.rows (req i) version with
      | .ok rows =>
        { rows := rows
          stage := Function.update (fun j => (s.stage j).overtake) i .acknowledged
          acknowledged := s.acknowledged ++ [i] }
      | .error _ => { s with stage := Function.update s.stage i .failed }
    | _ => s

end

/-- The numbers from 1 to `n`. -/
def upTo (n : Nat) : List Int := (List.range n).map fun k : Nat => (k : Int) + 1

/-- With `n` calls acknowledged, the workflow has the versions from 1 to `n`, one row each. -/
def Writers.Numbered (id : UUID) (s : Writers) : Prop :=
  ((rowsOf id s.rows).map DataRow.version).Perm (upTo s.acknowledged.length)

/-- A transaction that takes effect is one of a call that was not overtaken, and the version fits. -/
def Writers.InTurn (jsonb : String → Except String String) (req : Nat → UpdateWorkflowDataRequest) (s : Writers) :
    WriterMove → Prop
  | .count _ _ => True
  | .commit i failure => failure = none → (∃ columns, dataColumns jsonb (req i) = .ok columns) →
      ∀ version overtaken, s.stage i = .counted version overtaken →
        overtaken = false ∧ s.acknowledged.length + 1 < 2 ^ 31

variable {jsonb : String → Except String String} {maxVersions : Int} {req : Nat → UpdateWorkflowDataRequest}
  {id : UUID} {s : Writers}

/-! ### What a step can do -/

private theorem upTo_succ (n : Nat) : upTo (n + 1) = upTo n ++ [(n : Int) + 1] := by
  rw [upTo, List.range_succ, List.map_append]
  rfl

private theorem versions_withVersion (version : Int) (e : String × String) (rows : List DataRow) :
    (withVersion id maxVersions version e rows).map DataRow.version = rows.map DataRow.version ++ [version] := by
  have hclear : ∀ v rows, (clearVersion id v rows).map DataRow.version = rows.map DataRow.version := by
    intro v rows
    rw [clearVersion, List.map_map]
    refine List.map_congr_left fun row _ => ?_
    rw [Function.comp_apply]
    split <;> rfl
  unfold withVersion
  split
  · rw [hclear, List.map_append]; rfl
  · rw [List.map_append]; rfl

/-- A transaction adds its version to those of the workflow. -/
private theorem versions_insertVersion {i : Nat} {failure : Option String} {version : Int} {t rows : List DataRow}
    (hid : UUID.ofString? (req i).workflowId = some id)
    (h : insertVersion jsonb maxVersions failure t (req i) version = .ok rows) :
    failure = none ∧ (∃ columns, dataColumns jsonb (req i) = .ok columns) ∧
      (rowsOf id rows).map DataRow.version = (rowsOf id t).map DataRow.version ++ [version] := by
  obtain ⟨rfl, id', e, hcols, hrows⟩ := insertVersion_eq_ok h
  have hid' : id' = id := by
    have hu := dataColumns_uuid hcols
    rw [hid] at hu
    exact (Option.some.inj hu).symm
  exact ⟨rfl, ⟨_, hcols⟩, by rw [hrows, if_pos hid', versions_withVersion]⟩

/-- A step is the failure of a call, a count, or a transaction that takes effect; or it is none at all. -/
private theorem Writers.step_cases (jsonb : String → Except String String) (maxVersions : Int)
    (hid : ∀ i, UUID.ofString? (req i).workflowId = some id) (s : Writers) (m : WriterMove) :
    s.step jsonb maxVersions req m = s ∨
    (∃ i, s.step jsonb maxVersions req m = { s with stage := Function.update s.stage i .failed }) ∨
    (∃ i, m = .count i ∧ (rowsOf id s.rows).length < 2 ^ 31 ∧ s.step jsonb maxVersions req m =
      { s with stage := Function.update s.stage i (.counted (int32 ((rowsOf id s.rows).length + 1)) false) }) ∨
    (∃ i version overtaken, m = .commit i ∧ s.stage i = .counted version overtaken ∧
      (∃ columns, dataColumns jsonb (req i) = .ok columns) ∧
      ((rowsOf id (s.step jsonb maxVersions req m).rows).map DataRow.version =
        (rowsOf id s.rows).map DataRow.version ++ [version]) ∧
      (s.step jsonb maxVersions req m).stage = Function.update (fun j => (s.stage j).overtake) i .acknowledged ∧
      (s.step jsonb maxVersions req m).acknowledged = s.acknowledged ++ [i]) := by
  cases m with
  | count i failure =>
    rw [Writers.step]
    split
    · cases hcount : getLatestVersionWfData failure s.rows (req i).workflowId with
      | error e => exact .inr (.inl ⟨i, rfl⟩)
      | ok version =>
        obtain ⟨rfl, hlt, rfl⟩ := (getLatestVersionWfData_eq_ok (hid i)).1 hcount
        exact .inr (.inr (.inl ⟨i, rfl, hlt, rfl⟩))
    · exact .inl rfl
  | commit i failure =>
    rw [Writers.step]
    split
    · rename_i version overtaken hstage
      cases hins : insertVersion jsonb maxVersions failure s.rows (req i) version with
      | error e => exact .inr (.inl ⟨i, rfl⟩)
      | ok rows =>
        obtain ⟨rfl, hcols, hrows⟩ := versions_insertVersion (hid i) hins
        exact .inr (.inr (.inr ⟨i, version, overtaken, rfl, hstage, hcols, hrows, rfl, rfl⟩))
    · exact .inl rfl

/-! ### Which runs number the versions -/

/-- In a state reached so far a call that has counted has counted `m` rows, all of them exactly if it was not
overtaken. -/
structure Writers.Inv (id : UUID) (s : Writers) : Prop where
  numbered : s.Numbered id
  counted : ∀ i version overtaken, s.stage i = .counted version overtaken →
    ∃ m : Nat, version = int32 ((m : Int) + 1) ∧ m < 2 ^ 31 ∧ m ≤ s.acknowledged.length ∧
      (overtaken = false ↔ m = s.acknowledged.length)

private theorem Writers.Inv.length (h : s.Inv id) : (rowsOf id s.rows).length = s.acknowledged.length := by
  have hlen := h.numbered.length_eq
  rwa [List.length_map, upTo, List.length_map, List.length_range] at hlen

/-- A row more keeps the versions numbered exactly if it has the next number. -/
private theorem numbered_concat {versions : List Int} {n : Nat} {version : Int} (h : versions.Perm (upTo n)) :
    (versions ++ [version]).Perm (upTo (n + 1)) ↔ version = (n : Int) + 1 := by
  rw [upTo_succ]
  constructor
  · intro hperm
    have hlast : [version].Perm [(n : Int) + 1] :=
      (List.perm_append_left_iff (upTo n)).1 ((h.append_right [version]).symm.trans hperm)
    exact List.singleton_perm_singleton.1 hlast
  · rintro rfl
    exact h.append_right _

/-- The version of a call that has counted `m` rows is the next one exactly if there are no more, and it fits. -/
private theorem int32_eq_next {m n : Nat} (hm : m < 2 ^ 31) (hle : m ≤ n) :
    int32 ((m : Int) + 1) = (n : Int) + 1 ↔ m = n ∧ n + 1 < 2 ^ 31 := by
  rw [int32, Int.bmod_def]
  split <;> omega

/-- A stage other than the one of call `i` after a step that sets the stage of call `i`. -/
private theorem counted_of_update {stage : Nat → CallStage} {i j : Nat} {x : CallStage} {version : Int}
    {overtaken : Bool} (hx : ∀ v o, x ≠ .counted v o) (h : Function.update stage i x j = .counted version overtaken) :
    stage j = .counted version overtaken := by
  by_cases hj : j = i
  · subst hj
    rw [Function.update_self] at h
    exact absurd h (hx _ _)
  · rwa [Function.update_of_ne hj] at h

theorem Writers.Inv.step (hid : ∀ i, UUID.ofString? (req i).workflowId = some id) (h : s.Inv id) {m : WriterMove}
    (hm : s.InTurn jsonb req m) : (s.step jsonb maxVersions req m).Inv id := by
  rcases Writers.step_cases jsonb maxVersions hid s m with
    heq | ⟨i, heq⟩ | ⟨i, -, hlt, heq⟩ | ⟨i, version, overtaken, rfl, hstage, hcols, hrows, hstages, hack⟩
  · rw [heq]; exact h
  · rw [heq]
    exact ⟨h.numbered, fun j v o hj => h.counted j v o (counted_of_update (by simp) hj)⟩
  · rw [heq]
    rw [h.length] at hlt
    refine ⟨h.numbered, fun j v o hj => ?_⟩
    have hj' : Function.update s.stage i (.counted (int32 ((rowsOf id s.rows).length + 1)) false) j = .counted v o :=
      hj
    by_cases hji : j = i
    · rw [hji, Function.update_self, h.length, CallStage.counted.injEq] at hj'
      exact ⟨s.acknowledged.length, hj'.1.symm, hlt, le_rfl, by simp [hj'.2]⟩
    · rw [Function.update_of_ne hji] at hj'
      exact h.counted j v o hj'
  · have hturn : overtaken = false ∧ s.acknowledged.length + 1 < 2 ^ 31 := hm rfl hcols version overtaken hstage
    obtain ⟨n, hversion, hn, hle, hall⟩ := h.counted i _ _ hstage
    have hlen : (s.step jsonb maxVersions req (.commit i)).acknowledged.length = s.acknowledged.length + 1 := by
      rw [hack, List.length_append]; rfl
    refine ⟨?_, fun j v o hj => ?_⟩
    · rw [Writers.Numbered, hrows, hlen, numbered_concat h.numbered]
      rw [hversion, int32_eq_next hn hle]
      exact ⟨hall.1 hturn.1, hturn.2⟩
    · -- a call that had counted is overtaken
      rw [hstages] at hj
      have hj' : (s.stage j).overtake = .counted v o := counted_of_update (by simp) hj
      cases hs : s.stage j with
      | counted v' o' =>
        rw [hs] at hj'
        cases hj'
        obtain ⟨m, hv, hm, hle', -⟩ := h.counted j _ _ hs
        refine ⟨m, hv, hm, by omega, ?_⟩
        rw [hlen]
        simp
        omega
      | fresh => rw [hs] at hj'; cases hj'
      | acknowledged => rw [hs] at hj'; cases hj'
      | failed => rw [hs] at hj'; cases hj'

/-- A step that keeps the versions numbered is in turn. -/
private theorem Writers.Inv.inTurn (hid : ∀ i, UUID.ofString? (req i).workflowId = some id) (h : s.Inv id)
    {m : WriterMove} (hm : (s.step jsonb maxVersions req m).Numbered id) : s.InTurn jsonb req m := by
  cases m with
  | count i failure => trivial
  | commit i failure =>
    rintro rfl ⟨columns, hcols⟩ version overtaken hstage
    obtain ⟨rows, hins⟩ := insertVersion_ok maxVersions hcols s.rows version
    obtain ⟨-, -, hrows⟩ := versions_insertVersion (hid i) hins
    obtain ⟨n, hversion, hn, hle, hall⟩ := h.counted i _ _ hstage
    have hnumbered : ((rowsOf id rows).map DataRow.version).Perm (upTo (s.acknowledged.length + 1)) := by
      rw [Writers.Numbered, Writers.step, hstage] at hm
      simp only [hins, List.length_append] at hm
      exact hm
    rw [hrows, numbered_concat h.numbered, hversion, int32_eq_next hn hle] at hnumbered
    exact ⟨hall.2 hnumbered.1, hnumbered.2⟩

/-- In any interleaving of calls on a workflow without data, the versions are at all times those from 1 to the number
of acknowledged calls, one row each, exactly if every transaction that takes effect is one of a call that was not
overtaken since it counted, and the number of rows stays below `2 ^ 31`. -/
theorem versions_unique_iff (jsonb : String → Except String String) (maxVersions : Int)
    (req : Nat → UpdateWorkflowDataRequest) (id : UUID) (hid : ∀ i, UUID.ofString? (req i).workflowId = some id)
    (t : List DataRow) (h0 : ∀ row ∈ t, row.workflowId ≠ id) (ms : List WriterMove) :
    Always (Writers.step jsonb maxVersions req) (Writers.Numbered id) { rows := t } ms ↔
      Every (Writers.step jsonb maxVersions req) (Writers.InTurn jsonb req) { rows := t } ms := by
  have hinit : Writers.Inv id { rows := t } := by
    refine ⟨?_, fun i v o hi => by cases hi⟩
    rw [Writers.Numbered, rowsOf_eq_nil h0]
    exact List.Perm.refl _
  exact always_iff_every hinit (fun s hs => hs.numbered) (fun s m hs hm => hs.step hid hm)
    fun s m hs hm => hs.inTurn hid hm

theorem versions_unique_in_turn :
    let req : Nat → UpdateWorkflowDataRequest := fun _ => ⟨sampleID.toString, "meta", "data"⟩
    Always (Writers.step .ok 3 req) (Writers.Numbered sampleID) { rows := [] }
      [.count 0, .commit 0, .count 1, .commit 1] := by
  intro req
  refine (versions_unique_iff .ok 3 req sampleID (fun _ => UUID.ofString?_toString sampleID) [] (by simp) _).2 ?_
  simp only [every_cons, every_nil, and_true]
  refine ⟨trivial, fun _ _ version overtaken h => ?_, trivial, fun _ _ version overtaken h => ?_⟩
  · have hstage : (Writers.step .ok 3 req { rows := [] } (.count 0)).stage 0 = .counted 1 false := by decide +kernel
    rw [hstage] at h
    cases h
    exact ⟨rfl, by decide +kernel⟩
  · have hstage : (run (Writers.step .ok 3 req) { rows := [] } [.count 0, .commit 0, .count 1]).stage 1 =
        .counted 2 false := by decide +kernel
    have h' := hstage.symm.trans h
    cases h'
    exact ⟨rfl, by decide +kernel⟩

/-- Two calls that count before either commits both insert version 1, and both are acknowledged. -/
theorem counted_twice_same_version :
    let req : Nat → UpdateWorkflowDataRequest := fun _ => ⟨sampleID.toString, "meta", "data"⟩
    let s := run (Writers.step .ok 3 req) { rows := [] } [.count 0, .count 1, .commit 0, .commit 1]
    s.acknowledged = [0, 1] ∧ (rowsOf sampleID s.rows).map DataRow.version = [1, 1] ∧
      selectVersion s.rows sampleID 2 = none ∧ ¬ s.Numbered sampleID := by
  intro req s
  have hack : s.acknowledged = [0, 1] := by decide +kernel
  have hversions : (rowsOf sampleID s.rows).map DataRow.version = [1, 1] := by decide +kernel
  refine ⟨hack, hversions, by decide +kernel, ?_⟩
  rw [Writers.Numbered, hversions, hack]
  decide

end Tink.Db
