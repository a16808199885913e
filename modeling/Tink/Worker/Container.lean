import Tink.Lib.Run
import Tink.Proto

/-!
# Running the container of an action

`execute` and `executeReaction` (`cmd/tink-worker/worker/worker.go`) over a container manager, and the manager for
Docker (`cmd/tink-worker/worker/container_manager.go`).  The model is the trace of what is done, as far as it gets,
and what `execute` returns, if it does.

The removal of the container is deferred after the wait: a container that could not be started is not removed, and a
reaction creates its container, under the same name, while the first one exists (`containers_removed_iff`).  The
manager returns the state `TIMEOUT` together with the error of the context, and `execute` returns on an error before
it gets to the reactions, so that no reaction to a timeout is run (`reactions_run_iff`).
-/

namespace Tink.Worker

open Machine

/-- Something `execute` does: a call of the container manager, with what matters of its result, or of
`executeReaction`. -/
inductive Event where
  | pullImage (image : String)
  | createContainer (cmd : List String) (name : String) (id : Except String String)
  | startContainer (id : String)
  | waitForContainer (id : String)
  | executeReaction (reaction : State) (cmd : List String)
  | waitForFailedContainer (id : String)
  | removeContainer (id : String) (err : Option String)

/-- What the calls of the container manager return; a wait may take forever. -/
structure Outcomes where
  pull : Option String := none
  create : Except String String := .ok "container"
  start : Option String := none
  wait : Option (State × Option String) := some (.success, none)
  remove : Option String := none
  reactionCreate : Except String String := .ok "reaction"
  reactionWait : Option State := some .success

section

variable (o : Outcomes) (action : WorkflowAction)

/-- Errors are logged only, and a container that was not created has no id. -/
def executeReaction (reaction : State) (cmd : List String) : List Event × Option State :=
  let id := o.reactionCreate.toOption.getD ""
  ([.executeReaction reaction cmd, .createContainer cmd action.name o.reactionCreate, .waitForFailedContainer id,
    .startContainer id], o.reactionWait)

/-- The command of the reaction to a state other than success. -/
def reactionTo (st : State) : Option (List String) :=
  if st = .timeout ∧ action.onTimeout ≠ [] then some action.onTimeout
  else if action.onFailure ≠ [] then some action.onFailure
  else none

/-- The end of `execute`, when the wait has returned: the deferred removal comes last. -/
def finish (id : String) (st : State) : Option String → List Event × Option (State × Option String)
  | some e => ([.removeContainer id o.remove], some (st, some ("wait container: " ++ e)))
  | none =>
    if st = .success then ([.removeContainer id o.remove], some (st, none))
    else
      match reactionTo action st with
      | none => ([.removeContainer id o.remove], some (st, none))
      | some cmd =>
        match executeReaction o action st cmd with
        | (events, none) => (events, none)
        | (events, some _) => (events ++ [.removeContainer id o.remove], some (st, none))

/-- The events up to the wait, and those after it. -/
def execute : List Event × Option (State × Option String) :=
  let pulled : List Event := [.pullImage action.image]
  match o.pull with
  | some e => (pulled, some (.running, some ("pull image: " ++ e)))
  | none =>
    let created := pulled ++ [.createContainer action.command action.name o.create]
    match o.create with
    | .error e => (created, some (.running, some ("create container: " ++ e)))
    | .ok id =>
      let started := created ++ [.startContainer id]
      match o.start with
      | some e => (started, some (.running, some ("start container: " ++ e)))
      | none =>
        let waited := started ++ [.waitForContainer id]
        match o.wait with
        | none => (waited, none)
        | some (st, err) => (waited ++ (finish o action id st err).1, (finish o action id st err).2)

end

/-! ### The manager for Docker -/

/-- What a wait may be woken by. -/
inductive Wake where
  | exit (code : Int)
  | error (e : String)
  | done
deriving DecidableEq

/-- What becomes ready during a wait, in this order, and what the `select` receives of it. -/
structure Wait where
  order : List Wake
  receive : (h : order ≠ []) → { w // w ∈ order }

/-- What the `select` receives; it blocks if nothing ever becomes ready. -/
def Wait.received (w : Wait) : Option Wake := if h : w.order = [] then none else some (w.receive h).1

def errDeadline : String := "context deadline exceeded"

/-- `containerManager.WaitForContainer`. -/
def waitForContainer (inspectErr : Option String) (w : Wait) : Option (State × Option String) :=
  if inspectErr ≠ none then some (.failed, none)
  else w.received.map fun
    | .exit code => if code = 0 then (.success, none) else (.failed, none)
    | .error e => (.failed, some e)
    | .done => (.timeout, some errDeadline)

/-- `containerManager.WaitForFailedContainer`: what it sends. -/
def waitForFailedContainer (w : Wait) : Option State :=
  w.received.map fun
    | .exit code => if code = 0 then .success else .failed
    | .error _ => .failed
    | .done => .timeout

/-- What Docker answers during one `execute`. -/
structure Docker where
  pull : Option String := none
  create : Except String String := .ok "container"
  start : Option String := none
  inspect : Option String := none
  wait : Wait
  remove : Option String := none
  reactionCreate : Except String String := .ok "reaction"
  reactionWait : Wait

def Docker.outcomes (d : Docker) : Outcomes where
  pull := d.pull
  create := d.create.mapError ("DOCKER CREATE: " ++ ·)
  start := d.start.map ("DOCKER START: " ++ ·)
  wait := waitForContainer d.inspect d.wait
  remove := d.remove.map ("DOCKER STOP: " ++ ·)
  reactionCreate := d.reactionCreate.mapError ("DOCKER CREATE: " ++ ·)
  reactionWait := waitForFailedContainer d.reactionWait

/-! ### Containers -/

/-- The containers that exist, created during the call: their ids and names. -/
def containersAfter (containers : List (String × String)) : Event → List (String × String)
  | .createContainer _ name (.ok id) => (id, name) :: containers
  | .removeContainer id none => containers.filter fun c => c.1 ≠ id
  | _ => containers

/-- A container that is to be created has a name that none of the existing ones has. -/
def FreshName (containers : List (String × String)) : Event → Prop
  | .createContainer _ name _ => ∀ c ∈ containers, c.2 ≠ name
  | _ => True

/-- Every container that was created has been passed to `RemoveContainer`. -/
def AllRemoved (events : List Event) : Prop :=
  ∀ cmd name id, .createContainer cmd name (.ok id) ∈ events → ∃ err, .removeContainer id err ∈ events

/-- The container is created, and can not be started. -/
def Outcomes.StartFails (o : Outcomes) : Prop := o.pull = none ∧ (∃ id, o.create = .ok id) ∧ o.start ≠ none

/-- The container is started, ends without success, and the action has a reaction to that. -/
def Outcomes.Reacts (o : Outcomes) (action : WorkflowAction) : Prop :=
  o.pull = none ∧ (∃ id, o.create = .ok id) ∧ o.start = none ∧
    ∃ st, o.wait = some (st, none) ∧ st ≠ .success ∧ ((st = .timeout ∧ action.onTimeout ≠ []) ∨ action.onFailure ≠ [])

private theorem reactionTo_eq_none {action : WorkflowAction} {st : State} :
    reactionTo action st = none ↔ ¬ ((st = .timeout ∧ action.onTimeout ≠ []) ∨ action.onFailure ≠ []) := by
  unfold reactionTo
  split
  · rename_i h
    simp [h]
  · rename_i h
    split
    · rename_i hf
      simp [hf]
    · rename_i hf
      simp [h, hf]

variable {o : Outcomes} {action : WorkflowAction}

/-- When the wait returns, the container is removed, unless a reaction is run that does not return. -/
private theorem finish_quiet {id : String} {st : State} {err : Option String}
    (h : err ≠ none ∨ st = .success ∨ reactionTo action st = none) :
    (finish o action id st err).1 = [.removeContainer id o.remove] := by
  unfold finish
  cases err with
  | some e => rfl
  | none =>
    simp only
    split
    · rfl
    · rename_i hst
      have hnone : reactionTo action st = none := by simpa [hst] using h
      rw [hnone]

private theorem finish_reaction (o : Outcomes) (id : String) {st : State} {cmd : List String} (hst : st ≠ .success)
    (hcmd : reactionTo action st = some cmd) :
    ∃ rest, (finish o action id st none).1 =
      .executeReaction st cmd :: .createContainer cmd action.name o.reactionCreate :: rest := by
  simp only [finish, hst, if_false, hcmd, executeReaction]
  cases o.reactionWait with
  | none => exact ⟨_, rfl⟩
  | some st' => exact ⟨_, rfl⟩

/-- Once the container is started, what happens is the wait and what follows it. -/
private theorem execute_started {id : String} (hpull : o.pull = none) (hcreate : o.create = .ok id)
    (hstart : o.start = none) {st : State} {err : Option String} (hwait : o.wait = some (st, err)) :
    execute o action =
      ([.pullImage action.image, .createContainer action.command action.name (.ok id), .startContainer id,
        .waitForContainer id] ++ (finish o action id st err).1, (finish o action id st err).2) := by
  simp only [execute, hpull, hcreate, hstart, hwait]
  rfl

/-- The containers created are removed, and no name is used twice at a time, exactly if no container fails to start
and no reaction is run. -/
theorem containers_removed_iff (o : Outcomes) (action : WorkflowAction) :
    (((execute o action).2 ≠ none → AllRemoved (execute o action).1) ∧
      Every containersAfter FreshName [] (execute o action).1) ↔ ¬ o.StartFails ∧ ¬ o.Reacts action := by
  cases hpull : o.pull with
  | some e => simp [execute, hpull, AllRemoved, FreshName, Outcomes.StartFails, Outcomes.Reacts]
  | none =>
    cases hcreate : o.create with
    | error e =>
      simp [execute, hpull, hcreate, AllRemoved, FreshName, containersAfter, Outcomes.StartFails, Outcomes.Reacts]
    | ok id =>
      cases hstart : o.start with
      | some e =>
        have hleft : ¬ AllRemoved (execute o action).1 := by
          intro h
          obtain ⟨err, herr⟩ := h action.command action.name id (by simp [execute, hpull, hcreate, hstart])
          simp [execute, hpull, hcreate, hstart] at herr
        have hreturns : (execute o action).2 ≠ none := by simp [execute, hpull, hcreate, hstart]
        refine iff_of_false (fun h => hleft (h.1 hreturns)) ?_
        rintro ⟨hstarts, -⟩
        exact hstarts ⟨hpull, ⟨id, hcreate⟩, by simp [hstart]⟩
      | none =>
        have hstarts : ¬ o.StartFails := fun h => h.2.2 hstart
        cases hwait : o.wait with
        | none =>
          simp [execute, hpull, hcreate, hstart, hwait, FreshName, containersAfter, hstarts, Outcomes.Reacts]
        | some p =>
          obtain ⟨st, err⟩ := p
          rw [execute_started hpull hcreate hstart hwait]
          by_cases hquiet : err ≠ none ∨ st = .success ∨ reactionTo action st = none
          · have hreacts : ¬ o.Reacts action := by
              rintro ⟨-, -, -, st', hst', hne, hcmd⟩
              rw [hwait] at hst'
              cases hst'
              rcases hquiet with herr | hsuccess | hnone
              · exact herr rfl
              · exact hne hsuccess
              · exact reactionTo_eq_none.1 hnone hcmd
            rw [finish_quiet hquiet]
            simp [AllRemoved, FreshName, containersAfter, hstarts, hreacts]
          · -- the container of the reaction is created while the first one exists
            obtain ⟨herr, hne, hcmd⟩ : err = none ∧ st ≠ .success ∧ reactionTo action st ≠ none := by
              simpa [not_or] using hquiet
            subst herr
            obtain ⟨cmd, hcmd'⟩ := Option.ne_none_iff_exists'.1 hcmd
            obtain ⟨rest, hrest⟩ := finish_reaction o id hne hcmd'
            have hreacts : o.Reacts action := by
              refine ⟨hpull, ⟨id, hcreate⟩, hstart, st, hwait, hne, ?_⟩
              by_contra hno
              exact hcmd (reactionTo_eq_none.2 hno)
            rw [hrest]
            simp [FreshName, containersAfter, hreacts]

/-- A container that can not be started is left behind, and the container of a reaction is created under the name of
one that exists. -/
theorem containers_left :
    let action : WorkflowAction := { taskName := "os", name := "stream", onFailure := ["reboot"], workerId := "w" }
    ((execute { start := some "DOCKER START: no such device" } action).2 ≠ none ∧
      ¬ AllRemoved (execute { start := some "DOCKER START: no such device" } action).1) ∧
      ¬ Every containersAfter FreshName [] (execute { wait := some (.failed, none) } action).1 := by
  refine ⟨⟨by simp [execute], ?_⟩, ?_⟩
  · intro h
    obtain ⟨err, herr⟩ := h [] "stream" "container" (by simp [execute])
    simp [execute] at herr
  · simp [execute, finish, reactionTo, executeReaction, FreshName, containersAfter]

/-! ### Reactions -/

/-- The commands of the reactions that are run. -/
def reactions (events : List Event) : List (List String) :=
  events.filterMap fun
    | .executeReaction _ cmd => some cmd
    | _ => none

/-- The container is created and started. -/
def Docker.Started (d : Docker) : Prop := d.pull = none ∧ (∃ id, d.create = .ok id) ∧ d.start = none

/-- The deadline passes before the container exits. -/
def Wait.DeadlinePasses (w : Wait) : Prop := .done ∈ w.order.takeWhile fun
  | .exit _ => false
  | _ => true

/-- The container exits with a code other than 0. -/
def Wait.Fails (w : Wait) : Prop := ∃ code, code ≠ 0 ∧ .exit code ∈ w.order

/-- With the manager for Docker a timeout comes with an error. -/
private theorem waitForContainer_quiet {inspectErr : Option String} {w : Wait} {st : State}
    (h : waitForContainer inspectErr w = some (st, none)) : st = .success ∨ st = .failed := by
  unfold waitForContainer at h
  split at h
  · cases h
    exact Or.inr rfl
  · obtain ⟨wake, -, hwake⟩ := Option.map_eq_some_iff.1 h
    cases wake with
    | exit code =>
      simp only at hwake
      split at hwake
      · cases hwake
        exact Or.inl rfl
      · cases hwake
        exact Or.inr rfl
    | error e => cases hwake
    | done => cases hwake

/-- A failure without an error is one to inspect the container, or the code it exits with. -/
private theorem waitForContainer_failed {inspectErr : Option String} {w : Wait} :
    waitForContainer inspectErr w = some (.failed, none) ↔
      inspectErr ≠ none ∨ ∃ code, code ≠ 0 ∧ w.received = some (.exit code) := by
  unfold waitForContainer
  cases inspectErr with
  | some e => simp
  | none =>
    cases w.received with
    | none => simp
    | some wake =>
      cases wake with
      | exit code =>
        by_cases hcode : code = 0
        · simp [hcode]
        · simp [hcode]
      | error e => simp
      | done => simp

private theorem Docker.Started.outcomes {d : Docker} (h : d.Started) :
    ∃ id, d.outcomes.pull = none ∧ d.outcomes.create = .ok id ∧ d.outcomes.start = none := by
  obtain ⟨hpull, ⟨id, hcreate⟩, hstart⟩ := h
  refine ⟨id, hpull, ?_, ?_⟩
  · simp [Docker.outcomes, hcreate, Except.mapError]
  · simp [Docker.outcomes, hstart]

/-- The state returned is the one of the wait. -/
private theorem finish_state {id : String} {st st' : State} {err : Option String}
    (h : (finish o action id st none).2 = some (st', err)) : st' = st := by
  cases hr : o.reactionWait with
  | none =>
    simp only [finish, executeReaction, hr] at h
    split at h
    · cases h
      rfl
    · split at h
      · cases h
        rfl
      · cases h
  | some rst =>
    simp only [finish, executeReaction, hr] at h
    split at h
    · cases h
      rfl
    · split at h
      · cases h
        rfl
      · cases h
        rfl

/-- A container that is started leads to the reaction to the state the wait returns, unless it returns an error. -/
private theorem reactions_execute {d : Docker} (hstarted : d.Started) :
    reactions (execute d.outcomes action).1 =
      match waitForContainer d.inspect d.wait with
      | some (st, none) => if st = .success then [] else (reactionTo action st).toList
      | _ => [] := by
  obtain ⟨id, hpull, hcreate, hstart⟩ := hstarted.outcomes
  have hwait : d.outcomes.wait = waitForContainer d.inspect d.wait := rfl
  cases h : waitForContainer d.inspect d.wait with
  | none => simp [execute, hpull, hcreate, hstart, hwait, h, reactions]
  | some p =>
    obtain ⟨st, err⟩ := p
    rw [execute_started hpull hcreate hstart (hwait.trans h)]
    cases err with
    | some e =>
      rw [finish_quiet (Or.inl (by simp))]
      simp [reactions]
    | none =>
      by_cases hst : st = .success
      · rw [finish_quiet (Or.inr (Or.inl hst))]
        simp [reactions, hst]
      · cases hcmd : reactionTo action st with
        | none =>
          rw [finish_quiet (Or.inr (Or.inr hcmd))]
          simp [reactions, hst, hcmd]
        | some cmd =>
          simp only [finish, hst, if_false, hcmd, executeReaction]
          cases d.outcomes.reactionWait <;> simp [reactions]

/-- Where `TIMEOUT` is returned, no reaction has been run. -/
private theorem no_reaction_of_timeout {d : Docker} (hstarted : d.Started) {err : Option String}
    (h : (execute d.outcomes action).2 = some (.timeout, err)) : reactions (execute d.outcomes action).1 = [] := by
  rw [reactions_execute hstarted]
  obtain ⟨id, hpull, hcreate, hstart⟩ := hstarted.outcomes
  cases hw : waitForContainer d.inspect d.wait with
  | none => rfl
  | some p =>
    obtain ⟨st, err'⟩ := p
    cases err' with
    | some e => rfl
    | none =>
      rw [execute_started hpull hcreate hstart hw] at h
      have hst := finish_state h
      subst hst
      rcases waitForContainer_quiet hw with hst | hst
      · cases hst
      · cases hst

private theorem reactions_eq_onFailure {d : Docker} (hstarted : d.Started) (hcmd : action.onFailure ≠ []) :
    reactions (execute d.outcomes action).1 = [action.onFailure] ↔
      d.inspect ≠ none ∨ ∃ code, code ≠ 0 ∧ d.wait.received = some (.exit code) := by
  rw [reactions_execute hstarted, ← waitForContainer_failed]
  cases hw : waitForContainer d.inspect d.wait with
  | none => simp
  | some p =>
    obtain ⟨st, err⟩ := p
    cases err with
    | some e => simp
    | none =>
      rcases waitForContainer_quiet hw with rfl | rfl
      · simp
      · simp [reactionTo, hcmd]

/-- The reactions to a timeout and to a failure are run as they should: whenever the deadline passes while the
container runs, `TIMEOUT` is reported and the one is run, and whenever it exits with another code than 0 the other is
run, exactly if the action has no reaction to a timeout that passes, and the wait receives the failure, or the
container can not be inspected. -/
theorem reactions_run_iff (d : Docker) (action : WorkflowAction) :
    ((action.onTimeout ≠ [] → d.Started → d.wait.DeadlinePasses →
        (∃ err, (execute d.outcomes action).2 = some (.timeout, err)) ∧
          reactions (execute d.outcomes action).1 = [action.onTimeout]) ∧
      (action.onFailure ≠ [] → d.Started → d.wait.Fails →
        reactions (execute d.outcomes action).1 = [action.onFailure])) ↔
      (action.onTimeout ≠ [] → d.Started → ¬ d.wait.DeadlinePasses) ∧
        (action.onFailure ≠ [] → d.Started → d.wait.Fails →
          d.inspect ≠ none ∨ ∃ code, code ≠ 0 ∧ d.wait.received = some (.exit code)) := by
  refine and_congr ?_ ?_
  · refine forall₃_congr fun _ hstarted _ => ?_
    refine iff_of_false ?_ id
    rintro ⟨⟨err, herr⟩, hreact⟩
    rw [no_reaction_of_timeout hstarted herr] at hreact
    cases hreact
  · exact forall₃_congr fun hcmd hstarted _ => reactions_eq_onFailure hstarted hcmd

/-- The deadline of an action passes, and its reaction is not run; and a failure that comes together with the deadline
may not be noticed. -/
theorem timeout_without_reaction :
    let action : WorkflowAction :=
      { taskName := "os", name := "stream", onTimeout := ["reboot"], onFailure := ["rescue"], workerId := "w" }
    let late : Docker := { wait := ⟨[.done], fun _ => ⟨.done, by simp⟩⟩, reactionWait := ⟨[], nofun⟩ }
    let both : Docker := { wait := ⟨[.exit 1, .done], fun _ => ⟨.done, by simp⟩⟩, reactionWait := ⟨[], nofun⟩ }
    late.Started ∧ late.wait.DeadlinePasses ∧
      (execute late.outcomes action).2 = some (.timeout, some "wait container: context deadline exceeded") ∧
      reactions (execute late.outcomes action).1 = [] ∧
      both.Started ∧ both.wait.Fails ∧ reactions (execute both.outcomes action).1 = [] := by
  refine ⟨⟨rfl, ⟨_, rfl⟩, rfl⟩, ?_, ?_, ?_, ⟨rfl, ⟨_, rfl⟩, rfl⟩, ⟨1, by decide, by simp⟩, ?_⟩
  · simp [Wait.DeadlinePasses]
  · decide +kernel
  · rfl
  · rfl

end Tink.Worker
