import Tink.Fleet.Front
import Tink.Worker.Process

/-!
# A fleet of workers

The database server with any number of workers, at most one process for each worker id.  A process runs
`ProcessWorkflowActions`: it polls for contexts, takes them from the stream one after the other, and works on each.
The server looks at the workflows of a stream one after the other as well, so a context may be old by the time the
worker gets to it.  Processes crash and start again, from a fresh poll; reports are answered, or lost on the way there
or back.  A report is sent, handled and answered, or lost, in one move of a live process: no report of a process that
has ended is still on its way, and no two are handled at once.

The rounds in which the server fills a stream are those of `sendContexts`, if the tables stay as they are in between
(`serve_all`).
-/

namespace Tink.Fleet

open Machine Worker

/-- A process of a worker, with the workflows of its stream that the server has still to look at. -/
structure Process extends Worker.Process where
  pending : List String := []

structure System where
  store : Db.Store := {}
  live : Processes Process := fun _ => none

namespace Process

/-- `GetWorkflowContexts`, called when the stream before it has ended. -/
def poll (w : String) (s : Db.Store) (failure : Option String) (p : Process) : Process :=
  match p.current, p.sent, p.pending with
  | none, [], [] =>
    if w = "" then p
    else
      match Db.getWorkflowsForWorker failure s w with
      | .ok wfs => { p with pending := wfs }
      | .error _ => p
  | _, _, _ => p

/-- One round of the loop of `GetWorkflowContexts` on the server. -/
def serve (w : String) (s : Db.Store) (env : Db.StreamEnv) (p : Process) : Process :=
  match p.pending with
  | [] => p
  | wf :: wfs =>
    match Db.getWorkflowContexts (env.contextsErr wf) s wf with
    | .error _ => { p with pending := [] }
    | .ok wfContext =>
      match Db.isApplicableToSend (env.actionsErr wf) s wfContext w with
      | .panic => { p with pending := [] }
      | .error e => e.elim
      | .ok false => { p with pending := wfs }
      | .ok true =>
        match env.sendErr wf with
        | some _ => { p with pending := [] }
        | none => { p with pending := wfs, sent := p.sent ++ [wfContext] }

/-- The stream breaks, and only the next `k` contexts get through. -/
def cut (k : Nat) (p : Process) : Process := { p.toProcess.cut k with pending := [] }

/-- The process after a step of its job; an exit or a panic ends it. -/
def resume (p : Process) (y : Outcome Empty Progress) : Option Process :=
  (p.toProcess.resume y).map fun q => { q with pending := p.pending }

/-- The process takes the next context from its stream and reads the action list. -/
def receive (w : String) (s : Db.Store) (failure : Option String) (p : Process) : Option Process :=
  match p.current, p.sent with
  | none, c :: cs =>
    match Db.getWorkflowActions failure s c.workflowId with
    | .error _ => none
    | .ok actions => { p with sent := cs }.resume (processContext ⟨w, p.retries⟩ c actions)
  | _, _ => some p

/-- The workflows a process has to do with. -/
def ids (p : Process) : List String :=
  (p.current.toList.map fun j => j.wfContext.workflowId) ++ (p.sent.map WorkflowContext.workflowId ++ p.pending)

end Process

inductive Move where
  | create (reg : Db.Registry) (env : Db.CreateEnv) (template hardware : String)
  | start (w : String) (retries : Nat)
  | crash (w : String)
  | poll (w : String) (failure : Option String)
  | serve (w : String) (env : Db.StreamEnv)
  | cut (w : String) (k : Nat)
  | receive (w : String) (failure : Option String)
  | work (w : String) (i : Session.Input)

def System.onProcess (x : System) (w : String) (f : Process → Option Process) : System :=
  { x with live := x.live.onProcess w f }

/-- `CreateWorkflow`; the ids of new workflows are fresh. -/
def System.create {H : Type} (r : Template.Renderer H) (x : System) (reg : Db.Registry) (env : Db.CreateEnv)
    (template hardware : String) : System :=
  match x.store.workflowState env.id, Db.createWorkflow r reg env x.store template hardware with
  | none, .ok (s, _) => { x with store := s }
  | _, _ => x

/-- A process starts, if there is none of this worker. -/
def System.start (x : System) (w : String) (retries : Nat) : System :=
  { x with live := x.live.start w { retries := retries } }

/-- A process executes, or sends a report, which is handled and answered, or lost, before anything else happens. -/
def System.work (x : System) (w : String) (i : Session.Input) : System :=
  match x.live w with
  | none => x
  | some p =>
    match p.current with
    | none => x
    | some j =>
      let y := Session.step ⟨w, p.retries⟩ ⟨x.store, .ok (.job j)⟩ i
      { store := y.store, live := Function.update x.live w (p.resume y.worker) }

def step {H : Type} (r : Template.Renderer H) (x : System) : Move → System
  | .create reg env template hardware => x.create r reg env template hardware
  | .start w retries => x.start w retries
  | .crash w => x.onProcess w fun _ => none
  | .poll w failure => x.onProcess w fun p => some (p.poll w x.store failure)
  | .serve w env => x.onProcess w fun p => some (p.serve w x.store env)
  | .cut w k => x.onProcess w fun p => some (p.cut k)
  | .receive w failure => x.onProcess w fun p => p.receive w x.store failure
  | .work w i => x.work w i

/-- The action for which the move is a `SUCCESS` report that is acknowledged. -/
def acknowledged (x : System) : Move → Option (Pg.UUID × String × String)
  | .work w i => do
    let p ← x.live w
    let j ← p.current
    match j.phase with
    | .conclude req _ =>
      if req.actionStatus = .success ∧ (deliver i.delivery i.env x.store req).2 = true then
        (Pg.UUID.ofString? req.workflowId).map fun id => (id, req.taskName, req.actionName)
      else none
    | _ => none
  | _ => none

/-- Some process is executing the action of the given names. -/
def Executing (x : System) (id : Pg.UUID) (task action : String) : Prop :=
  ∃ w p j, x.live w = some p ∧ p.current = some j ∧ j.phase = .execute ∧
    Pg.UUID.ofString? j.wfContext.workflowId = some id ∧ j.action.taskName = task ∧ j.action.name = action

variable {H : Type} {r : Template.Renderer H} {s s' : Db.Store} {w : String} {p p' : Process} {x : System}

theorem work_eq {j : Job} (hlive : x.live w = some p) (hj : p.current = some j) (i : Session.Input) :
    x.work w i = ⟨(Session.step ⟨w, p.retries⟩ ⟨x.store, .ok (.job j)⟩ i).store, Function.update x.live w
      (p.resume (Session.step ⟨w, p.retries⟩ ⟨x.store, .ok (.job j)⟩ i).worker)⟩ := by
  unfold System.work
  simp only [hlive, hj]

theorem work_cases (w : String) (i : Session.Input) :
    x.work w i = x ∨ ∃ p j, x.live w = some p ∧ p.current = some j := by
  unfold System.work
  cases hlive : x.live w with
  | none => left; rfl
  | some p =>
    cases hj : p.current with
    | none => left; simp only [hj]
    | some j => right; exact ⟨p, j, rfl, hj⟩

theorem acknowledged_eq_some {m : Move} {id : Pg.UUID} {task action : String}
    (h : acknowledged x m = some (id, task, action)) :
    ∃ w i p j req left, m = .work w i ∧ x.live w = some p ∧ p.current = some j ∧ j.phase = .conclude req left ∧
      Pg.UUID.ofString? req.workflowId = some id ∧ req.taskName = task ∧ req.actionName = action ∧
      (deliver i.delivery i.env x.store req).2 = true := by
  cases m with
  | work w i =>
    obtain ⟨p, hlive, h⟩ := Option.bind_eq_some_iff.1 h
    obtain ⟨j, hj, h⟩ := Option.bind_eq_some_iff.1 h
    cases hph : j.phase with
    | announce left => simp [hph] at h
    | execute => simp [hph] at h
    | conclude req left =>
      simp only [hph] at h
      split at h
      · rename_i hack
        obtain ⟨id', hid, heq⟩ := Option.map_eq_some_iff.1 h
        cases heq
        exact ⟨w, i, p, j, req, left, rfl, hlive, hj, hph, hid, rfl, rfl, hack.2⟩
      · cases h
  | create | start | crash | poll | serve | cut | receive => cases h

/-! ### Streams -/

/-- If the tables stay as they are, the rounds of the loop send what `GetWorkflowContexts` sends. -/
theorem serve_all (env : Db.StreamEnv) (wfs : List String) (p : Process) (hp : p.pending = wfs) :
    ((Process.serve w s env)^[wfs.length] p) =
      { p with pending := [], sent := p.sent ++ (Db.sendContexts env s w wfs).1 } := by
  have hidle : ∀ (n : Nat) (q : Process), q.pending = [] → (Process.serve w s env)^[n] q = q := by
    intro n q hq
    refine Function.iterate_fixed ?_ n
    simp only [Process.serve, hq]
  induction wfs generalizing p with
  | nil =>
    obtain ⟨⟨retries, sent, current⟩, pending⟩ := p
    cases hp
    simp [Db.sendContexts]
  | cons wf wfs ih =>
    rw [List.length_cons, Function.iterate_succ_apply, Db.sendContexts]
    simp only [Process.serve, hp]
    cases Db.getWorkflowContexts (env.contextsErr wf) s wf with
    | error e =>
      simp only
      rw [hidle _ _ rfl]
      simp
    | ok c =>
      simp only
      cases Db.isApplicableToSend (env.actionsErr wf) s c w with
      | panic =>
        simp only
        rw [hidle _ _ rfl]
        simp
      | error e => exact e.elim
      | ok b =>
        cases b with
        | false =>
          simp only
          rw [ih _ rfl]
        | true =>
          cases env.sendErr wf with
          | some e =>
            simp only
            rw [hidle _ _ rfl]
            simp
          | none =>
            simp only
            rw [ih _ rfl]
            simp

end Tink.Fleet
