import Mathlib.Data.List.AList
import Tink.Lib.Chan
import Tink.Lib.Run

/-!
# The watch registry

`DeprecatedWatch` of `server/dbserver_hardware.go` registers a channel for a hardware id and evicts the watcher that
was there by closing its channel; `Push` and `Delete` send to the channel that is registered.  A stream that returns
for any other reason than its eviction runs a deferred clean-up: it deletes the entry of its id, whosever it is, and
closes its channel.

The machine takes one critical section of `watchLock`, one `select` or one `close` at a time, in any order: streams
are numbered as they register, and channel `k` is the one stream `k` has made.  A panic ends the process.
-/

namespace Tink.Db.Watch

open Machine

/-- Where a stream is: in the `select`, returned with `disconnect` still true and before the deferred clean-up,
between the `delete` and the `close` of the clean-up, or gone. -/
inductive Position where
  | watching
  | leaving (err : Option String)
  | closing (err : Option String)
  | returned (err : Option String)
deriving DecidableEq

/-- A call of `DeprecatedWatch` that has registered. -/
structure Stream where
  id : String
  ch : Chan String := {}
  /-- The client has gone: the context of the stream is done. -/
  done : Bool := false
  position : Position := .watching
deriving DecidableEq

/-- The part of `DBServer` that the watchers share. -/
structure Registry where
  watch : AList fun _ : String => Nat := ∅
  streams : List Stream := []
  quit : Bool := false

/-- A case of the `select`; for a value received, the error of `stream.Send`. -/
inductive Case where
  | quit
  | done
  | receive (sendErr : Option String)

inductive Event where
  /-- The first critical section of `DeprecatedWatch`. -/
  | register (id : String)
  /-- The client of a stream disconnects. -/
  | disconnect (k : Nat)
  /-- The server shuts down. -/
  | shutdown
  | select (k : Nat) (case : Case)
  /-- The critical section of the clean-up. -/
  | unregister (k : Nat)
  /-- The end of the clean-up. -/
  | close (k : Nat)
  /-- The notification of a `Push`, with the record as text. -/
  | push (id data : String)
  /-- The notification of a `Delete`. -/
  | delete (id : String)

/-- An operation on channel `k`. -/
def Registry.onChan (s : Registry) (k : Nat) (op : Chan String → Outcome Empty (Chan String)) :
    Outcome Empty Registry :=
  match s.streams[k]? with
  | none => .ok s
  | some stream => do
    let ch ← op stream.ch
    pure { s with streams := s.streams.set k { stream with ch := ch } }

/-- A fresh channel for the id, and the stream that goes with it. -/
def Registry.enter (s : Registry) (id : String) : Registry :=
  { s with watch := s.watch.insert id s.streams.length, streams := s.streams ++ [{ id := id }] }

/-- Closes the channel that is registered for the id. -/
def Registry.evict (s : Registry) (id : String) : Outcome Empty Registry :=
  match s.watch.lookup id with
  | some old => s.onChan old Chan.close
  | none => .ok s

/-- The beginning of `DeprecatedWatch`. -/
def Registry.deprecatedWatch (s : Registry) (id : String) : Outcome Empty Registry := do
  let s ← s.evict id
  pure (s.enter id)

/-- What `Push` and `Delete` do under the read lock; with an empty id they do not get there. -/
def Registry.notify (s : Registry) (id text : String) : Outcome Empty Registry :=
  if id = "" then .ok s
  else
    match s.watch.lookup id with
    | some k => s.onChan k (Chan.trySend 1 text)
    | none => .ok s

section

-- the error of `json.Unmarshal`, if any
variable (unmarshal : String → Option String)

/-- One turn of the `for`; a case that is not ready is not taken. -/
def Stream.select (quit : Bool) (stream : Stream) : Case → Stream
  -- `status.Error` of `codes.OK` is nil
  | .quit => if quit then { stream with position := .leaving none } else stream
  | .done => if stream.done then { stream with position := .leaving none } else stream
  | .receive sendErr =>
    match stream.ch.receive? with
    | none => stream
    | some (none, _) => { stream with position := .returned (some "evicted") }
    | some (some j, ch) =>
      match unmarshal j, sendErr with
      | some err, _ => { stream with ch := ch, position := .leaving (some err) }
      | none, some err => { stream with ch := ch, position := .leaving (some ("stream send: " ++ err)) }
      | none, none => { stream with ch := ch }

/-- A step of the registry.  A stream that is somewhere else than the event says does nothing. -/
def Registry.step (s : Registry) : Event → Outcome Empty Registry
  | .register id => s.deprecatedWatch id
  | .disconnect k =>
    match s.streams[k]? with
    | some stream => .ok { s with streams := s.streams.set k { stream with done := true } }
    | none => .ok s
  | .shutdown => .ok { s with quit := true }
  | .select k case =>
    match s.streams[k]? with
    | some stream =>
      if stream.position = .watching then
        .ok { s with streams := s.streams.set k (stream.select unmarshal s.quit case) }
      else .ok s
    | none => .ok s
  | .unregister k =>
    match s.streams[k]? with
    | some stream =>
      match stream.position with
      | .leaving err =>
        .ok { s with
          watch := s.watch.erase stream.id
          streams := s.streams.set k { stream with position := .closing err } }
      | _ => .ok s
    | none => .ok s
  | .close k =>
    match s.streams[k]? with
    | some stream =>
      match stream.position with
      | .closing err => do
        let ch ← stream.ch.close
        pure { s with streams := s.streams.set k { stream with ch := ch, position := .returned err } }
      | _ => .ok s
    | none => .ok s
  | .push id data => s.notify id data
  | .delete id => s.notify id id

/-- The process: after a panic there is nothing. -/
def step (x : Outcome Empty Registry) (e : Event) : Outcome Empty Registry := x >>= fun s => s.step unmarshal e

/-- A registration for its id has found stream `k` in the registry, and closed its channel. -/
def Evicted (es : List Event) (k : Nat) : Prop :=
  ∃ p id s, p ++ [.register id] <+: es ∧ run (step unmarshal) (.ok {}) p = .ok s ∧ s.watch.lookup id = some k

/-- The step takes no watcher out of the registry but the one whose exit it is, or the one that is replaced. -/
def Owned (x : Outcome Empty Registry) (e : Event) : Prop :=
  ∀ s s' id k, x = .ok s → step unmarshal x e = .ok s' → s.watch.lookup id = some k → s'.watch.lookup id ≠ some k →
    e = .unregister k ∨ e = .register id

/-- No channel is closed twice or sent to after it was closed, and no watcher is taken out of the registry by
another. -/
def Disciplined (es : List Event) : Prop :=
  Always (step unmarshal) (· ≠ .panic) (.ok {}) es ∧ Every (step unmarshal) (Owned unmarshal) (.ok {}) es

/-- A stream that was evicted does not get to its clean-up: it does not close its channel, and deletes no entry. -/
def NoLateCleanUp (es : List Event) : Prop :=
  ∀ p e s k stream, p ++ [e] <+: es → run (step unmarshal) (.ok {}) p = .ok s → s.streams[k]? = some stream →
    Evicted unmarshal p k →
    (∀ err, stream.position = .leaving err → e = .unregister k → s.watch.lookup stream.id = none) ∧
    ∀ err, stream.position = .closing err → e ≠ .close k

end

variable {unmarshal : String → Option String} {s s' : Registry} {stream stream' : Stream} {e : Event} {k : Nat}

/-! ### One step -/

/-- The stream has not come to its clean-up. -/
def Position.Before : Position → Prop
  | .watching | .leaving _ => True
  | .closing _ | .returned _ => False

def Position.Gone : Position → Prop
  | .returned _ => True
  | _ => False

/-- A stream that belongs in the registry. -/
def Stream.Active (stream : Stream) : Prop := stream.ch.closed = false ∧ stream.position.Before

/-- What a step that is not about the registry keeps of a stream. -/
structure Stream.Keeps (stream stream' : Stream) : Prop where
  id : stream'.id = stream.id
  active : stream'.Active ↔ stream.Active
  closed : ¬ stream'.position.Gone → ¬ stream.position.Gone ∧ stream'.ch.closed = stream.ch.closed

def Registry.Keeps (s s' : Registry) : Prop :=
  s'.watch = s.watch ∧ ∀ k : Nat, Option.Rel Stream.Keeps s.streams[k]? s'.streams[k]?

private theorem Stream.Keeps.refl (stream : Stream) : stream.Keeps stream := ⟨rfl, Iff.rfl, fun h => ⟨h, rfl⟩⟩

private theorem rel_refl (o : Option Stream) : Option.Rel Stream.Keeps o o := by
  cases o with
  | none => exact .none
  | some stream => exact .some (.refl stream)

private theorem Registry.Keeps.refl (s : Registry) : s.Keeps s := ⟨rfl, fun _ => rel_refl _⟩

private theorem getElem?_set_of_some (h : s.streams[k]? = some stream) (j : Nat) :
    (s.streams.set k stream')[j]? = if k = j then some stream' else s.streams[j]? := by
  rw [List.getElem?_set]
  by_cases hj : k = j
  · rw [if_pos hj, if_pos hj, if_pos (List.getElem?_eq_some_iff.1 h).1]
  · rw [if_neg hj, if_neg hj]

private theorem keeps_set (h : s.streams[k]? = some stream) (hk : stream.Keeps stream') :
    s.Keeps { s with streams := s.streams.set k stream' } := by
  refine ⟨rfl, fun j => ?_⟩
  rw [getElem?_set_of_some h]
  by_cases hj : k = j
  · rw [if_pos hj, ← hj, h]
    exact .some hk
  · rw [if_neg hj]
    exact rel_refl _

/-- A turn of the loop leaves a stream with the same right to its entry. -/
private theorem keeps_select (hw : stream.position = .watching) (quit : Bool) (case : Case) :
    stream.Keeps (stream.select unmarshal quit case) := by
  -- leaving the `select` is not yet the clean-up
  have hmove : ∀ ch position, ch.closed = stream.ch.closed → Position.Before position → ¬ Position.Gone position →
      stream.Keeps { stream with ch := ch, position := position } := by
    intro ch position hch hbefore hgone
    refine ⟨rfl, ?_, fun _ => ⟨?_, hch⟩⟩
    · simp only [Stream.Active, hch, hw, hbefore, and_true]
      simp only [Position.Before, and_true]
    · rw [hw]
      exact id
  have hleave : ∀ err, stream.Keeps { stream with position := .leaving err } :=
    fun err => hmove stream.ch (.leaving err) rfl trivial id
  unfold Stream.select
  split
  · split
    · exact hleave none
    · exact .refl stream
  · split
    · exact hleave none
    · exact .refl stream
  · split
    · exact .refl stream
    · rename_i hr
      obtain ⟨-, hclosed⟩ := Chan.closed_of_receive hr
      refine ⟨rfl, ?_, fun hgone => absurd trivial hgone⟩
      simp [Stream.Active, hclosed rfl]
    · rename_i hr
      obtain ⟨hch, -⟩ := Chan.closed_of_receive hr
      split
      · exact hmove _ _ hch trivial id
      · exact hmove _ _ hch trivial id
      · have := hmove _ .watching hch trivial id
        rwa [← hw] at this

private theorem onChan_eq_ok {op : Chan String → Outcome Empty (Chan String)} (h : s.onChan k op = .ok s') :
    (s.streams[k]? = none ∧ s' = s) ∨
      ∃ stream ch, s.streams[k]? = some stream ∧ op stream.ch = .ok ch ∧
        s' = { s with streams := s.streams.set k { stream with ch := ch } } := by
  unfold Registry.onChan at h
  split at h
  · rename_i hk
    cases h
    exact Or.inl ⟨hk, rfl⟩
  · rename_i stream hk
    obtain ⟨ch, hop, heq⟩ := Outcome.bind_eq_ok.1 h
    cases heq
    exact Or.inr ⟨stream, ch, hk, hop, rfl⟩

private theorem keeps_notify {id text : String} (h : s.notify id text = .ok s') : s.Keeps s' := by
  unfold Registry.notify at h
  split at h
  · cases h
    exact .refl s
  · split at h
    · rcases onChan_eq_ok h with ⟨-, rfl⟩ | ⟨stream, ch, hk, hop, rfl⟩
      · exact .refl s'
      · have hch := Chan.closed_of_trySend hop
        refine keeps_set hk ⟨rfl, ?_, fun hgone => ⟨hgone, hch⟩⟩
        simp only [Stream.Active, hch]
    · cases h
      exact .refl s

/-- What a step does: a registration, the first half of a clean-up, or nothing to the registry. -/
theorem step_cases (h : s.step unmarshal e = .ok s') :
    (s.Keeps s' ∧ ∀ id, e ≠ .register id) ∨ (∃ id, e = .register id ∧ s.deprecatedWatch id = .ok s') ∨
      ∃ k stream err, e = .unregister k ∧ s.streams[k]? = some stream ∧ stream.position = .leaving err ∧
        s' = { s with
          watch := s.watch.erase stream.id
          streams := s.streams.set k { stream with position := .closing err } } := by
  cases e with
  | register id => exact Or.inr (Or.inl ⟨id, rfl, h⟩)
  | shutdown =>
    cases h
    exact Or.inl ⟨⟨rfl, fun _ => rel_refl _⟩, nofun⟩
  | push id data => exact Or.inl ⟨keeps_notify h, nofun⟩
  | delete id => exact Or.inl ⟨keeps_notify h, nofun⟩
  | disconnect k =>
    refine Or.inl ⟨?_, nofun⟩
    simp only [Registry.step] at h
    split at h
    · rename_i hk
      cases h
      exact keeps_set hk ⟨rfl, Iff.rfl, fun hgone => ⟨hgone, rfl⟩⟩
    · cases h
      exact .refl s
  | select k case =>
    refine Or.inl ⟨?_, nofun⟩
    simp only [Registry.step] at h
    split at h
    · rename_i hk
      split at h
      · rename_i hw
        cases h
        exact keeps_set hk (keeps_select hw s.quit case)
      · cases h
        exact .refl s
    · cases h
      exact .refl s
  | unregister k =>
    simp only [Registry.step] at h
    split at h
    · rename_i stream hk
      split at h
      · rename_i err hp
        cases h
        exact Or.inr (Or.inr ⟨k, stream, err, rfl, hk, hp, rfl⟩)
      · cases h
        exact Or.inl ⟨.refl s, nofun⟩
    · cases h
      exact Or.inl ⟨.refl s, nofun⟩
  | close k =>
    refine Or.inl ⟨?_, nofun⟩
    simp only [Registry.step] at h
    split at h
    · rename_i stream hk
      split at h
      · rename_i err hp
        obtain ⟨ch, -, heq⟩ := Outcome.bind_eq_ok.1 h
        cases heq
        refine keeps_set hk ⟨rfl, ?_, fun hgone => absurd trivial hgone⟩
        simp only [Stream.Active, hp, Position.Before, and_false]
      · cases h
        exact .refl s
    · cases h
      exact .refl s

/-! ### The registry -/

/-- Every entry is that of a stream for the id that has an open channel and has not come to its clean-up. -/
def Registry.Wf (s : Registry) : Prop :=
  ∀ id k, s.watch.lookup id = some k → ∃ stream, s.streams[k]? = some stream ∧ stream.id = id ∧ stream.Active

/-- Every such stream has an entry. -/
def Registry.Full (s : Registry) : Prop :=
  ∀ (k : Nat) stream, s.streams[k]? = some stream → stream.Active → s.watch.lookup stream.id = some k

def Stream.shut (stream : Stream) : Stream := { stream with ch := { stream.ch with closed := true } }

/-- What a registration does. -/
structure Registry.Enters (s : Registry) (id : String) (s' : Registry) : Prop where
  watch : s'.watch = s.watch.insert id s.streams.length
  streams : ∀ k : Nat, s'.streams[k]? =
    if k = s.streams.length then some { id := id }
    else if s.watch.lookup id = some k then s.streams[k]?.map Stream.shut
    else s.streams[k]?

private theorem Registry.Wf.evict (h : s.Wf) (id : String) :
    ∃ s', s.evict id = .ok s' ∧ s'.watch = s.watch ∧ s'.streams.length = s.streams.length ∧
      ∀ k : Nat, s'.streams[k]? =
        if s.watch.lookup id = some k then s.streams[k]?.map Stream.shut else s.streams[k]? := by
  unfold Registry.evict
  cases hold : s.watch.lookup id with
  | none => exact ⟨s, rfl, rfl, rfl, fun k => (if_neg nofun).symm⟩
  | some old =>
    obtain ⟨stream, hk, -, hopen, -⟩ := h id old hold
    refine ⟨{ s with streams := s.streams.set old stream.shut }, ?_, rfl, List.length_set, fun k => ?_⟩
    · simp only [Registry.onChan, hk, Chan.close, hopen]
      rfl
    · rw [getElem?_set_of_some hk]
      by_cases hj : old = k
      · rw [if_pos hj, if_pos (congrArg some hj), ← hj, hk]
        rfl
      · rw [if_neg hj, if_neg fun he => hj (Option.some.inj he)]

private theorem Registry.Wf.enters (h : s.Wf) (id : String) :
    ∃ s', s.deprecatedWatch id = .ok s' ∧ s.Enters id s' := by
  obtain ⟨s₁, hevict, hwatch, hlen, hstreams⟩ := h.evict id
  refine ⟨s₁.enter id, ?_, ?_, fun k => ?_⟩
  · rw [Registry.deprecatedWatch, hevict]
    rfl
  · simp only [Registry.enter, hwatch, hlen]
  · rw [← hlen, ← hstreams k]
    show (s₁.streams ++ [_])[k]? = _
    by_cases hk : k = s₁.streams.length
    · rw [if_pos hk, hk, List.getElem?_append_right (Nat.le_refl _), Nat.sub_self]
      rfl
    · rw [if_neg hk]
      by_cases hlt : k < s₁.streams.length
      · rw [List.getElem?_append_left hlt]
      · rw [List.getElem?_eq_none (by omega : s₁.streams.length ≤ k), List.getElem?_eq_none_iff, List.length_append]
        simp only [List.length_singleton]
        omega

private theorem Registry.Wf.lt (h : s.Wf) {id : String} (hk : s.watch.lookup id = some k) : k < s.streams.length := by
  obtain ⟨stream, hget, -⟩ := h id k hk
  exact (List.getElem?_eq_some_iff.1 hget).1

/-- A stream after a registration: the one that has registered, the one that was evicted, or one that was there. -/
private theorem Registry.Enters.cases {id : String} (h : s.Enters id s') (hk : s'.streams[k]? = some stream') :
    (k = s.streams.length ∧ stream' = { id := id }) ∨
      ∃ stream, s.streams[k]? = some stream ∧
        ((s.watch.lookup id = some k ∧ stream' = stream.shut) ∨ (s.watch.lookup id ≠ some k ∧ stream' = stream)) := by
  rw [h.streams] at hk
  split at hk
  · rename_i hnew
    exact Or.inl ⟨hnew, (Option.some.inj hk).symm⟩
  · right
    split at hk
    · rename_i hold
      obtain ⟨stream, hget, rfl⟩ := Option.map_eq_some_iff.1 hk
      exact ⟨stream, hget, Or.inl ⟨hold, rfl⟩⟩
    · rename_i hold
      exact ⟨stream', hk, Or.inr ⟨hold, rfl⟩⟩

/-- A stream that was there and is not evicted stays as it is. -/
private theorem Registry.Enters.get {id : String} (h : s.Enters id s') (hk : s.streams[k]? = some stream)
    (hold : s.watch.lookup id ≠ some k) : s'.streams[k]? = some stream := by
  have hlt := (List.getElem?_eq_some_iff.1 hk).1
  rw [h.streams, if_neg (by omega), if_neg hold, hk]

private theorem Stream.not_active_shut (stream : Stream) : ¬ stream.shut.Active := by
  rintro ⟨hopen, -⟩
  cases hopen

private theorem Registry.Keeps.get (h : s.Keeps s') (hk : s.streams[k]? = some stream) :
    ∃ stream', s'.streams[k]? = some stream' ∧ stream.Keeps stream' := by
  have hrel := h.2 k
  rw [hk] at hrel
  cases hs' : s'.streams[k]? with
  | none => rw [hs'] at hrel; cases hrel
  | some stream' =>
    rw [hs'] at hrel
    cases hrel with
    | some hkeeps => exact ⟨stream', rfl, hkeeps⟩

private theorem Registry.Keeps.get' (h : s.Keeps s') (hk : s'.streams[k]? = some stream') :
    ∃ stream, s.streams[k]? = some stream ∧ stream.Keeps stream' := by
  have hrel := h.2 k
  rw [hk] at hrel
  cases hs : s.streams[k]? with
  | none => rw [hs] at hrel; cases hrel
  | some stream =>
    rw [hs] at hrel
    cases hrel with
    | some hkeeps => exact ⟨stream, rfl, hkeeps⟩

private theorem Registry.Wf.step (h : s.Wf) (hstep : s.step unmarshal e = .ok s') : s'.Wf := by
  rcases step_cases hstep with ⟨hkeeps, -⟩ | ⟨id, rfl, hreg⟩ | ⟨k, stream, err, rfl, hk, hp, rfl⟩
  · intro id k hentry
    rw [hkeeps.1] at hentry
    obtain ⟨stream, hk, hid, hactive⟩ := h id k hentry
    obtain ⟨stream', hk', hsame⟩ := hkeeps.get hk
    exact ⟨stream', hk', hsame.id.trans hid, hsame.active.2 hactive⟩
  · obtain ⟨s₂, hs₂, henters⟩ := h.enters id
    cases hreg.symm.trans hs₂
    intro id' k hentry
    rw [henters.watch] at hentry
    by_cases hid : id' = id
    · rw [hid, AList.lookup_insert] at hentry
      cases hentry
      refine ⟨{ id := id }, ?_, hid.symm, rfl, trivial⟩
      rw [henters.streams, if_pos rfl]
    · rw [AList.lookup_insert_ne hid] at hentry
      obtain ⟨stream, hk, hid', hactive⟩ := h id' k hentry
      refine ⟨stream, henters.get hk ?_, hid', hactive⟩
      -- an entry is that of a stream for its id
      intro hold
      obtain ⟨stream₂, hk₂, hid₂, -⟩ := h id k hold
      cases hk.symm.trans hk₂
      exact hid (hid'.symm.trans hid₂)
  · intro id j hentry
    have hid : id ≠ stream.id := by
      rintro rfl
      rw [AList.lookup_erase] at hentry
      cases hentry
    rw [AList.lookup_erase_ne hid] at hentry
    obtain ⟨stream₂, hj, hid₂, hactive⟩ := h id j hentry
    refine ⟨stream₂, ?_, hid₂, hactive⟩
    rw [getElem?_set_of_some hk, if_neg, hj]
    rintro rfl
    cases hk.symm.trans hj
    exact hid hid₂.symm

/-- No stream with a closed channel takes an entry out in its clean-up, or closes the channel once more. -/
structure Registry.Orderly (s : Registry) (e : Event) : Prop where
  unregister : ∀ (k : Nat) stream err, e = .unregister k → s.streams[k]? = some stream →
    stream.position = .leaving err → stream.ch.closed = true → s.watch.lookup stream.id = none
  close : ∀ (k : Nat) stream err, e = .close k → s.streams[k]? = some stream → stream.position = .closing err →
    stream.ch.closed = false

/-- The stream that is in the registry when a clean-up deletes an entry is the one that cleans up. -/
private theorem eq_of_unregister (hfull : s.Full) (horderly : s.Orderly (.unregister k)) {err : Option String}
    (hk : s.streams[k]? = some stream) (hp : stream.position = .leaving err) {j : Nat}
    (hj : s.watch.lookup stream.id = some j) : j = k := by
  cases hclosed : stream.ch.closed with
  | true =>
    rw [horderly.unregister k stream err rfl hk hp hclosed] at hj
    cases hj
  | false =>
    have hactive : stream.Active := ⟨hclosed, by rw [hp]; trivial⟩
    rw [hfull k stream hk hactive] at hj
    exact (Option.some.inj hj).symm

private theorem Registry.Full.step (hfull : s.Full) (h : s.Wf) (horderly : s.Orderly e)
    (hstep : s.step unmarshal e = .ok s') : s'.Full := by
  rcases step_cases hstep with ⟨hkeeps, -⟩ | ⟨id, rfl, hreg⟩ | ⟨k, stream, err, rfl, hk, hp, rfl⟩
  · intro k stream' hk' hactive
    obtain ⟨stream, hk, hsame⟩ := hkeeps.get' hk'
    rw [hkeeps.1, hsame.id]
    exact hfull k stream hk (hsame.active.1 hactive)
  · obtain ⟨s₂, hs₂, henters⟩ := h.enters id
    cases hreg.symm.trans hs₂
    intro k stream' hk' hactive
    rw [henters.watch]
    rcases henters.cases hk' with ⟨rfl, rfl⟩ | ⟨stream, hk, ⟨-, rfl⟩ | ⟨hold, rfl⟩⟩
    · exact AList.lookup_insert _
    · exact absurd hactive stream.not_active_shut
    · have hentry := hfull k stream' hk hactive
      have hid : stream'.id ≠ id := by
        rintro rfl
        exact hold hentry
      rw [AList.lookup_insert_ne hid]
      exact hentry
  · intro j stream' hj hactive
    rw [getElem?_set_of_some hk] at hj
    by_cases hjk : k = j
    · rw [if_pos hjk] at hj
      cases hj
      exact hactive.2.elim
    · rw [if_neg hjk] at hj
      have hentry := hfull j stream' hj hactive
      have hid : stream'.id ≠ stream.id := by
        intro hid
        rw [hid] at hentry
        exact hjk (eq_of_unregister hfull horderly hk hp hentry).symm
      show (s.watch.erase stream.id).lookup stream'.id = _
      rw [AList.lookup_erase_ne hid]
      exact hentry

private theorem Registry.Wf.onChan_ne_panic (h : s.Wf) {id : String} (hentry : s.watch.lookup id = some k)
    {op : Chan String → Outcome Empty (Chan String)} (hop : ∀ ch, op ch = .panic ↔ ch.closed = true) :
    s.onChan k op ≠ .panic := by
  obtain ⟨stream, hk, -, hopen, -⟩ := h id k hentry
  intro hpanic
  simp only [Registry.onChan, hk] at hpanic
  rcases Outcome.bind_eq_panic.1 hpanic with hp | ⟨ch, -, hp⟩
  · rw [(hop _).1 hp] at hopen
    cases hopen
  · cases hp

/-- A notification never sends to a closed channel. -/
private theorem Registry.Wf.notify_ne_panic (h : s.Wf) (id text : String) : s.notify id text ≠ .panic := by
  unfold Registry.notify
  split
  · nofun
  · split
    · rename_i k hentry
      exact h.onChan_ne_panic hentry fun _ => Chan.trySend_eq_panic
    · nofun

/-- The one step that panics is the end of the clean-up of a stream whose channel is closed. -/
private theorem Registry.Wf.step_eq_panic (h : s.Wf) : s.step unmarshal e = .panic ↔
    ∃ k stream err, e = .close k ∧ s.streams[k]? = some stream ∧ stream.position = .closing err ∧
      stream.ch.closed = true := by
  constructor
  · intro hpanic
    cases e with
    | register id =>
      obtain ⟨s₂, hs₂, -⟩ := h.enters id
      cases hs₂.symm.trans hpanic
    | shutdown => cases hpanic
    | push id data => exact absurd hpanic (h.notify_ne_panic id data)
    | delete id => exact absurd hpanic (h.notify_ne_panic id id)
    | disconnect k =>
      simp only [Registry.step] at hpanic
      split at hpanic <;> cases hpanic
    | select k case =>
      simp only [Registry.step] at hpanic
      split at hpanic
      · split at hpanic <;> cases hpanic
      · cases hpanic
    | unregister k =>
      simp only [Registry.step] at hpanic
      split at hpanic
      · split at hpanic <;> cases hpanic
      · cases hpanic
    | close k =>
      simp only [Registry.step] at hpanic
      split at hpanic
      · rename_i stream hk
        split at hpanic
        · rename_i err hp
          rcases Outcome.bind_eq_panic.1 hpanic with hclose | ⟨ch, -, hpure⟩
          · exact ⟨k, stream, err, rfl, hk, hp, Chan.close_eq_panic.1 hclose⟩
          · cases hpure
        · cases hpanic
      · cases hpanic
  · rintro ⟨k, stream, err, rfl, hk, hp, hclosed⟩
    simp only [Registry.step, hk, hp, Chan.close, hclosed, if_true]
    rfl

/-- From a registry that holds what it should, the orderly steps are those that neither panic nor take out the entry
of another stream. -/
private theorem orderly_iff (h : s.Wf) (hfull : s.Full) :
    step unmarshal (.ok s) e ≠ .panic ∧ Owned unmarshal (.ok s) e ↔ s.Orderly e := by
  constructor
  · rintro ⟨hpanic, howned⟩
    constructor
    · rintro k stream err rfl hk hp hclosed
      by_contra hne
      obtain ⟨j, hj⟩ := Option.ne_none_iff_exists'.1 hne
      -- an entry for the id is that of a stream with an open channel, and so another one
      have hjk : j ≠ k := by
        rintro rfl
        obtain ⟨stream₂, hk₂, -, hopen, -⟩ := h _ j hj
        cases hk.symm.trans hk₂
        rw [hclosed] at hopen
        cases hopen
      have hstep : step unmarshal (.ok s) (.unregister k) = .ok { s with
          watch := s.watch.erase stream.id
          streams := s.streams.set k { stream with position := .closing err } } := by
        simp only [step, Outcome.ok_bind, Registry.step, hk, hp]
      have hgone : (s.watch.erase stream.id).lookup stream.id ≠ some j := by
        rw [AList.lookup_erase]
        nofun
      rcases howned s _ stream.id j rfl hstep hj hgone with he | he
      · cases he
        exact hjk rfl
      · cases he
    · rintro k stream err rfl hk hp
      by_contra hclosed
      rw [Bool.not_eq_false] at hclosed
      have hp' : s.step unmarshal (.close k) = .panic := h.step_eq_panic.2 ⟨k, stream, err, rfl, hk, hp, hclosed⟩
      exact hpanic hp'
  · intro horderly
    constructor
    · intro hpanic
      obtain ⟨k, stream, err, rfl, hk, hp, hclosed⟩ := h.step_eq_panic.1 hpanic
      rw [horderly.close k stream err rfl hk hp] at hclosed
      cases hclosed
    · rintro s₁ s' id j heq hstep hentry hgone
      cases heq
      rcases step_cases hstep with ⟨hkeeps, -⟩ | ⟨id', rfl, hreg⟩ | ⟨k, stream, err, rfl, hk, hp, rfl⟩
      · rw [hkeeps.1] at hgone
        exact absurd hentry hgone
      · right
        obtain ⟨s₂, hs₂, henters⟩ := h.enters id'
        cases hreg.symm.trans hs₂
        by_contra hne
        have hid : id ≠ id' := fun hid => hne (congrArg Event.register hid.symm)
        rw [henters.watch, AList.lookup_insert_ne hid] at hgone
        exact hgone hentry
      · left
        have hid : id = stream.id := by
          by_contra hid
          apply hgone
          show (s.watch.erase stream.id).lookup id = some j
          rw [AList.lookup_erase_ne hid]
          exact hentry
        rw [hid] at hentry
        rw [eq_of_unregister hfull horderly hk hp hentry]

/-! ### Runs -/

private theorem run_concat_eq_ok {p : List Event} (h : run (step unmarshal) (.ok {}) (p ++ [e]) = .ok s') :
    ∃ s, run (step unmarshal) (.ok {}) p = .ok s ∧ s.step unmarshal e = .ok s' := by
  rw [run_concat] at h
  exact Outcome.bind_eq_ok.1 h

private theorem evicted_concat {p : List Event} (hrun : run (step unmarshal) (.ok {}) p = .ok s) :
    Evicted unmarshal (p ++ [e]) k ↔
      Evicted unmarshal p k ∨ ∃ id, e = .register id ∧ s.watch.lookup id = some k := by
  constructor
  · rintro ⟨q, id, s₁, hq, hrun₁, hentry⟩
    rcases List.prefix_concat_iff.1 hq with heq | hpre
    · obtain ⟨rfl, he⟩ := List.append_inj' heq rfl
      cases hrun.symm.trans hrun₁
      exact Or.inr ⟨id, (List.singleton_inj.1 he).symm, hentry⟩
    · exact Or.inl ⟨q, id, s₁, hpre, hrun₁, hentry⟩
  · rintro (⟨q, id, s₁, hpre, hrun₁, hentry⟩ | ⟨id, rfl, hentry⟩)
    · exact ⟨q, id, s₁, hpre.trans (List.prefix_append p [e]), hrun₁, hentry⟩
    · exact ⟨p, id, s, List.prefix_refl _, hrun, hentry⟩

/-- Only a registration evicts. -/
private theorem evicted_concat_of_ne {p : List Event} (hrun : run (step unmarshal) (.ok {}) p = .ok s)
    (hne : ∀ id, e ≠ .register id) : Evicted unmarshal (p ++ [e]) k ↔ Evicted unmarshal p k := by
  rw [evicted_concat hrun]
  constructor
  · rintro (hev | ⟨id, he, -⟩)
    · exact hev
    · exact absurd he (hne id)
  · intro hev
    exact Or.inl hev

/-- What a registry says of the run that has led to it. -/
structure Registry.Recalls (unmarshal : String → Option String) (p : List Event) (s : Registry) : Prop where
  wf : s.Wf
  lt : ∀ k, Evicted unmarshal p k → k < s.streams.length
  closed : ∀ (k : Nat) stream, s.streams[k]? = some stream → ¬ stream.position.Gone →
    (stream.ch.closed = true ↔ Evicted unmarshal p k)

private theorem Registry.Recalls.step {p : List Event} (h : s.Recalls unmarshal p)
    (hrun : run (Watch.step unmarshal) (.ok {}) p = .ok s) (hstep : s.step unmarshal e = .ok s') :
    s'.Recalls unmarshal (p ++ [e]) := by
  rcases step_cases hstep with ⟨hkeeps, hne⟩ | ⟨id, rfl, hreg⟩ | ⟨k, stream, err, rfl, hk, hp, rfl⟩
  · have hsame : ∀ k, Evicted unmarshal (p ++ [e]) k ↔ Evicted unmarshal p k := fun _ => evicted_concat_of_ne hrun hne
    refine ⟨h.wf.step hstep, fun k hev => ?_, fun k stream' hk' hgone => ?_⟩
    · have hlt := h.lt k ((hsame k).1 hev)
      obtain ⟨stream', hk', -⟩ := hkeeps.get (List.getElem?_eq_getElem hlt)
      exact (List.getElem?_eq_some_iff.1 hk').1
    · obtain ⟨stream, hk, hst⟩ := hkeeps.get' hk'
      obtain ⟨hgone₀, hclosed⟩ := hst.closed hgone
      rw [hsame, hclosed]
      exact h.closed k stream hk hgone₀
  · obtain ⟨s₂, hs₂, henters⟩ := h.wf.enters id
    cases hreg.symm.trans hs₂
    have hev : ∀ k, Evicted unmarshal (p ++ [.register id]) k ↔
        Evicted unmarshal p k ∨ s.watch.lookup id = some k := by
      intro k
      rw [evicted_concat hrun]
      refine or_congr_right ⟨?_, fun hold => ⟨id, rfl, hold⟩⟩
      rintro ⟨id', he, hold⟩
      cases he
      exact hold
    have hlt : ∀ k, Evicted unmarshal (p ++ [.register id]) k → k < s.streams.length := by
      intro k hk
      rcases (hev k).1 hk with hk | hold
      · exact h.lt k hk
      · exact h.wf.lt hold
    refine ⟨h.wf.step hstep, fun k hk => ?_, fun k stream' hk' hgone => ?_⟩
    · have hlen : s.streams.length < s'.streams.length := by
        have hnew := henters.streams s.streams.length
        rw [if_pos rfl] at hnew
        exact (List.getElem?_eq_some_iff.1 hnew).1
      have := hlt k hk
      omega
    · rcases henters.cases hk' with ⟨rfl, rfl⟩ | ⟨stream, hk, ⟨hold, rfl⟩ | ⟨hold, rfl⟩⟩
      · refine iff_of_false nofun fun hnew => ?_
        have := hlt _ hnew
        omega
      · exact iff_of_true rfl ((hev k).2 (Or.inr hold))
      · rw [hev, h.closed k stream' hk hgone]
        exact (or_iff_left hold).symm
  · have hsame : ∀ j, Evicted unmarshal (p ++ [.unregister k]) j ↔ Evicted unmarshal p j :=
      fun _ => evicted_concat_of_ne hrun nofun
    refine ⟨h.wf.step hstep, fun j hev => ?_, fun j stream' hj hgone => ?_⟩
    · rw [List.length_set]
      exact h.lt j ((hsame j).1 hev)
    · rw [getElem?_set_of_some hk] at hj
      rw [hsame]
      split at hj
      · rename_i hjk
        cases hj
        rw [← hjk]
        exact h.closed k stream hk (by rw [hp]; exact id)
      · exact h.closed j stream' hj hgone

private theorem recalls_run (p : List Event) (hrun : run (step unmarshal) (.ok {}) p = .ok s) :
    s.Recalls unmarshal p := by
  induction p using List.reverseRecOn generalizing s with
  | nil =>
    cases hrun
    have hnone : ∀ k, ¬ Evicted unmarshal [] k := by
      rintro k ⟨q, id, s, hq, -⟩
      have := List.prefix_nil.1 hq
      simp at this
    refine ⟨fun id k hentry => ?_, fun k hk => absurd hk (hnone k), fun k stream hk => ?_⟩
    · simp at hentry
    · simp at hk
  | append_singleton p e ih =>
    obtain ⟨s₀, hrun₀, hstep⟩ := run_concat_eq_ok hrun
    exact (ih hrun₀).step hrun₀ hstep

/-- A stream on its way through the clean-up has a closed channel exactly if it was evicted. -/
private theorem closed_iff_evicted {p : List Event} (hrun : run (step unmarshal) (.ok {}) p = .ok s)
    (hk : s.streams[k]? = some stream) {err : Option String}
    (hpos : stream.position = .leaving err ∨ stream.position = .closing err) :
    stream.ch.closed = true ↔ Evicted unmarshal p k := by
  refine (recalls_run p hrun).closed k stream hk ?_
  rcases hpos with hpos | hpos
  · rw [hpos]
    exact id
  · rw [hpos]
    exact id

/-- The steps of a run that are orderly, in terms of the evictions in it. -/
private theorem noLateCleanUp_iff (es : List Event) :
    NoLateCleanUp unmarshal es ↔
      Every (step unmarshal) (fun x e => ∀ s, x = .ok s → s.Orderly e) (.ok {}) es := by
  constructor
  · intro h p e hp s hrun
    constructor
    · intro k stream err he hk hpos hclosed
      have hev := (closed_iff_evicted hrun hk (Or.inl hpos)).1 hclosed
      exact (h p e s k stream hp hrun hk hev).1 err hpos he
    · intro k stream err he hk hpos
      by_contra hclosed
      rw [Bool.not_eq_false] at hclosed
      have hev := (closed_iff_evicted hrun hk (Or.inr hpos)).1 hclosed
      exact (h p e s k stream hp hrun hk hev).2 err hpos he
  · intro h p e s k stream hp hrun hk hev
    have horderly := h p e hp s hrun
    constructor
    · intro err hpos he
      have hclosed := (closed_iff_evicted hrun hk (Or.inl hpos)).2 hev
      exact horderly.unregister k stream err he hk hpos hclosed
    · intro err hpos he
      have hclosed := (closed_iff_evicted hrun hk (Or.inr hpos)).2 hev
      rw [horderly.close k stream err he hk hpos] at hclosed
      cases hclosed

private theorem disciplined_iff_every (es : List Event) :
    Disciplined unmarshal es ↔
      Every (step unmarshal) (fun x e => step unmarshal x e ≠ .panic ∧ Owned unmarshal x e) (.ok {}) es := by
  constructor
  · rintro ⟨halways, hevery⟩ p e hp
    have hne := halways _ hp
    rw [run_concat] at hne
    exact ⟨hne, hevery p e hp⟩
  · intro h
    refine ⟨fun p hp => ?_, fun p e hp => (h p e hp).2⟩
    rcases List.eq_nil_or_concat' p with rfl | ⟨p, e, rfl⟩
    · nofun
    · rw [run_concat]
      exact (h p e hp).1

/-- A registry that holds exactly the streams it should. -/
def Sound (x : Outcome Empty Registry) : Prop := ∃ s, x = .ok s ∧ s.Wf ∧ s.Full

private theorem sound_start : Sound (.ok {}) := by
  refine ⟨{}, rfl, fun id k hentry => ?_, fun k stream hk => ?_⟩
  · simp at hentry
  · simp at hk

theorem Sound.step {x : Outcome Empty Registry} (hx : Sound x) (h : ∀ s, x = .ok s → s.Orderly e) :
    Sound (Watch.step unmarshal x e) := by
  obtain ⟨s, rfl, hwf, hfull⟩ := hx
  have horderly := h s rfl
  have hpanic : s.step unmarshal e ≠ .panic := ((orderly_iff hwf hfull).2 horderly).1
  cases hstep : s.step unmarshal e with
  | panic => exact absurd hstep hpanic
  | error e => exact e.elim
  | ok s' => exact ⟨s', hstep, hwf.step hstep, hfull.step hwf horderly hstep⟩

/-- The registry is kept with discipline if and only if no stream gets to its clean-up after its eviction. -/
theorem watch_disciplined_iff (unmarshal : String → Option String) (es : List Event) :
    Disciplined unmarshal es ↔ NoLateCleanUp unmarshal es := by
  rw [noLateCleanUp_iff, disciplined_iff_every]
  -- both conditions keep the registry sound, and on a sound registry they agree
  have hiff : ∀ x e, Sound x →
      (step unmarshal x e ≠ .panic ∧ Owned unmarshal x e ↔ ∀ s, x = .ok s → s.Orderly e) := by
    rintro x e ⟨s, rfl, hwf, hfull⟩
    rw [orderly_iff hwf hfull]
    constructor
    · intro h s' hs'
      cases hs'
      exact h
    · intro h
      exact h s rfl
  constructor
  · intro h
    exact (every_congr sound_start h (fun x e hx hd => hx.step ((hiff x e hx).1 hd)) fun x e hx _ => hiff x e hx).1 h
  · intro h
    exact (every_congr sound_start h (fun x e hx ho => hx.step ho) fun x e hx _ => hiff x e hx).2 h

/-- A second client watches the same hardware; the first one, evicted, disconnects before it has seen that its channel
is closed.  Its clean-up deletes the entry of the second client, which goes on watching, and then closes its own
channel once more. -/
theorem evicted_cleans_up :
    let es : List Event := [.register "h1", .register "h1", .disconnect 0, .select 0 .done, .unregister 0, .close 0]
    (∃ s stream, run (step fun _ => none) (.ok {}) (es.take 5) = .ok s ∧ s.watch.lookup "h1" = none ∧
      s.streams[1]? = some stream ∧ stream.position = .watching) ∧
    run (step fun _ => none) (.ok {}) es = .panic ∧ ¬ Disciplined (fun _ => none) es := by
  have hpanic : run (step fun _ => none) (.ok {})
      [.register "h1", .register "h1", .disconnect 0, .select 0 .done, .unregister 0, .close 0] = .panic := by rfl
  refine ⟨⟨_, _, rfl, rfl, rfl, rfl⟩, hpanic, ?_⟩
  rintro ⟨halways, -⟩
  exact halways.last hpanic

end Tink.Db.Watch
