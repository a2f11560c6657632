import RoboTwinPool.Worker.Loop

set_option autoImplicit false

/-! # The pool: one controller and its worker processes

`RoboTwin` owns the objects the processes share: the counting semaphores `input_sem`
(go-signals) and `output_sem` (done-signals), `reset_event`, the seed cursor `share_seed`,
and the action and result buffers. Its public calls are requests from the training loop;
`init_process`, `step` and `reset` each release `n_envs` go-signals one at a time, acquire
`n_envs` done-signals one at a time and read the result buffer, and these moves interleave
with the moves of the workers in any order. `Pool.step` takes a label naming who moves
(the caller with a request, the controller's next internal move, or worker `i` with the
simulator's reply) and is `none` where that party cannot move: a blocked acquire, a dead
process, a request the controller is not ready for.

Two history variables record what the pool did and are read by no move: the seeds
claimed, in order (`seedLog`), and what each call returned (`returned`).
-/

namespace RoboTwinPool

/-- The cycle the controller is running: the one of `init_process`, a `step` with the
flattened batch it wrote (`null` when called with `actions=None`), or a `reset`. -/
inductive Op (α : Type)
  | initProcess
  | step (actions : List α) (null : Bool)
  | reset
  deriving DecidableEq

/-- Where the controller is. -/
inductive Ctrl (α : Type)
  /-- No pool: before `__init__` calls `init_process`, and after `clear()`. -/
  | cleared
  /-- Between calls. -/
  | idle
  /-- `k` go-signals of the cycle still to release. -/
  | releasing (op : Op α) (k : Nat)
  /-- `k` done-signals of the cycle still to acquire. -/
  | acquiring (op : Op α) (k : Nat)
  deriving DecidableEq

/-- A public call of the training loop. -/
inductive Request (α : Type)
  | initProcess
  | step (actions : Option (NdArray α))
  | reset
  | clear

/-- What a call returned: the records `de_initialize_result` decoded (what `transform`
converts to tensors), or an exception. -/
inductive Returned (α : Type)
  | results (op : Op α) (conds : Option (List (Cond α)))
  | raised

/-- The controller's fields, the shared objects of the current pool and its processes;
worker `i` is `process[i]` and owns slice `i`. -/
structure Pool (α : Type) where
  seed : Nat
  ctrl : Ctrl α
  inputSem : Nat
  outputSem : Nat
  resetEvent : Bool
  shareSeed : Nat
  shareActions : List α
  shareResults : List α
  workers : List (Worker α)
  seedLog : List Nat
  returned : List (Returned α)

/-- Who moves. -/
inductive Label (α : Type)
  | call (req : Request α)
  | ctrl
  | worker (i : Nat) (reply : Reply α)

/-- The cursor after a claim: `seed_id.value += 1`, then `%= 30` once it reaches 30. -/
def nextSeed (v : Nat) : Nat := if 30 ≤ v + 1 then (v + 1) % 30 else v + 1

/-- `clear()`'s bound on the persisted cursor: reset to 0 above 3000. -/
def clearSeed (v : Nat) : Nat := if v > 3000 then 0 else v

namespace Pool

variable {α : Type} [Zero α] [One α] (cfg : Config)

/-- `RoboTwin` before `__init__` calls `init_process`: `self.seed = 0`, no pool. -/
def init : Pool α := ⟨0, .cleared, 0, 0, false, 0, [], [], [], [], []⟩

/-- A public call. `step` first writes the batch into the action buffer; the slice
assignment raises unless the batch has `n_envs * input_size` elements, and the call then
returns with nothing changed. -/
def call (s : Pool α) : Request α → Option (Pool α)
  | .initProcess =>
    match s.ctrl with
    | .cleared => some { s with
        ctrl := .releasing .initProcess cfg.nEnvs
        inputSem := 0
        outputSem := 0
        resetEvent := false
        shareSeed := s.seed
        shareActions := List.replicate (cfg.nEnvs * cfg.inputSize) 0
        shareResults := List.replicate (cfg.nEnvs * cfg.resultSize) 0
        workers := List.replicate cfg.nEnvs Worker.init }
    | _ => none
  | .step actions =>
    match s.ctrl with
    | .idle =>
      match actions with
      | none =>
        let a := (NdArray.zeros [cfg.nEnvs, cfg.horizon, actionDim] : NdArray α).flatten
        some { s with shareActions := a.data, ctrl := .releasing (.step a.data true) cfg.nEnvs }
      | some a =>
        if a.size = cfg.nEnvs * cfg.inputSize then
          some { s with
            shareActions := a.flatten.data
            ctrl := .releasing (.step a.flatten.data false) cfg.nEnvs }
        else some { s with returned := s.returned ++ [.raised] }
    | _ => none
  | .reset =>
    match s.ctrl with
    | .idle => some { s with resetEvent := true, ctrl := .releasing .reset cfg.nEnvs }
    | _ => none
  | .clear =>
    match s.ctrl with
    | .idle => some { s with workers := [], seed := clearSeed s.shareSeed, ctrl := .cleared }
    | _ => none

/-- The end of a cycle, after the last done-signal: `reset` clears `reset_event`, then the
buffer is read and decoded. -/
def finish (s : Pool α) (op : Op α) : Pool α :=
  { s with
    resetEvent := match op with
      | .reset => false
      | _ => s.resetEvent
    ctrl := .idle
    returned := s.returned ++ [.results op (readResults cfg s.shareResults)] }

/-- The controller's next internal move. -/
def ctrlMove (s : Pool α) : Option (Pool α) :=
  match s.ctrl with
  | .releasing op (k + 1) => some { s with inputSem := s.inputSem + 1, ctrl := .releasing op k }
  | .releasing op 0 => some { s with ctrl := .acquiring op cfg.nEnvs }
  | .acquiring op (k + 1) =>
    if 0 < s.outputSem then
      some { s with outputSem := s.outputSem - 1, ctrl := .acquiring op k }
    else none
  | .acquiring op 0 => some (s.finish cfg op)
  | _ => none

/-- A worker's effect on the shared objects. -/
def apply (s : Pool α) (i : Nat) : Effect α → Pool α
  | .none => s
  | .acquire => { s with inputSem := s.inputSem - 1 }
  | .claim => { s with shareSeed := nextSeed s.shareSeed, seedLog := s.seedLog ++ [s.shareSeed] }
  | .write d => { s with shareResults := writeSlice s.shareResults cfg.resultSize i d }
  | .release => { s with outputSem := s.outputSem + 1 }

/-- What worker `i` reads when it moves. -/
def envOf (s : Pool α) (reply : Reply α) : Env α :=
  ⟨s.resetEvent, s.shareActions, s.shareSeed, reply⟩

/-- A move of worker `i`: a dead process does not move, and an acquire blocks while
`input_sem` is zero. -/
def workerMove (s : Pool α) (i : Nat) (reply : Reply α) : Option (Pool α) :=
  match s.workers[i]? with
  | none => none
  | some w =>
    if w.phase.isDead || (w.phase.awaitsGo && s.inputSem == 0) then none
    else
      let r := w.move cfg i (s.envOf reply)
      some { s.apply cfg i r.2 with workers := s.workers.set i r.1 }

/-- One move of the pool. -/
def step (s : Pool α) : Label α → Option (Pool α)
  | .call req => s.call cfg req
  | .ctrl => s.ctrlMove cfg
  | .worker i reply => s.workerMove cfg i reply

/-- The states the pool reaches from `init` by any interleaving of moves. -/
inductive Reachable : Pool α → Prop
  | init : Reachable init
  | step {s s' : Pool α} (l : Label α) : Reachable s → s.step cfg l = some s' → Reachable s'

/-- The state after a sequence of moves. -/
def run (s : Pool α) : List (Label α) → Option (Pool α)
  | [] => some s
  | l :: ls => s.step cfg l >>= fun s' => run s' ls

theorem Reachable.run {s s' : Pool α} (hs : Reachable cfg s) {ls : List (Label α)}
    (h : s.run cfg ls = some s') : Reachable cfg s' := by
  induction ls generalizing s with
  | nil => cases h; exact hs
  | cons l ls ih =>
    simp only [Pool.run, Option.bind_eq_bind] at h
    cases hl : s.step cfg l with
    | none => rw [hl] at h; cases h
    | some s1 => rw [hl] at h; exact ih (hs.step l hl) h

/-- A run of two sequences of moves is the second run from where the first ends. -/
theorem run_append (s : Pool α) (ls ls' : List (Label α)) :
    s.run cfg (ls ++ ls') = (s.run cfg ls).bind (·.run cfg ls') := by
  induction ls generalizing s with
  | nil => rfl
  | cons l ls ih =>
    simp only [List.cons_append, run, Option.bind_eq_bind]
    cases s.step cfg l <;> simp [ih]

/-! ## What one move can do -/

section Moves

variable {cfg} {s s' : Pool α}

omit [One α] in
theorem call_cases {req : Request α} (h : s.call cfg req = some s') :
    (s.ctrl = .cleared ∧ s' = { s with
        ctrl := .releasing .initProcess cfg.nEnvs, inputSem := 0, outputSem := 0,
        resetEvent := false, shareSeed := s.seed,
        shareActions := List.replicate (cfg.nEnvs * cfg.inputSize) 0,
        shareResults := List.replicate (cfg.nEnvs * cfg.resultSize) 0,
        workers := List.replicate cfg.nEnvs Worker.init }) ∨
    (s.ctrl = .idle ∧ ∃ flat null,
      s' = { s with shareActions := flat, ctrl := .releasing (.step flat null) cfg.nEnvs }) ∨
    (s.ctrl = .idle ∧ s' = { s with returned := s.returned ++ [.raised] }) ∨
    (s.ctrl = .idle ∧ s' = { s with resetEvent := true, ctrl := .releasing .reset cfg.nEnvs }) ∨
    (s.ctrl = .idle ∧
      s' = { s with workers := [], seed := clearSeed s.shareSeed, ctrl := .cleared }) := by
  cases req with
  | initProcess =>
    simp only [call] at h; split at h
    · exact .inl ⟨‹_›, (Option.some.inj h).symm⟩
    · cases h
  | step a =>
    simp only [call] at h; split at h
    · rename_i hc
      split at h
      · exact .inr (.inl ⟨hc, _, _, (Option.some.inj h).symm⟩)
      · split at h
        · exact .inr (.inl ⟨hc, _, _, (Option.some.inj h).symm⟩)
        · exact .inr (.inr (.inl ⟨hc, (Option.some.inj h).symm⟩))
    · cases h
  | reset =>
    simp only [call] at h; split at h
    · exact .inr (.inr (.inr (.inl ⟨‹_›, (Option.some.inj h).symm⟩)))
    · cases h
  | clear =>
    simp only [call] at h; split at h
    · exact .inr (.inr (.inr (.inr ⟨‹_›, (Option.some.inj h).symm⟩)))
    · cases h

omit [Zero α] [One α] in
theorem ctrlMove_cases (h : s.ctrlMove cfg = some s') :
    (∃ op k, s.ctrl = .releasing op (k + 1) ∧
      s' = { s with inputSem := s.inputSem + 1, ctrl := .releasing op k }) ∨
    (∃ op, s.ctrl = .releasing op 0 ∧ s' = { s with ctrl := .acquiring op cfg.nEnvs }) ∨
    (∃ op k, s.ctrl = .acquiring op (k + 1) ∧ 0 < s.outputSem ∧
      s' = { s with outputSem := s.outputSem - 1, ctrl := .acquiring op k }) ∨
    (∃ op, s.ctrl = .acquiring op 0 ∧ s' = s.finish cfg op) := by
  unfold ctrlMove at h
  split at h
  · exact .inl ⟨_, _, ‹_›, (Option.some.inj h).symm⟩
  · exact .inr (.inl ⟨_, ‹_›, (Option.some.inj h).symm⟩)
  · split at h
    · exact .inr (.inr (.inl ⟨_, _, ‹_›, ‹_›, (Option.some.inj h).symm⟩))
    · cases h
  · exact .inr (.inr (.inr ⟨_, ‹_›, (Option.some.inj h).symm⟩))
  · cases h

theorem workerMove_cases {i : Nat} {reply : Reply α} (h : s.workerMove cfg i reply = some s') :
    ∃ w, s.workers[i]? = some w ∧ w.phase.isDead = false ∧
      (w.phase.awaitsGo = true → 0 < s.inputSem) ∧
      s' = { s.apply cfg i (w.move cfg i (s.envOf reply)).2 with
        workers := s.workers.set i (w.move cfg i (s.envOf reply)).1 } := by
  unfold workerMove at h
  split at h
  · cases h
  · rename_i w hw
    split at h
    · cases h
    · rename_i hg
      simp only [Bool.or_eq_true, Bool.and_eq_true, beq_iff_eq, not_or, not_and] at hg
      exact ⟨w, hw, by simpa using hg.1, fun ha => Nat.pos_of_ne_zero (hg.2 ha),
        (Option.some.inj h).symm⟩

/-- A live worker moves, whatever the simulator replies, unless it is blocked on an empty
`input_sem`. -/
theorem workerMove_isSome {i : Nat} {w : Worker α} (hw : s.workers[i]? = some w)
    (hd : w.phase.isDead = false) (hg : w.phase.awaitsGo = true → 0 < s.inputSem)
    (reply : Reply α) : (s.workerMove cfg i reply).isSome := by
  simp only [workerMove, hw, hd, Bool.false_or]
  split
  · rename_i h
    simp only [Bool.and_eq_true, beq_iff_eq] at h
    exact absurd (hg h.1) (by omega)
  · rfl

end Moves

/-! ## What a worker's effect leaves alone -/

section Apply

omit [Zero α] [One α]

variable {s : Pool α} {i : Nat} {e : Effect α}

@[simp] theorem apply_ctrl : (s.apply cfg i e).ctrl = s.ctrl := by cases e <;> rfl

@[simp] theorem apply_workers : (s.apply cfg i e).workers = s.workers := by cases e <;> rfl

@[simp] theorem apply_shareActions : (s.apply cfg i e).shareActions = s.shareActions := by
  cases e <;> rfl

@[simp] theorem apply_resetEvent : (s.apply cfg i e).resetEvent = s.resetEvent := by
  cases e <;> rfl

@[simp] theorem apply_returned : (s.apply cfg i e).returned = s.returned := by cases e <;> rfl

@[simp] theorem apply_seed : (s.apply cfg i e).seed = s.seed := by cases e <;> rfl

end Apply

end Pool

end RoboTwinPool
