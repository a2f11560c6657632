import RoboTwinPool.Worker.Wrapper

set_option autoImplicit false

/-! # The worker process

`worker(process_id, ...)` as a state machine. Its program counter (`Phase`) stops at every
access to an object it shares with the other processes: the go semaphore
`action_input_sem`, `reset_event`, the action buffer, the seed cursor `seed_id` under its
lock, its slice of the result buffer and the done semaphore `result_output_sem`. What the
process does between two such accesses (simulator calls, building the record) only this
process sees, and it is one move (`Worker.move`). A move reads the shared objects it needs
from an `Env` and reports its access to them as an `Effect`; the pool supplies the first
and applies the second.

The whole chunk, the loop `for t in range(HORIZON)`, is one move. Its sub-steps read the
action buffer, which the controller does not write while any worker holds a go-signal
(`Pool/Safety.lean`), so the point inside the chunk at which they read it is not
observable.
-/

namespace RoboTwinPool

/-- Where the worker process is. `dead h` is a process that raised; `h` records whether it
raised while holding a go-signal, owing the controller a done-signal. -/
inductive Phase (α : Type)
  /-- Building and initializing the first adapter. -/
  | boot
  /-- Blocked on `action_input_sem.acquire()` before the initial push. -/
  | awaitFirst
  /-- Holding: the initial push. -/
  | first
  /-- Blocked on `action_input_sem.acquire()` at the top of the loop. -/
  | await
  /-- Holding: about to test `reset_event`. -/
  | dispatch
  /-- Holding: in the reseed loop, about to claim a seed. -/
  | reseed
  /-- Holding: the reseeded adapter is up; about to publish its first observation. -/
  | reseedObs
  /-- Holding: about to roll out the chunk. -/
  | chunk
  /-- Holding: about to write `result` into the process's slice. -/
  | publish (result : NdArray α)
  /-- Holding: about to call `result_output_sem.release()`. -/
  | signal
  | dead (holding : Bool)
  deriving DecidableEq

namespace Phase

variable {α : Type}

/-- Whether the process holds a go-signal it has not yet answered. -/
def holding : Phase α → Bool
  | boot | awaitFirst | await => false
  | first | dispatch | reseed | reseedObs | chunk | publish _ | signal => true
  | dead h => h

/-- Whether the next move is `action_input_sem.acquire()`. -/
def awaitsGo : Phase α → Bool
  | awaitFirst | await => true
  | _ => false

/-- Whether the process has raised. -/
def isDead : Phase α → Bool
  | dead _ => true
  | _ => false

end Phase

/-- What the simulator answers during one move: an adapter's `initialize`, the two
attempts of `get_obs`, and its answer at every sub-step of a chunk. -/
structure Reply (α : Type) where
  setup : Setup
  obs : Option (Observation α) × Option (Observation α)
  steps : Nat → StepReply α

/-- What a move reads: `reset_event.is_set()`, the action buffer, `seed_id.value` under the
lock, and the simulator's reply. -/
structure Env (α : Type) where
  resetSet : Bool
  actions : List α
  cursor : Nat
  reply : Reply α

/-- The move's access to shared objects. `claim` reads the seed cursor and advances it
under the lock; `write` is the slice assignment of the process's record. -/
inductive Effect (α : Type)
  | none
  | acquire
  | claim
  | write (result : List α)
  | release

/-- A worker process: `prev_obs`, `env_wrapper` and where it is. -/
structure Worker (α : Type) where
  phase : Phase α
  wrapper : Wrapper α
  prevObs : Option (Observation α)

variable {α : Type}

/-- A process just spawned: `env_wrapper = RobotwinEnvWrapper(task_name, trial_id=0,
trial_seed=0, ...)`. -/
def Worker.init : Worker α := ⟨.boot, Wrapper.new 0, none⟩

/-! ## Observations and records -/

/-- `update_obs`: the three camera images, channels reversed, and the joint state.
`update_obs(None)` raises, as does the reversal of an array of rank below three. -/
def updateObs : Option (Observation α) → Option (List (NdArray α) × NdArray α)
  | none => none
  | some o => do
    let head ← o.headCamera.flipChannels
    let right ← o.rightCamera.flipChannels
    let left ← o.leftCamera.flipChannels
    pure ([head, right, left], o.jointAction)

/-- An observation of the configured shapes yields three images of `IMAGE_SHAPE`. -/
theorem updateObs_shaped {o : Observation α} (h : o.Shaped) :
    ∃ imgs, updateObs (some o) = some (imgs, o.jointAction) ∧ imgs.length = 3 ∧
      ∀ im ∈ imgs, im.shape = imageShape := by
  obtain ⟨hh, hr, hl, -⟩ := h
  obtain ⟨h', eh, sh⟩ := NdArray.flipChannels_shape hh
  obtain ⟨r', er, sr⟩ := NdArray.flipChannels_shape hr
  obtain ⟨l', el, sl⟩ := NdArray.flipChannels_shape hl
  refine ⟨[h', r', l'], by simp [updateObs, eh, er, el], rfl, ?_⟩
  simp only [List.mem_cons, List.not_mem_nil, or_false]
  rintro im (rfl | rfl | rfl)
  exacts [sh.trans hh, sr.trans hr, sl.trans hl]

/-- `filling_up`: a pose block of fewer than `HORIZON` rows padded with copies of its
last row (`return_poses[-1]` raises on an empty block). -/
def fillingUp (horizon : Nat) (returnPoses : NdArray α) : Option (NdArray α) :=
  match h : returnPoses.shape with
  | [] => none
  | d :: rest =>
    if hd : d < horizon then
      if h0 : d = 0 then none
      else some ⟨horizon :: rest, returnPoses.data ++
          (List.replicate (horizon - d)
            ((returnPoses.data.drop ((d - 1) * rest.prod)).take (1 * rest.prod))).flatten, by
        have hl : returnPoses.data.length = d * rest.prod := by
          rw [returnPoses.length_data, h, List.prod_cons]
        have hlast := (length_take_drop_mul (i := d - 1) (m := 1) hl (.inr (by omega))).trans
          (Nat.one_mul _)
        rw [List.length_append, length_flatten_of_length_eq (k := rest.prod)
          (fun r hr => by rw [List.eq_of_mem_replicate hr, hlast]), List.length_replicate, hl,
          List.prod_cons, ← Nat.add_mul]
        congr 1; omega⟩
    else some returnPoses

variable [Zero α] [One α]

/-- `return_poses = filling_up(np.zeros((HORIZON, 6))[0:1, :])`, the pose block of every
record. -/
def startPoses (horizon : Nat) : Option (NdArray α) := do
  let returnPoses ← (NdArray.zeros [horizon, 6] : NdArray α).slice 0 1
  fillingUp horizon returnPoses

omit [One α] in
/-- The pose block has `TARGET_SHAPE` for every horizon: one row padded up to `HORIZON`
rows, or, for `HORIZON` 0, the empty slice. -/
theorem startPoses_shape (horizon : Nat) :
    ∃ p, startPoses (α := α) horizon = some p ∧ p.shape = [horizon, 6] := by
  simp only [startPoses, NdArray.zeros, NdArray.slice, Option.bind_eq_bind, Option.some_bind,
    fillingUp]
  split
  next hd => exact ⟨_, by rw [dif_neg (by omega)], rfl⟩
  next hd => exact ⟨_, rfl, by simp only [List.cons.injEq, and_true]; omega⟩

/-- `1 if flag else 0`. -/
def flag (b : Bool) : α := if b then 1 else 0

/-- The fields of the record of a fresh observation, which the initial push publishes
with `truncated` 0 and the reseed with `truncated` 1: the three images twice, the state,
reward and `terminated` 0. -/
def freshFields (cfg : Config) (obs : Option (Observation α)) (truncated : α) :
    Option (Fields α) := do
  let (imgs, state) ← updateObs obs
  let poses ← startPoses cfg.horizon
  pure ⟨imgs ++ imgs, state, 0, 0, truncated, poses⟩

omit [One α] in
/-- The fresh record of an observation of the configured shapes exists and has the
configured sizes, with reward and `terminated` 0 and the observation's joint state. -/
theorem freshFields_sized (cfg : Config) {o : Observation α} (h : o.Shaped) (t : α) :
    ∃ f, freshFields cfg (some o) t = some f ∧ f.Sized cfg ∧ f.reward = 0 ∧ f.terminated = 0 ∧
      f.truncated = t ∧ f.state = o.jointAction := by
  obtain ⟨imgs, hu, hlen, hsh⟩ := updateObs_shaped h
  obtain ⟨p, hp, hps⟩ := startPoses_shape (α := α) cfg.horizon
  refine ⟨⟨imgs ++ imgs, o.jointAction, 0, 0, t, p⟩, by simp [freshFields, hu, hp],
    ⟨by simp [hlen]; rfl, by simpa using hsh, h.2.2.2, hps⟩, rfl, rfl, rfl, rfl⟩

/-! ## The chunk -/

/-- The loop variables of the rollout: `last_reward`, `last_terminated`,
`last_truncated` and `obs_list`. -/
structure Acc (α : Type) where
  reward : α
  terminated : Bool
  truncated : Bool
  obsList : List (Option (Observation α))

/-- The loop variables before the loop. -/
def Acc.init : Acc α := ⟨0, false, false, []⟩

/-- `input_actions = numpy_actions[process_id]` with `numpy_actions =
np.frombuffer(actions.get_obj()).reshape(NUM_PROCESSES, HORIZON, ACTION_DIM)`. -/
def inputActions (cfg : Config) (pid : Nat) (actions : List α) : Option (NdArray α) :=
  (NdArray.ofList actions).reshape [cfg.nEnvs, cfg.horizon, actionDim] >>= (·.get pid)

omit [Zero α] [One α] in
/-- The worker's view of a batch laid out as `(n_envs, HORIZON, ACTION_DIM)`: its row. -/
theorem inputActions_eq_get {cfg : Config} {a : NdArray α}
    (ha : a.shape = [cfg.nEnvs, cfg.horizon, actionDim]) (pid : Nat) :
    inputActions cfg pid a.data = a.get pid := by
  rw [inputActions, NdArray.reshape_ofList, ← ha, NdArray.reshape_self]; rfl

/-- `input_actions[t].reshape(1, ACTION_DIM)`. -/
def actionAt (inputActions : NdArray α) (t : Nat) : Option (NdArray α) :=
  inputActions.get t >>= (·.reshape [1, actionDim])

/-- The loop `for t in range(HORIZON)` at iteration `t` with `n` iterations left: one
adapter `step` per iteration, the loop variables updated, `break` on `terminated`. -/
def rollout (cfg : Config) (inputActions : NdArray α) (replies : Nat → StepReply α) :
    Nat → Nat → Wrapper α × Acc α → Option (Wrapper α × Acc α)
  | 0, _, s => some s
  | n + 1, t, (wr, acc) => do
    let action ← actionAt inputActions t
    let (wr', out) := wr.step cfg action (replies t)
    let acc' : Acc α := ⟨out.reward, out.terminated, out.truncated, acc.obsList ++ [out.obs]⟩
    if acc'.terminated then some (wr', acc')
    else rollout cfg inputActions replies n (t + 1) (wr', acc')

/-- `last_obs`: `obs_list[-1]`, or `prev_obs` when no sub-step ran. -/
def lastObs (prevObs : Option (Observation α)) (acc : Acc α) : Option (Observation α) :=
  acc.obsList.getLast?.getD prevObs

/-- `penult_obs`: `obs_list[-2]`, or `prev_obs` when fewer than two sub-steps ran. -/
def penultObs (prevObs : Option (Observation α)) (acc : Acc α) : Option (Observation α) :=
  acc.obsList.dropLast.getLast?.getD prevObs

/-- The fields of the chunk's record: the images of `penult_obs` and `last_obs`, the state
of `last_obs`, the loop's last reward and flags, and the pose block. -/
def chunkFields (cfg : Config) (prevObs : Option (Observation α)) (acc : Acc α) :
    Option (Fields α) := do
  let (imgsA, _) ← updateObs (penultObs prevObs acc)
  let (imgsB, stateB) ← updateObs (lastObs prevObs acc)
  let poses ← startPoses cfg.horizon
  pure ⟨imgsA ++ imgsB, stateB, acc.reward, flag acc.terminated, flag acc.truncated, poses⟩

/-- The auto-reset past its seed claim: a new adapter for `now_seed`, initialized, and its
first observation. (Closing the old adapter is wrapped in `try` and changes nothing the
pool reads.) -/
def autoReset (nowSeed : Nat) (reply : Reply α) : Option (Wrapper α × Observation α) := do
  let wr ← (Wrapper.new nowSeed).initEnv reply.setup
  let (o, wr') ← wr.getObs reply.obs
  pure (wr', o)

/-! ## Moves -/

namespace Worker

/-- The process raised while holding a go-signal. -/
def crash (w : Worker α) : Worker α := { w with phase := .dead true }

/-- About to publish the record of `f`, or raised where `np.array` does. -/
def toPublish (w : Worker α) (f : Fields α) (wr : Wrapper α) (prevObs : Option (Observation α)) :
    Worker α :=
  match f.pack with
  | some res => ⟨.publish res, wr, prevObs⟩
  | none => w.crash

/-- `prev_obs = env_wrapper.get_obs()` and the record of that observation. -/
def publishFresh (cfg : Config) (w : Worker α) (env : Env α) (truncated : α) : Worker α :=
  match w.wrapper.getObs env.reply.obs with
  | none => w.crash
  | some (o, wr) =>
    match freshFields cfg (some o) truncated with
    | none => w.crash
    | some f => w.toPublish f wr (some o)

/-- The chunk: the rollout, the record's fields, and on `terminated` the auto-reset with
its seed claim. -/
def runChunk (cfg : Config) (pid : Nat) (w : Worker α) (env : Env α) : Worker α × Effect α :=
  match inputActions cfg pid env.actions with
  | none => (w.crash, .none)
  | some row =>
    match rollout cfg row env.reply.steps cfg.horizon 0 (w.wrapper, .init) with
    | none => (w.crash, .none)
    | some (wr, acc) =>
      match chunkFields cfg w.prevObs acc with
      | none => (w.crash, .none)
      | some f =>
        if acc.terminated then
          match autoReset env.cursor env.reply with
          | none => (w.crash, .claim)
          | some (wr', o) => (w.toPublish f wr' (some o), .claim)
        else (w.toPublish f wr (lastObs w.prevObs acc), .none)

/-- One move of worker `pid`. The reseed loop's `except Exception` retries with the next
seed after every `Exception` of the new adapter's `initialize`; a `SystemExit` escapes it,
and the process raises holding its go-signal. -/
def move (cfg : Config) (pid : Nat) (w : Worker α) (env : Env α) : Worker α × Effect α :=
  match w.phase with
  | .boot =>
    match w.wrapper.initEnv env.reply.setup with
    | some wr => ({ w with phase := .awaitFirst, wrapper := wr }, .none)
    | none => ({ w with phase := .dead false }, .none)
  | .awaitFirst => ({ w with phase := .first }, .acquire)
  | .first => (w.publishFresh cfg env 0, .none)
  | .await => ({ w with phase := .dispatch }, .acquire)
  | .dispatch =>
    match inputActions cfg pid env.actions with
    | none => (w.crash, .none)
    | some _ => ({ w with phase := if env.resetSet then .reseed else .chunk }, .none)
  | .reseed =>
    match (Wrapper.new env.cursor).initEnv env.reply.setup with
    | some wr => ({ w with phase := .reseedObs, wrapper := wr }, .claim)
    | none =>
      if env.reply.setup.systemExit then (w.crash, .claim)
      else ({ w with wrapper := Wrapper.new env.cursor }, .claim)
  | .reseedObs => (w.publishFresh cfg env 1, .none)
  | .chunk => w.runChunk cfg pid env
  | .publish res =>
    if pid < cfg.nEnvs ∧ res.size = cfg.resultSize then
      ({ w with phase := .signal }, .write res.data)
    else (w.crash, .none)
  | .signal => ({ w with phase := .await }, .release)
  | .dead _ => (w, .none)

end Worker

/-! ## What one move can do -/

/-- The phase after a move, and its effect, for every phase before it. -/
def Phase.Next {α : Type} : Phase α → Phase α → Effect α → Prop
  | .boot, p, e => (p = .awaitFirst ∨ p = .dead false) ∧ e = .none
  | .awaitFirst, p, e => p = .first ∧ e = .acquire
  | .first, p, e => ((∃ r, p = .publish r) ∨ p = .dead true) ∧ e = .none
  | .await, p, e => p = .dispatch ∧ e = .acquire
  | .dispatch, p, e => (p = .reseed ∨ p = .chunk ∨ p = .dead true) ∧ e = .none
  | .reseed, p, e => (p = .reseedObs ∨ p = .reseed ∨ p = .dead true) ∧ e = .claim
  | .reseedObs, p, e => ((∃ r, p = .publish r) ∨ p = .dead true) ∧ e = .none
  | .chunk, p, e => ((∃ r, p = .publish r) ∨ p = .dead true) ∧ (e = .none ∨ e = .claim)
  | .publish _, p, e => (p = .signal ∧ ∃ d, e = .write d) ∨ (p = .dead true ∧ e = .none)
  | .signal, p, e => p = .await ∧ e = .release
  | .dead h, p, e => p = .dead h ∧ e = .none

namespace Worker

omit [Zero α] [One α] in
theorem toPublish_phase (w : Worker α) (f : Fields α) (wr : Wrapper α)
    (o : Option (Observation α)) :
    (∃ r, (w.toPublish f wr o).phase = .publish r) ∨ (w.toPublish f wr o).phase = .dead true := by
  unfold toPublish; split
  · exact .inl ⟨_, rfl⟩
  · exact .inr rfl

omit [One α] in
theorem publishFresh_phase (cfg : Config) (w : Worker α) (env : Env α) (t : α) :
    (∃ r, (w.publishFresh cfg env t).phase = .publish r) ∨
      (w.publishFresh cfg env t).phase = .dead true := by
  unfold publishFresh; split
  · exact .inr rfl
  · split
    · exact .inr rfl
    · exact toPublish_phase ..

theorem runChunk_next (cfg : Config) (pid : Nat) (w : Worker α) (env : Env α) :
    Phase.Next .chunk (w.runChunk cfg pid env).1.phase (w.runChunk cfg pid env).2 := by
  unfold runChunk
  repeat' split
  all_goals first
    | exact ⟨.inr rfl, .inl rfl⟩
    | exact ⟨.inr rfl, .inr rfl⟩
    | exact ⟨toPublish_phase .., .inl rfl⟩
    | exact ⟨toPublish_phase .., .inr rfl⟩

/-- **What one move can do**: the phase it leads to and its effect on shared objects. -/
theorem move_next (cfg : Config) (pid : Nat) (w : Worker α) (env : Env α) :
    Phase.Next w.phase (w.move cfg pid env).1.phase (w.move cfg pid env).2 := by
  unfold move
  split <;> rename_i h <;> rw [h]
  · split
    · exact ⟨.inl rfl, rfl⟩
    · exact ⟨.inr rfl, rfl⟩
  · exact ⟨rfl, rfl⟩
  · exact ⟨publishFresh_phase .., rfl⟩
  · exact ⟨rfl, rfl⟩
  · split
    · exact ⟨.inr (.inr rfl), rfl⟩
    · exact ⟨by split <;> simp, rfl⟩
  · split
    · exact ⟨.inl rfl, rfl⟩
    · split
      · exact ⟨.inr (.inr rfl), rfl⟩
      · exact ⟨.inr (.inl rfl), rfl⟩
  · exact ⟨publishFresh_phase .., rfl⟩
  · exact runChunk_next ..
  · split
    · exact .inl ⟨rfl, _, rfl⟩
    · exact .inr ⟨rfl, rfl⟩
  · exact ⟨rfl, rfl⟩
  · exact ⟨rfl, rfl⟩

/-! The moves of the phases the one-process pool of `Pool/Lockstep.lean` tracks. -/

variable {cfg : Config} {pid : Nat}

theorem move_first {w : Worker α} (hp : w.phase = .first) (env : Env α) :
    w.move cfg pid env = (w.publishFresh cfg env 0, .none) := by
  unfold Worker.move; rw [hp]

theorem move_reseedObs {w : Worker α} (hp : w.phase = .reseedObs) (env : Env α) :
    w.move cfg pid env = (w.publishFresh cfg env 1, .none) := by
  unfold Worker.move; rw [hp]

omit [Zero α] [One α] in
theorem toPublish_eq {w : Worker α} {f : Fields α} {wr : Wrapper α}
    {o : Option (Observation α)} {res : NdArray α} (h : (w.toPublish f wr o).phase = .publish res) :
    f.pack = some res ∧ w.toPublish f wr o = ⟨.publish res, wr, o⟩ := by
  unfold Worker.toPublish at h ⊢
  split at h
  · rename_i r hr; cases h; exact ⟨hr, rfl⟩
  · cases h

omit [One α] in
/-- The record a fresh push publishes packs the fields of the observation it keeps. -/
theorem publishFresh_produced {w : Worker α} {env : Env α} {t : α} {res : NdArray α}
    (h : (w.publishFresh cfg env t).phase = .publish res) :
    (freshFields cfg (w.publishFresh cfg env t).prevObs t).bind Fields.pack = some res := by
  unfold Worker.publishFresh at h ⊢
  split at h
  · cases h
  · split at h
    · cases h
    · rename_i f hf
      rw [(toPublish_eq h).2, hf]
      exact (toPublish_eq h).1

/-- The dispatch reseeds exactly when `reset_event` is set. -/
theorem move_dispatch (cfg : Config) (pid : Nat) {w : Worker α} (hp : w.phase = .dispatch)
    (env : Env α) :
    ((w.move cfg pid env).1.phase = .reseed → env.resetSet = true) ∧
      ((w.move cfg pid env).1.phase = .chunk → env.resetSet = false) := by
  simp only [Worker.move, hp]
  split
  · exact ⟨nofun, nofun⟩
  · cases env.resetSet <;> simp

/-- The publish writes the whole record into the process's slice, if it moves on. -/
theorem move_publish {w : Worker α} {res : NdArray α} (hp : w.phase = .publish res) {env : Env α}
    (hs : (w.move cfg pid env).1.phase = .signal) :
    w.move cfg pid env = ({ w with phase := .signal }, .write res.data) ∧
      pid < cfg.nEnvs ∧ res.size = cfg.resultSize := by
  simp only [Worker.move, hp] at hs ⊢
  by_cases hg : pid < cfg.nEnvs ∧ res.size = cfg.resultSize
  · exact ⟨if_pos hg, hg⟩
  · rw [if_neg hg] at hs; cases hs

theorem move_signal {w : Worker α} (hp : w.phase = .signal) (env : Env α) :
    w.move cfg pid env = ({ w with phase := .await }, .release) := by
  simp only [Worker.move, hp]

end Worker

namespace Phase

omit [Zero α] [One α]

theorem Next.holding_of_acquire {p p' : Phase α} (h : p.Next p' .acquire) :
    p.awaitsGo = true ∧ p.holding = false ∧ p'.holding = true := by
  cases p <;> simp only [Next] at h <;> casesm* _ ∨ _, _ ∧ _, ∃ _, _ <;> subst_vars <;>
    first | exact ⟨rfl, rfl, rfl⟩ | contradiction

theorem Next.holding_of_release {p p' : Phase α} (h : p.Next p' .release) :
    p = .signal ∧ p' = .await := by
  cases p <;> simp only [Next] at h <;> casesm* _ ∨ _, _ ∧ _, ∃ _, _ <;> subst_vars <;>
    first | exact ⟨rfl, rfl⟩ | contradiction

/-- Only the acquire and the release change whether the process holds a go-signal. -/
theorem Next.holding_eq {p p' : Phase α} {e : Effect α} (h : p.Next p' e)
    (ha : e ≠ .acquire) (hr : e ≠ .release) : p'.holding = p.holding := by
  cases p <;> simp only [Next] at h <;> casesm* _ ∨ _, _ ∧ _, ∃ _, _ <;> subst_vars <;>
    first | rfl | contradiction

/-- A process that holds a go-signal and has not raised is blocked by no semaphore. -/
theorem holding_alive {p : Phase α} (hh : p.holding = true) (hd : p ≠ .dead true) :
    p.isDead = false ∧ p.awaitsGo = false := by
  cases p <;> simp_all [holding, isDead, awaitsGo]

/-! Which phases lead to the end of a cycle's loop pass. -/

theorem Next.eq_publish_of_signal {p : Phase α} {e : Effect α} (h : p.Next .signal e) :
    ∃ res, p = .publish res := by
  cases p <;> simp only [Next] at h <;> casesm* _ ∨ _, _ ∧ _, ∃ _, _ <;> first
    | exact ⟨_, rfl⟩ | contradiction

theorem Next.eq_signal_of_write {p p' : Phase α} {d : List α} (h : p.Next p' (.write d)) :
    p' = .signal := by
  cases p <;> simp only [Next] at h <;> casesm* _ ∨ _, _ ∧ _, ∃ _, _ <;> first
    | assumption | contradiction

theorem Next.eq_signal_of_await {p : Phase α} {e : Effect α} (h : p.Next .await e) :
    p = .signal := by
  cases p <;> simp only [Next] at h <;> casesm* _ ∨ _, _ ∧ _, ∃ _, _ <;> first
    | rfl | contradiction

end Phase

end RoboTwinPool
