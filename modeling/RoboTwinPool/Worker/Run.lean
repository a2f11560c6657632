import RoboTwinPool.Worker.Chunk

set_option autoImplicit false

/-! # Runs of one worker

A worker on its own: from the process just spawned, any sequence of moves, each with any
content of the shared objects it reads and any reply of the simulator
(`Worker.Reachable`). Every worker of a reachable pool is such a run
(`Pool/Safety.lean`), so what holds along every run holds for every worker of the pool.

Two invariants hold along every run (`Worker.Inv`): `finish_step` counts the sub-steps
run on the current adapter, and, except in the middle of a reseed, `prev_obs` is the
latest observation the current adapter delivered. With the chunk's spec they give the
flags of every chunk's record (`chunk_flags`) and where its images and state come from
(`chunk_observations`). They do not keep the worker alive: the adapter's `step` turns a
failed `get_obs` into `obs = None`, and `update_obs(None)` raises
(`chunk_raises_of_lost_obs`).
-/

namespace RoboTwinPool

variable {α : Type}

/-- Whether `prev_obs` is kept as the adapter's latest observation: everywhere but in the
middle of a reseed and after a raise. -/
def Phase.tracksObs : Phase α → Bool
  | .reseed | .reseedObs | .dead _ => false
  | _ => true

/-! ## The adapter's history -/

section History

variable (c cs : List (AdapterCall α))

theorem stepCount_append (w : Wrapper α) (h : ∀ x ∈ cs, x.isStep) :
    ({ w with calls := w.calls ++ cs } : Wrapper α).stepCount = w.stepCount + cs.length := by
  simp [Wrapper.stepCount, List.filter_append, List.filter_eq_self.mpr h]

/-- The latest observation after more calls: the last one they delivered, if any. -/
theorem latestObs_append :
    (c ++ cs).getLast?.bind AdapterCall.obs =
      ((cs.map AdapterCall.obs).getLast?).getD (c.getLast?.bind AdapterCall.obs) := by
  rw [List.getLast?_append, List.getLast?_map]
  cases cs.getLast? <;> rfl

variable {c cs} {prevObs : Option (Observation α)} {acc : Acc α}

/-- After a rollout that appended `cs` to the history `c`, `last_obs` is the latest
observation of the history. -/
theorem lastObs_eq (hprev : prevObs = c.getLast?.bind AdapterCall.obs)
    (hacc : acc.obsList = cs.map AdapterCall.obs) :
    lastObs prevObs acc = (c ++ cs).getLast?.bind AdapterCall.obs := by
  rw [lastObs, hacc, hprev, latestObs_append]

/-- ... and `penult_obs` is the observation of the call before the last. -/
theorem penultObs_eq (hprev : prevObs = c.getLast?.bind AdapterCall.obs)
    (hacc : acc.obsList = cs.map AdapterCall.obs) (hne : cs ≠ []) :
    penultObs prevObs acc = (c ++ cs).dropLast.getLast?.bind AdapterCall.obs := by
  rw [penultObs, hacc, hprev, ← List.map_dropLast, List.dropLast_append_of_ne_nil c hne,
    latestObs_append]

end History

theorem stepCalls_isStep (act : Nat → NdArray α) (replies : Nat → StepReply α) (t k : Nat) :
    ∀ x ∈ stepCalls act replies t k, x.isStep := by
  intro x hx
  obtain ⟨i, -, rfl⟩ := List.mem_map.mp hx
  rfl

theorem map_obs_stepCalls (act : Nat → NdArray α) (replies : Nat → StepReply α) (t k : Nat) :
    (stepCalls act replies t k).map AdapterCall.obs = (List.range' t k).map fun i => (replies i).obs := by
  simp [stepCalls, AdapterCall.obs]

namespace Worker

variable [Zero α] [One α] (cfg : Config) (pid : Nat)

/-! ## Runs -/

/-- The states worker `pid` reaches from its spawn, whatever it reads and the simulator
answers. -/
inductive Reachable : Worker α → Prop
  | init : Reachable Worker.init
  | move {w : Worker α} (env : Env α) : Reachable w → Reachable (w.move cfg pid env).1

/-- The worker after a sequence of moves. -/
def run (w : Worker α) (envs : List (Env α)) : Worker α :=
  envs.foldl (fun w env => (w.move cfg pid env).1) w

theorem Reachable.run {w : Worker α} (hw : w.Reachable cfg pid) (envs : List (Env α)) :
    (w.run cfg pid envs).Reachable cfg pid := by
  induction envs generalizing w with
  | nil => exact hw
  | cons env envs ih => exact ih (hw.move env)

/-! ## The chunk's rollout over the adapter's history -/

variable {cfg}

/-- **The chunk's rollout.** With `j` the first sub-step that reports success, the loop
runs sub-steps `0, …, min(HORIZON, j + 1) - 1`, one adapter `step` each, and ends with the
flags of the last one. -/
theorem rollout_chunk {row : NdArray α} (hrow : row.shape = [cfg.horizon, actionDim])
    (hH : 0 < cfg.horizon) {replies : Nat → StepReply α} {wr wr' : Wrapper α} {acc' : Acc α}
    (h : rollout cfg row replies cfg.horizon 0 (wr, .init) = some (wr', acc')) :
    ∃ cs, wr'.calls = wr.calls ++ cs ∧
      cs.map AdapterCall.stepDone = (List.range (min cfg.horizon
        (firstDone replies cfg.horizon 0 + 1))).map (fun t => some (replies t).done) ∧
      acc'.obsList = cs.map AdapterCall.obs ∧
      acc'.obsList = (List.range (min cfg.horizon (firstDone replies cfg.horizon 0 + 1))).map
        (fun t => (replies t).obs) ∧
      (∀ x ∈ cs, x.isStep) ∧ cs ≠ [] ∧
      wr'.finishStep = wr.finishStep + cs.length ∧
      acc'.terminated = decide (firstDone replies cfg.horizon 0 < cfg.horizon) ∧
      acc'.reward = flag (decide (firstDone replies cfg.horizon 0 < cfg.horizon)) ∧
      acc'.truncated = (decide (cfg.stepLim ≤ wr'.finishStep) &&
        !decide (firstDone replies cfg.horizon 0 < cfg.horizon)) := by
  obtain ⟨n, hn⟩ : ∃ n, cfg.horizon = n + 1 := ⟨cfg.horizon - 1, by omega⟩
  rw [hn] at h hrow ⊢
  obtain ⟨wr'', acc'', hr, hc, hf, ho, ht, hw, htr⟩ :=
    rollout_spec cfg row replies (fun i => (actionAt row i).getD row) n 0 wr .init
      fun i _ hi => by
        obtain ⟨a, ha, hs⟩ := actionAt_of_shape hrow (by omega : i < n + 1)
        simp [ha, hs]
  rw [h] at hr
  obtain ⟨rfl, rfl⟩ := Prod.mk.inj (Option.some.inj hr)
  have hk : 0 < subSteps replies (n + 1) 0 := by
    have := le_firstDone replies (n + 1) 0
    simp only [subSteps]; omega
  rw [Nat.zero_add] at ht hw htr
  refine ⟨_, hc, ?_, ?_, ?_, stepCalls_isStep _ _ _ _, ?_, ?_, ht, hw, htr⟩
  · rw [stepCalls, subSteps, Nat.sub_zero, ← List.range_eq_range', List.map_map]; rfl
  · rw [ho, map_obs_stepCalls]; rfl
  · rw [ho, subSteps, Nat.sub_zero, ← List.range_eq_range']; rfl
  · simp only [stepCalls, ne_eq, List.map_eq_nil_iff, List.range'_eq_nil]; omega
  · rw [hf, stepCalls, List.length_map, List.length_range']

/-- The rollout appends its sub-steps to the adapter's history and their observations to
`obs_list`, and advances `finish_step` by their number. -/
theorem rollout_history {row : NdArray α} (hrow : row.shape = [cfg.horizon, actionDim])
    {replies : Nat → StepReply α} {wr wr' : Wrapper α} {acc' : Acc α}
    (h : rollout cfg row replies cfg.horizon 0 (wr, .init) = some (wr', acc')) :
    ∃ cs, wr'.calls = wr.calls ++ cs ∧ acc'.obsList = cs.map AdapterCall.obs ∧
      (∀ x ∈ cs, x.isStep) ∧ wr'.finishStep = wr.finishStep + cs.length ∧
      (0 < cfg.horizon → cs ≠ []) := by
  by_cases hH : 0 < cfg.horizon
  · obtain ⟨cs, hc, -, ho, -, hs, hne, hf, -⟩ := rollout_chunk hrow hH h
    exact ⟨cs, hc, ho, hs, hf, fun _ => hne⟩
  · rw [show cfg.horizon = 0 by omega, rollout] at h
    obtain ⟨rfl, rfl⟩ := Prod.mk.inj (Option.some.inj h)
    exact ⟨[], by simp, rfl, by simp, rfl, by omega⟩

/-! ## The invariants of a run -/

variable (cfg)

/-- The invariants of a worker's run. -/
structure Inv (w : Worker α) : Prop where
  finishStep : w.wrapper.finishStep = w.wrapper.stepCount
  prevObs : w.phase.tracksObs = true → w.prevObs = w.wrapper.latestObs

variable {cfg}

omit [Zero α] [One α] in
theorem Inv.crash {w : Worker α} (hi : w.Inv) : w.crash.Inv := ⟨hi.finishStep, nofun⟩

omit [Zero α] [One α] in
theorem Inv.setPhase {w : Worker α} (hi : w.Inv) (p : Phase α)
    (hp : p.tracksObs = true → w.phase.tracksObs = true) : { w with phase := p }.Inv :=
  ⟨hi.finishStep, fun h => hi.prevObs (hp h)⟩

omit [Zero α] [One α] in
/-- An adapter that has just delivered `o`, with `o` as `prev_obs`, keeps both invariants. -/
theorem Inv.fresh (p : Phase α) (wr : Wrapper α) (o : Observation α)
    (hwr : wr.finishStep = wr.stepCount) :
    (⟨p, { wr with calls := wr.calls ++ [.getObs o] }, some o⟩ : Worker α).Inv :=
  ⟨by simpa [Wrapper.stepCount, AdapterCall.isStep] using hwr, fun _ => by simp [Wrapper.latestObs, AdapterCall.obs]⟩

omit [Zero α] [One α] in
theorem Inv.toPublish {w : Worker α} (hi : w.Inv) (f : Fields α) (wr : Wrapper α)
    (o : Option (Observation α)) (h : ∀ r, (⟨.publish r, wr, o⟩ : Worker α).Inv) :
    (w.toPublish f wr o).Inv := by
  unfold Worker.toPublish; split
  · exact h _
  · exact hi.crash

omit [One α] in
theorem Inv.publishFresh {w : Worker α} (hi : w.Inv) (env : Env α) (t : α) :
    (w.publishFresh cfg env t).Inv := by
  unfold Worker.publishFresh; split
  · exact hi.crash
  · rename_i o wr hg
    split
    · exact hi.crash
    · rw [Wrapper.getObs_eq_some hg]
      exact hi.toPublish _ _ _ fun _ => Inv.fresh _ _ _ hi.finishStep

theorem Inv.runChunk {w : Worker α} (hi : w.Inv) (hp : w.phase = .chunk) (env : Env α) :
    (w.runChunk cfg pid env).1.Inv := by
  rcases runChunk_cases pid w env with h | ⟨row, wr, acc, f, res, hrow, hroll, -, -, hpub⟩
  · rw [h]; exact hi.crash
  obtain ⟨cs, hc, ho, hs, hf, -⟩ := rollout_history (shape_of_inputActions hrow) hroll
  rcases hpub with ⟨-, h⟩ | ⟨-, o, h⟩ <;> rw [h]
  · refine ⟨?_, fun _ => ?_⟩
    · rw [hf, hi.finishStep, Wrapper.stepCount, Wrapper.stepCount, hc, List.filter_append,
        List.filter_eq_self.mpr hs, List.length_append]
    · rw [lastObs, ho, hi.prevObs (by rw [hp]; rfl), Wrapper.latestObs, Wrapper.latestObs, hc,
        latestObs_append]
  · exact Inv.fresh _ (Wrapper.new env.cursor) o rfl

/-- **Both invariants hold along every run.** -/
theorem Inv.move {w : Worker α} (hi : w.Inv) (env : Env α) : (w.move cfg pid env).1.Inv := by
  unfold Worker.move
  split <;> rename_i hp
  case h_1 =>
    split
    · rename_i wr hwr
      rw [Wrapper.initEnv_eq_some hwr]
      exact hi.setPhase _ fun _ => by rw [hp]; rfl
    · exact hi.setPhase _ nofun
  case h_2 => exact hi.setPhase _ fun _ => by rw [hp]; rfl
  case h_3 => exact hi.publishFresh env 0
  case h_4 => exact hi.setPhase _ fun _ => by rw [hp]; rfl
  case h_5 =>
    split
    · exact hi.crash
    · exact hi.setPhase _ fun _ => by rw [hp]; rfl
  case h_6 =>
    split
    · rename_i wr hwr
      rw [Wrapper.initEnv_eq_some hwr]
      exact ⟨rfl, nofun⟩
    · split
      · exact hi.crash
      · exact ⟨rfl, fun h => by rw [hp] at h; cases h⟩
  case h_7 => exact hi.publishFresh env 1
  case h_8 => exact hi.runChunk pid hp env
  case h_9 =>
    split
    · exact hi.setPhase _ fun _ => by rw [hp]; rfl
    · exact hi.crash
  case h_10 => exact hi.setPhase _ fun _ => by rw [hp]; rfl
  case h_11 => exact hi

omit [Zero α] [One α] in
theorem Inv.init : (Worker.init : Worker α).Inv := ⟨rfl, fun _ => rfl⟩

theorem Reachable.inv {w : Worker α} (hw : w.Reachable cfg pid) : w.Inv := by
  induction hw with
  | init => exact Inv.init
  | move env _ ih => exact ih.move pid env

/-! ## The records of step cycles -/

theorem move_chunk {w : Worker α} (hp : w.phase = .chunk) (env : Env α) :
    w.move cfg pid env = w.runChunk cfg pid env := by
  unfold Worker.move; rw [hp]

/-- **A chunk move that publishes.** The rollout ran the sub-steps `cs` on the current
adapter, the record packs the chunk's fields, and the worker keeps that adapter or, after
a success, has a fresh one. -/
theorem chunk_publish (hH : 0 < cfg.horizon) {w : Worker α} (hi : w.Inv)
    (hp : w.phase = .chunk) (env : Env α) {res : NdArray α}
    (hpub : (w.move cfg pid env).1.phase = .publish res) :
    ∃ (wr : Wrapper α) (cs : List (AdapterCall α)) (acc : Acc α) (f : Fields α),
      wr.calls = w.wrapper.calls ++ cs ∧
      cs.map AdapterCall.stepDone = (List.range (min cfg.horizon
        (firstDone env.reply.steps cfg.horizon 0 + 1))).map
          (fun t => some (env.reply.steps t).done) ∧
      acc.obsList = cs.map AdapterCall.obs ∧
      acc.obsList = (List.range (min cfg.horizon
        (firstDone env.reply.steps cfg.horizon 0 + 1))).map (fun t => (env.reply.steps t).obs) ∧
      (∀ x ∈ cs, x.isStep) ∧ cs ≠ [] ∧
      wr.finishStep = wr.stepCount ∧
      acc.terminated = decide (firstDone env.reply.steps cfg.horizon 0 < cfg.horizon) ∧
      acc.reward = flag (decide (firstDone env.reply.steps cfg.horizon 0 < cfg.horizon)) ∧
      acc.truncated = (decide (cfg.stepLim ≤ wr.finishStep) &&
        !decide (firstDone env.reply.steps cfg.horizon 0 < cfg.horizon)) ∧
      chunkFields cfg w.prevObs acc = some f ∧ f.pack = some res ∧
      (acc.terminated = false → (w.move cfg pid env).1.wrapper = wr) ∧
      (acc.terminated = true → (w.move cfg pid env).1.wrapper.stepCount = 0) := by
  rw [move_chunk pid hp] at hpub ⊢
  rcases runChunk_cases pid w env with h | ⟨row, wr, acc, f, res', hrow, hroll, hf, hres, hpub'⟩
  · rw [h] at hpub; cases hpub
  obtain ⟨cs, hc, hd, ho, ho', hs, hne, hfs, ht, hw, htr⟩ :=
    rollout_chunk (shape_of_inputActions hrow) hH hroll
  have hcount : wr.finishStep = wr.stepCount := by
    rw [hfs, hi.finishStep, Wrapper.stepCount, Wrapper.stepCount, hc, List.filter_append,
      List.filter_eq_self.mpr hs, List.length_append]
  have hres' : res' = res := by
    rcases hpub' with ⟨-, h⟩ | ⟨-, o, h⟩ <;> rw [h] at hpub <;> exact Phase.publish.inj hpub
  subst hres'
  refine ⟨wr, cs, acc, f, hc, hd, ho, ho', hs, hne, hcount, ht, hw, htr, hf, hres, fun hf => ?_,
    fun hf => ?_⟩
  · rcases hpub' with ⟨-, h⟩ | ⟨h', -⟩
    · rw [h]
    · rw [hf] at h'; cases h'
  · rcases hpub' with ⟨h', -⟩ | ⟨-, o, h⟩
    · rw [hf] at h'; cases h'
    · rw [h]; rfl

/-! ## A worker on blank observations

Worker 0 of a pool of one with `HORIZON = 1`, on observations of the configured shapes,
reaches its first chunk after its initial push and one dispatch (`reachable_blank`). There a
sub-step that reports no success leaves a record with zero flags and keeps the adapter; a
sub-step that succeeds leaves reward and `terminated` 1 and a new adapter from the
auto-reset; a sub-step whose `get_obs` fails makes the worker raise. -/

/-- An observation of the configured shapes, all zero: three `240 x 320 x 3` camera images
and a 14-entry joint state. -/
def blankObs : Observation Nat :=
  ⟨.zeros imageShape, .zeros imageShape, .zeros imageShape, .zeros [actionDim]⟩

/-- What worker 0 of a pool of one with `HORIZON = 1` reads at every move: no reset, a
zero batch, seed 0, and a simulator whose setup and `get_obs` succeed and whose sub-steps
report no success. -/
def blankEnv : Env Nat :=
  ⟨false, List.replicate actionDim 0, 0,
    ⟨⟨true, true, false⟩, (some blankObs, none), fun _ => ⟨some false, some blankObs⟩⟩⟩

/-- `blankEnv` whose simulator reports success at every sub-step. -/
def doneEnv : Env Nat :=
  { blankEnv with reply := { blankEnv.reply with steps := fun _ => ⟨some true, some blankObs⟩ } }

/-- The worker of `blankEnv` after its initial push and the first dispatch: at a chunk. -/
theorem reachable_blank :
    ((Worker.init : Worker Nat).run ⟨1, 1, 100⟩ 0 (List.replicate 7 blankEnv)).Reachable
      ⟨1, 1, 100⟩ 0 :=
  Reachable.run _ _ .init _

/-- `blankEnv`'s worker at its first chunk. -/
def blankWorker : Worker Nat := (Worker.init : Worker Nat).run ⟨1, 1, 100⟩ 0 (List.replicate 7 blankEnv)

/-- **A lost observation at the last sub-step raises.** The adapter's `step` returns
`obs = None` when `get_obs` fails; when that happens at the chunk's last sub-step, the
worker raises (in `update_obs`) while it holds its go-signal. -/
theorem chunk_raises_of_lost_obs (hH : 0 < cfg.horizon) {w : Worker α}
    (hw : w.Reachable cfg pid) (hp : w.phase = .chunk) (env : Env α)
    (hlost : (env.reply.steps
      (min cfg.horizon (firstDone env.reply.steps cfg.horizon 0 + 1) - 1)).obs = none) :
    (w.move cfg pid env).1.phase = .dead true := by
  have hn := move_next cfg pid w env
  rw [hp] at hn
  rcases hn.1 with ⟨res, hm⟩ | hm
  · obtain ⟨_, _, acc, f, -, -, -, ho, -, -, -, -, -, -, hf, -⟩ :=
      chunk_publish pid hH hw.inv hp env hm
    obtain ⟨_, _, _, -, hB, -⟩ := chunkFields_eq_some hf
    have hk : 0 < min cfg.horizon (firstDone env.reply.steps cfg.horizon 0 + 1) := by omega
    rw [lastObs, ho, List.getLast?_map, List.getLast?_range, if_neg (by omega), Option.map_some',
      Option.getD_some, hlost] at hB
    cases hB
  · exact hm

/-- `blankEnv` whose simulator's `get_obs` fails at every sub-step. -/
def lostObsEnv : Env Nat :=
  { blankEnv with reply := { blankEnv.reply with steps := fun _ => ⟨some false, none⟩ } }

theorem chunk_raises_of_lost_obs_blank :
    let cfg : Config := ⟨1, 1, 100⟩
    let w := (Worker.init : Worker Nat).run cfg 0 (List.replicate 7 blankEnv)
    0 < cfg.horizon ∧ w.Reachable cfg 0 ∧ w.phase = .chunk ∧
      (lostObsEnv.reply.steps
        (min cfg.horizon (firstDone lostObsEnv.reply.steps cfg.horizon 0 + 1) - 1)).obs = none ∧
      (w.move cfg 0 lostObsEnv).1.phase = .dead true :=
  ⟨Nat.one_pos, reachable_blank, rfl, rfl,
    chunk_raises_of_lost_obs 0 Nat.one_pos reachable_blank rfl lostObsEnv rfl⟩

end Worker

end RoboTwinPool
