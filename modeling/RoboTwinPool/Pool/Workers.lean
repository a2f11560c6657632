import RoboTwinPool.Pool.Safety

set_option autoImplicit false

/-! # The workers of the pool

Each worker of a reachable pool is a run of the worker machine of `Worker/Run.lean`
(`reachable_workers`): the pool only interleaves the workers' moves and supplies what each
of them reads, so every fact about worker runs holds of the pool's workers. A worker that
raises while it holds a go-signal owes the controller a done-signal it will never send:
from then on no call of the pool returns (`dead_holding_blocks`). The lost observation of
`Worker/Run.lean` is such a raise (`step_hangs_on_lost_observation`), and so is a reseed whose
`initialize` raises `SystemExit`. Dead processes are the
only way a cycle stops: while no process has raised holding a go-signal and one is alive,
the controller or some worker can always move (`busy_pool_moves`). And each slice of the
result buffer has one writer, the worker it belongs to (`slice_writer`).
-/

namespace RoboTwinPool

namespace Pool

variable {α : Type} [Zero α] [One α] {cfg : Config} {s s' : Pool α}

/-! ## Workers are runs of the worker machine -/

/-- **The pool refines its workers' runs.** Worker `i` of a reachable pool is a state that
worker `i` reaches on its own. -/
theorem reachable_workers (hs : Reachable cfg s) :
    ∀ (i : Nat) (w : Worker α), s.workers[i]? = some w → w.Reachable cfg i := by
  refine hs.inv
    (P := fun s => ∀ (i : Nat) (w : Worker α), s.workers[i]? = some w → w.Reachable cfg i)
    (by simp [init]) fun l hi h => ?_
  cases l with
  | call =>
    rcases call_cases h with ⟨-, rfl⟩ | ⟨-, _, _, rfl⟩ | ⟨-, rfl⟩ | ⟨-, rfl⟩ | ⟨-, rfl⟩
    · intro i w hw
      rw [List.eq_of_mem_replicate (List.getElem?_mem hw)]
      exact .init
    iterate 3 exact hi
    · simp
  | ctrl =>
    rcases ctrlMove_cases h with ⟨_, _, -, rfl⟩ | ⟨_, -, rfl⟩ | ⟨_, _, -, -, rfl⟩ | ⟨_, -, rfl⟩
    iterate 4 exact hi
  | worker j reply =>
    obtain ⟨w, hw, -, -, rfl⟩ := workerMove_cases h
    intro i w' hw'
    by_cases hij : j = i
    · subst hij
      rw [List.getElem?_set_self (List.getElem?_eq_some_iff.mp hw).1] at hw'
      cases hw'
      exact (hi j w hw).move _
    · exact hi i w' (by simpa [hij] using hw')

/-- In the `reset()` of `resetTwo`, both workers of the pool are runs of the worker machine. -/
theorem reachable_workers_in_reset :
    ∃ s, (init : Pool Nat).run ⟨2, 1, 100⟩ resetTwo = some s ∧ Reachable ⟨2, 1, 100⟩ s ∧
      s.workers.length = 2 ∧
      ∀ (i : Nat) (w : Worker Nat), s.workers[i]? = some w → w.Reachable ⟨2, 1, 100⟩ i := by
  obtain ⟨s, hrun, hl⟩ : ∃ s, (init : Pool Nat).run ⟨2, 1, 100⟩ resetTwo = some s ∧
      s.workers.length = 2 := ⟨_, rfl, rfl⟩
  have hs := Reachable.run _ .init hrun
  exact ⟨s, hrun, hs, hl, reachable_workers hs⟩

/-! ## A worker that raises while holding blocks the pool -/

omit [Zero α] [One α] in
theorem holdCount_pos {ws : List (Worker α)} {i : Nat} {w : Worker α} (hw : ws[i]? = some w)
    (hh : w.phase.holding = true) : 0 < holdCount ws :=
  List.countP_pos_iff.mpr ⟨w, List.getElem?_mem hw, hh⟩

/-- One move with a dead worker holding a go-signal: no call returns, and the worker stays. -/
theorem step_of_dead_holding (hb : Balanced cfg s) {i : Nat} {w : Worker α}
    (hw : s.workers[i]? = some w) (hd : w.phase = .dead true) {l : Label α}
    (h : s.step cfg l = some s') : s'.returned = s.returned ∧ s'.workers[i]? = some w := by
  have hout : 0 < s.ctrl.outstanding cfg.nEnvs := by
    have := hb.count
    have := holdCount_pos hw (by rw [hd]; rfl)
    omega
  cases l with
  | call =>
    rcases call_cases h with ⟨he, -⟩ | ⟨he, -⟩ | ⟨he, -⟩ | ⟨he, -⟩ | ⟨he, -⟩ <;>
      exact absurd (outstanding_eq_zero (c := s.ctrl) (by simp [he]) cfg.nEnvs) (by omega)
  | ctrl =>
    rcases ctrlMove_cases h with ⟨_, _, -, rfl⟩ | ⟨_, -, rfl⟩ | ⟨_, _, -, -, rfl⟩ | ⟨_, he, -⟩
    iterate 3 exact ⟨rfl, hw⟩
    rw [he] at hout; cases hout
  | worker j reply =>
    obtain ⟨w', hw', hnd, -, rfl⟩ := workerMove_cases h
    by_cases hij : j = i
    · subst hij
      rw [hw] at hw'; cases hw'
      rw [hd] at hnd; cases hnd
    · exact ⟨apply_returned cfg, by simpa [List.getElem?_set, hij] using hw⟩

/-- **A worker that raises holding a go-signal blocks the pool.** From a reachable state
with such a worker, no run of the pool returns from any call. -/
theorem dead_holding_blocks (hs : Reachable cfg s) (hd : Phase.dead true ∈ s.workers.map (·.phase))
    {ls : List (Label α)} (h : s.run cfg ls = some s') : s'.returned = s.returned := by
  obtain ⟨w, hmem, hw⟩ := List.mem_map.mp hd
  obtain ⟨i, hi⟩ := List.mem_iff_getElem?.mp hmem
  clear hd hmem
  induction ls generalizing s with
  | nil => cases h; rfl
  | cons l ls ih =>
    simp only [run, Option.bind_eq_bind] at h
    cases hl : s.step cfg l with
    | none => rw [hl] at h; cases h
    | some s1 =>
      rw [hl] at h
      obtain ⟨hr, hi1⟩ := step_of_dead_holding (reachable_balanced hs) hi hw hl
      rw [ih (hs.step l hl) h hi1, hr]

/-- A simulator whose task class does not import or build: `get_robotwin2_task` raises
`SystemExit` in `initialize`. -/
def exitReply : Reply Nat := { Worker.blankEnv.reply with setup := ⟨false, false, true⟩ }

/-- `initTwo`, then `reset()`, in which worker 0 takes a go-signal and its reseed raises
`SystemExit`. -/
def resetExit : List (Label Nat) :=
  initTwo ++ [.call .reset, .ctrl, .ctrl, .ctrl] ++
    List.replicate 2 (.worker 0 Worker.blankEnv.reply) ++ [.worker 0 exitReply]

/-- Worker 1 reseeds and answers its go-signal, and the controller takes that done-signal. -/
def afterExit : List (Label Nat) :=
  List.replicate 6 (.worker 1 Worker.blankEnv.reply) ++ [.ctrl]

/-- After `resetExit` the pool still moves (`afterExit`), but the reset never returns. -/
theorem dead_holding_blocks_on_reset_exit :
    ∃ s s', (init : Pool Nat).run ⟨2, 1, 100⟩ resetExit = some s ∧ Reachable ⟨2, 1, 100⟩ s ∧
      Phase.dead true ∈ s.workers.map (·.phase) ∧ s.run ⟨2, 1, 100⟩ afterExit = some s' ∧
      s'.ctrl = .acquiring .reset 1 ∧ s'.returned = s.returned := by
  obtain ⟨s, s', hrun, hfull, hd, hc⟩ : ∃ s s', (init : Pool Nat).run ⟨2, 1, 100⟩ resetExit = some s ∧
      (init : Pool Nat).run ⟨2, 1, 100⟩ (resetExit ++ afterExit) = some s' ∧
      Phase.dead true ∈ s.workers.map (·.phase) ∧ s'.ctrl = .acquiring .reset 1 :=
    ⟨_, _, rfl, rfl, by decide, by decide⟩
  have hrest : s.run ⟨2, 1, 100⟩ afterExit = some s' := by
    rwa [run_append, hrun, Option.some_bind] at hfull
  have hs := Reachable.run _ .init hrun
  exact ⟨s, s', hrun, hs, hd, hrest, hc, dead_holding_blocks hs hd hrest⟩

/-! ## Otherwise a busy pool can always move -/

/-- **A cycle stops only through dead processes.** While the controller is in a cycle, no
process has raised holding a go-signal and one process is alive, the controller or some
worker can move, whatever the simulator replies. A done-signal the controller waits for is
in `output_sem`, held by a live worker, or still a go-signal in `input_sem` that a live
worker can take. -/
theorem busy_pool_moves (hs : Reachable cfg s) (hc : s.ctrl.cycle.isSome)
    (hd : Phase.dead true ∉ s.workers.map (·.phase))
    (hl : ∃ w ∈ s.workers, w.phase.isDead = false) :
    (s.ctrlMove cfg).isSome ∨ ∃ i, ∀ reply, (s.workerMove cfg i reply).isSome := by
  have hb := (reachable_balanced hs).count
  rcases hctrl : s.ctrl with _ | _ | ⟨op, _ | k⟩ | ⟨op, _ | k⟩
  iterate 2 simp [hctrl, Ctrl.cycle] at hc
  iterate 3 exact .inl (by simp [ctrlMove, hctrl])
  by_cases ho : 0 < s.outputSem
  · exact .inl (by simp [ctrlMove, hctrl, ho])
  right
  rw [hctrl] at hb
  simp only [Ctrl.outstanding] at hb
  by_cases hh : 0 < holdCount s.workers
  · obtain ⟨w, hmem, hw⟩ := List.countP_pos_iff.mp hh
    obtain ⟨i, hi⟩ := List.mem_iff_getElem?.mp hmem
    have ha := Phase.holding_alive (by simpa using hw) fun h => hd (List.mem_map.mpr ⟨w, hmem, h⟩)
    exact ⟨i, workerMove_isSome hi ha.1 (by simp [ha.2])⟩
  · obtain ⟨w, hmem, hw⟩ := hl
    obtain ⟨i, hi⟩ := List.mem_iff_getElem?.mp hmem
    exact ⟨i, workerMove_isSome hi hw fun _ => by omega⟩

theorem busy_pool_moves_at_init_process :
    let cfg : Config := ⟨1, 1, 100⟩
    let s := ((init : Pool Nat).step cfg (.call .initProcess)).getD init
    Reachable cfg s ∧ s.ctrl.cycle.isSome ∧ Phase.dead true ∉ s.workers.map (·.phase) ∧
      (∃ w ∈ s.workers, w.phase.isDead = false) ∧
      ((s.ctrlMove cfg).isSome ∨ ∃ i, ∀ reply, (s.workerMove cfg i reply).isSome) := by
  intro cfg s
  have hs : Reachable cfg s :=
    .step _ .init (rfl : (init : Pool Nat).step cfg (.call .initProcess) = some s)
  exact ⟨hs, rfl, by decide, by decide, busy_pool_moves hs rfl (by decide) (by decide)⟩

/-! ## Each slice of the result buffer has one writer -/

/-- The result buffer has a slice for every process whenever the pool has processes. -/
def ResultsSized (cfg : Config) (s : Pool α) : Prop :=
  s.workers = [] ∨ s.shareResults.length = cfg.nEnvs * cfg.resultSize

/-- A worker writes only at its publish: its own slice, with a record of `result_size`
elements. -/
theorem write_of_move {i : Nat} {w : Worker α} {env : Env α} {d : List α}
    (h : (w.move cfg i env).2 = .write d) : i < cfg.nEnvs ∧ d.length = cfg.resultSize := by
  have hn := Worker.move_next cfg i w env
  rw [h] at hn
  have hs := hn.eq_signal_of_write
  obtain ⟨res, hp⟩ := (hs ▸ hn).eq_publish_of_signal
  obtain ⟨hm, hi, hsize⟩ := Worker.move_publish hp hs
  rw [hm] at h
  cases h
  exact ⟨hi, by rw [res.length_data_eq_size, hsize]⟩

theorem slice_fits {i : Nat} (hi : i < cfg.nEnvs) :
    cfg.resultSize * (i + 1) ≤ cfg.nEnvs * cfg.resultSize := by
  rw [Nat.mul_comm]; exact Nat.mul_le_mul_right _ hi

theorem ResultsSized.step (hi : ResultsSized cfg s) {l : Label α} (h : s.step cfg l = some s') :
    ResultsSized cfg s' := by
  cases l with
  | call =>
    rcases call_cases h with ⟨-, rfl⟩ | ⟨-, _, _, rfl⟩ | ⟨-, rfl⟩ | ⟨-, rfl⟩ | ⟨-, rfl⟩
    · exact .inr (by simp)
    iterate 3 exact hi
    · exact .inl rfl
  | ctrl =>
    rcases ctrlMove_cases h with ⟨_, _, -, rfl⟩ | ⟨_, -, rfl⟩ | ⟨_, _, -, -, rfl⟩ | ⟨_, -, rfl⟩
    iterate 4 exact hi
  | worker i reply =>
    obtain ⟨w, hw, -, -, rfl⟩ := workerMove_cases h
    have hlen := hi.resolve_left fun he => by simp [he] at hw
    refine .inr ?_
    generalize he : (w.move cfg i (s.envOf reply)).2 = e
    cases e with
    | write d =>
      obtain ⟨hi', hd⟩ := write_of_move he
      simp only [apply]
      rw [length_writeSlice hd (hlen ▸ slice_fits hi'), hlen]
    | none | acquire | claim | release => exact hlen

theorem reachable_resultsSized (hs : Reachable cfg s) : ResultsSized cfg s :=
  hs.inv (.inl rfl) fun _ hi h => hi.step h

/-- **Each slice of the result buffer has one writer.** A move that changes slice `j` is
`init_process` allocating the buffer or a move of worker `j`: no other worker writes it, and
no other move of the controller writes the buffer at all. Worker `j`'s write is the slice
assignment `results[R * j : R * (j + 1)] = result` of a record of exactly `result_size`
elements, with `j < n_envs`. -/
theorem slice_writer (hs : Reachable cfg s) {l : Label α} (h : s.step cfg l = some s') (j : Nat)
    (hch : block cfg.resultSize j s'.shareResults ≠ block cfg.resultSize j s.shareResults) :
    l = .call .initProcess ∨
      ∃ reply, l = .worker j reply ∧ j < cfg.nEnvs ∧ ∃ d : List α, d.length = cfg.resultSize ∧
        s'.shareResults = writeSlice s.shareResults cfg.resultSize j d := by
  cases l with
  | call req =>
    rcases call_cases h with ⟨hcl, -⟩ | ⟨-, _, _, rfl⟩ | ⟨-, rfl⟩ | ⟨-, rfl⟩ | ⟨-, rfl⟩
    · left; cases req <;> first | rfl | simp [Pool.step, call, hcl] at h
    all_goals exact absurd rfl hch
  | ctrl =>
    rcases ctrlMove_cases h with ⟨_, _, -, rfl⟩ | ⟨_, -, rfl⟩ | ⟨_, _, -, -, rfl⟩ | ⟨_, -, rfl⟩
    all_goals exact absurd rfl hch
  | worker i reply =>
    obtain ⟨w, hw, -, -, rfl⟩ := workerMove_cases h
    have hlen := (reachable_resultsSized hs).resolve_left fun he => by simp [he] at hw
    generalize he : (w.move cfg i (s.envOf reply)).2 = e at hch ⊢
    cases e with
    | write d =>
      obtain ⟨hi', hd⟩ := write_of_move he
      by_cases hij : i = j
      · subst hij
        exact .inr ⟨reply, rfl, hi', d, hd, rfl⟩
      · exact absurd (block_writeSlice_of_ne hd (hlen ▸ slice_fits hi') (Ne.symm hij)) hch
    | none | acquire | claim | release => exact absurd rfl hch

/-- `blankObs` with a joint state of ones. -/
def onesObs : Observation Nat :=
  { Worker.blankObs with jointAction := .ofList (List.replicate actionDim 1) }

/-- `blankEnv`'s simulator, whose `get_obs` delivers `onesObs`. -/
def onesReply : Reply Nat := { Worker.blankEnv.reply with obs := (some onesObs, none) }

/-- `init_process` on a pool of one with `HORIZON = 1`, up to the worker's publish of its
initial push of `onesObs`. -/
def pushOne : List (Label Nat) :=
  [.call .initProcess, .ctrl, .ctrl] ++ List.replicate 3 (.worker 0 onesReply)

/-- The worker's write of its initial push changes its slice from the zeros `init_process`
allocated to the record of `onesObs`, which holds the joint state. -/
theorem slice_writer_at_initial_push :
    ∃ s s', (init : Pool Nat).run ⟨1, 1, 100⟩ pushOne = some s ∧ Reachable ⟨1, 1, 100⟩ s ∧
      s.step ⟨1, 1, 100⟩ (.worker 0 onesReply) = some s' ∧
      block (⟨1, 1, 100⟩ : Config).resultSize 0 s'.shareResults ≠
        block (⟨1, 1, 100⟩ : Config).resultSize 0 s.shareResults ∧
      ((.worker 0 onesReply : Label Nat) = .call .initProcess ∨
        ∃ reply, (.worker 0 onesReply : Label Nat) = .worker 0 reply ∧
          0 < (⟨1, 1, 100⟩ : Config).nEnvs ∧ ∃ d : List Nat,
            d.length = (⟨1, 1, 100⟩ : Config).resultSize ∧
            s'.shareResults = writeSlice s.shareResults (⟨1, 1, 100⟩ : Config).resultSize 0 d) := by
  obtain ⟨s, s', w, res, hrun, hstep, -, -, hres, hbuf, hbuf'⟩ : ∃ (s s' : Pool Nat)
      (w : Worker Nat) (res : NdArray Nat), (init : Pool Nat).run ⟨1, 1, 100⟩ pushOne = some s ∧
      s.step ⟨1, 1, 100⟩ (.worker 0 onesReply) = some s' ∧ s.workers = [w] ∧
      w.phase = .publish res ∧ (freshFields ⟨1, 1, 100⟩ (some onesObs) 0).bind Fields.pack = some res ∧
      s.shareResults = List.replicate (1 * (⟨1, 1, 100⟩ : Config).resultSize) 0 ∧
      s'.shareResults = writeSlice s.shareResults (⟨1, 1, 100⟩ : Config).resultSize 0 res.data :=
    ⟨_, _, _, _, rfl, rfl, rfl, rfl, rfl, rfl, rfl⟩
  have hs := Reachable.run _ .init hrun
  obtain ⟨f, hf, hsz, -, -, -, hst⟩ :=
    freshFields_sized ⟨1, 1, 100⟩ (show onesObs.Shaped by decide) (0 : Nat)
  obtain ⟨ims, r, -, -, hr, hrs, hrd⟩ := hsz.pack_eq
  rw [hf, Option.some_bind, hr, Option.some.injEq] at hres
  subst hres
  have hch : block (⟨1, 1, 100⟩ : Config).resultSize 0 s'.shareResults ≠
      block (⟨1, 1, 100⟩ : Config).resultSize 0 s.shareResults := by
    have hlen : r.data.length = (⟨1, 1, 100⟩ : Config).resultSize := by
      rw [r.length_data, hrs, List.prod_singleton]
    rw [hbuf', block_writeSlice_self hlen (by simp [hbuf]), hbuf]
    intro he
    have h1 : 1 ∈ r.data := by simp [hrd, hst, onesObs, actionDim]
    rw [he] at h1
    exact one_ne_zero (List.eq_of_mem_replicate (List.mem_of_mem_drop (List.mem_of_mem_take h1)))
  exact ⟨s, s', hrun, hs, hstep, hch, slice_writer hs hstep 0 hch⟩

/-- `init_process` on a pool of one with `HORIZON = 1`, then `step(None)`, in whose chunk
the simulator's `get_obs` fails. -/
def lostObsRun : List (Label Nat) :=
  [.call .initProcess, .ctrl, .ctrl] ++ List.replicate 5 (.worker 0 Worker.blankEnv.reply) ++
    [.ctrl, .ctrl, .call (.step none), .ctrl, .ctrl] ++
    List.replicate 3 (.worker 0 Worker.lostObsEnv.reply)

/-- **A lost observation kills the worker of `step`.** In the run above the worker raises
in `update_obs(None)` holding the go-signal of `step(None)`, while the controller waits
for its done-signal. -/
theorem step_hangs_on_lost_observation :
    ∃ s, (init : Pool Nat).run ⟨1, 1, 100⟩ lostObsRun = some s ∧
      s.workers.map (·.phase) = [.dead true] ∧
      s.ctrl = .acquiring (.step (List.replicate actionDim 0) true) 1 ∧ s.outputSem = 0 ∧
      s.returned.length = 1 :=
  ⟨_, rfl, by decide⟩

end Pool

end RoboTwinPool
