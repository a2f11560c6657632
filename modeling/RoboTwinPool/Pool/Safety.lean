import RoboTwinPool.Pool.Controller
import RoboTwinPool.Worker.Run

set_option autoImplicit false

/-! # The handshake and the shared buffers in every reachable state

**The handshake.** A go-signal of the current cycle is always in exactly one of three
places: released and not yet acquired (`input_sem`), held by a worker that has not yet
answered it, or answered and not yet acquired by the controller (`output_sem`). Their sum
is what the controller has released minus what it has acquired in the cycle
(`Balanced`). At the end of a cycle the controller has acquired as many done-signals as
it released go-signals, so all three places are empty: no worker is between its acquire
and its release when the controller reads the result buffer, and none when it writes the
action buffer or `reset_event` at the start of the next call
(`controller_access_after_all_done`). The invariant counts go-signals, not workers: one
worker can answer two of them in one cycle while another answers none
(`init_process_race`).

**The action buffer and the reset flag.** Only a `step` call writes the action buffer, and
the controller is then in that call's cycle until it returns, so during the cycle every
worker reads the batch of the call (`step_actions`). Likewise `reset_event` is set exactly
during the cycles of `reset()` (`resetEvent_iff`).
-/

namespace RoboTwinPool

variable {α : Type}

/-! ## Counting -/

/-- The number of processes that hold an unanswered go-signal. -/
def holdCount (ws : List (Worker α)) : Nat := ws.countP (·.phase.holding)

/-- The go-signals of the current cycle that the controller has released and not yet
seen answered: released minus acquired done-signals. -/
def Ctrl.outstanding (N : Nat) : Ctrl α → Nat
  | .cleared | .idle => 0
  | .releasing _ k => N - k
  | .acquiring _ k => k

/-- The operation of the cycle the controller is running. -/
def Ctrl.cycle : Ctrl α → Option (Op α)
  | .releasing op _ | .acquiring op _ => some op
  | _ => none

/-- The counter of a cycle does not exceed `n_envs`. -/
def Ctrl.Bounded (N : Nat) : Ctrl α → Prop
  | .releasing _ k | .acquiring _ k => k ≤ N
  | _ => True

theorem countP_set {β : Type} (p : β → Bool) (l : List β) (i : Nat) (x y : β)
    (h : l[i]? = some y) :
    (l.set i x).countP p + (if p y then 1 else 0) = l.countP p + (if p x then 1 else 0) := by
  induction l generalizing i with
  | nil => simp at h
  | cons a l ih =>
    cases i with
    | zero =>
      simp only [List.getElem?_cons_zero, Option.some.injEq] at h
      subst h
      simp only [List.set_cons_zero, List.countP_cons]
      omega
    | succ i =>
      simp only [List.getElem?_cons_succ] at h
      simp only [List.set_cons_succ, List.countP_cons]
      have := ih i h
      omega

theorem holdCount_replicate_init (n : Nat) :
    holdCount (List.replicate n (Worker.init : Worker α)) = 0 := by
  simp [holdCount, List.countP_replicate, Worker.init, Phase.holding]

namespace Pool

/-- **The counting invariant of the handshake.** -/
structure Balanced (cfg : Config) (s : Pool α) : Prop where
  count : s.inputSem + holdCount s.workers + s.outputSem = s.ctrl.outstanding cfg.nEnvs
  bounded : s.ctrl.Bounded cfg.nEnvs
  cleared : s.ctrl = .cleared → s.workers = []

/-- At a point where the controller has nothing outstanding, nothing is anywhere. -/
theorem Balanced.quiet {cfg : Config} {s : Pool α} (h : Balanced cfg s)
    (hc : s.ctrl.outstanding cfg.nEnvs = 0) :
    s.inputSem = 0 ∧ s.outputSem = 0 ∧ ∀ w ∈ s.workers, w.phase.holding = false := by
  have hcount := h.count
  rw [hc] at hcount
  refine ⟨by omega, by omega, fun w hw => ?_⟩
  have : holdCount s.workers = 0 := by omega
  simpa using List.countP_eq_zero.mp this w hw

variable [Zero α] [One α] {cfg : Config} {s s' : Pool α}

/-- An invariant of every reachable state: it holds initially and every move keeps it. -/
theorem Reachable.inv {P : Pool α → Prop} (h0 : P Pool.init)
    (hs : ∀ {s s' : Pool α} (l : Label α), P s → s.step cfg l = some s' → P s')
    (h : Reachable cfg s) : P s := by
  induction h with
  | init => exact h0
  | step l _ h ih => exact hs l ih h

omit [Zero α] [One α] in
theorem outstanding_eq_zero {c : Ctrl α} (h : c = .cleared ∨ c = .idle) (N : Nat) :
    c.outstanding N = 0 := by
  rcases h with rfl | rfl <;> rfl

/-! ## The handshake -/

omit [Zero α] [One α] in
theorem Balanced.init : Balanced cfg (init : Pool α) := ⟨rfl, trivial, fun _ => rfl⟩

omit [One α] in
theorem Balanced.call (hb : Balanced cfg s) {req : Request α} (h : s.call cfg req = some s') :
    Balanced cfg s' := by
  have hc := hb.count
  rcases call_cases h with ⟨-, rfl⟩ | ⟨he, _, _, rfl⟩ | ⟨-, rfl⟩ | ⟨he, rfl⟩ | ⟨he, rfl⟩
  · exact ⟨by simp [holdCount_replicate_init, Ctrl.outstanding], le_refl _, nofun⟩
  · rw [he] at hc
    exact ⟨by simpa only [Ctrl.outstanding, Nat.sub_self] using hc, le_refl _, nofun⟩
  · exact ⟨hc, hb.bounded, hb.cleared⟩
  · rw [he] at hc
    exact ⟨by simpa only [Ctrl.outstanding, Nat.sub_self] using hc, le_refl _, nofun⟩
  · rw [he] at hc
    exact ⟨show s.inputSem + 0 + s.outputSem = 0 by simp only [Ctrl.outstanding] at hc; omega,
      trivial, fun _ => rfl⟩

omit [Zero α] [One α] in
theorem Balanced.ctrlMove (hb : Balanced cfg s) (h : s.ctrlMove cfg = some s') :
    Balanced cfg s' := by
  have hc := hb.count
  have hbd := hb.bounded
  rcases ctrlMove_cases h with ⟨_, _, he, rfl⟩ | ⟨_, he, rfl⟩ | ⟨_, _, he, hpos, rfl⟩ | ⟨_, he, rfl⟩
  all_goals simp only [he, Ctrl.outstanding, Ctrl.Bounded] at hc hbd
  · exact ⟨by simp only [Ctrl.outstanding]; omega, by simp only [Ctrl.Bounded]; omega, nofun⟩
  · exact ⟨by simpa [Ctrl.outstanding] using hc, le_refl _, nofun⟩
  · exact ⟨by simp only [Ctrl.outstanding]; omega, by simp only [Ctrl.Bounded]; omega, nofun⟩
  · exact ⟨by simpa [finish, Ctrl.outstanding] using hc, trivial, nofun⟩

theorem Balanced.workerMove (hb : Balanced cfg s) {i : Nat} {reply : Reply α}
    (h : s.workerMove cfg i reply = some s') : Balanced cfg s' := by
  obtain ⟨w, hw, -, hgo, rfl⟩ := workerMove_cases h
  have hn := Worker.move_next cfg i w (s.envOf reply)
  have hset := countP_set (·.phase.holding) s.workers i (w.move cfg i (s.envOf reply)).1 w hw
  have hc := hb.count
  refine ⟨?_, by simpa using hb.bounded, fun hcl => ?_⟩
  · simp only [apply_workers, apply_ctrl, holdCount] at hc ⊢
    generalize w.move cfg i (s.envOf reply) = r at hn hset ⊢
    obtain ⟨r, e⟩ := r
    cases e with
    | acquire =>
      obtain ⟨hg, h0, h1⟩ := hn.holding_of_acquire
      have := hgo hg
      simp only [h0, h1, Bool.false_eq_true, ↓reduceIte] at hset
      simp only [apply]; omega
    | release =>
      obtain ⟨h0, h1⟩ := hn.holding_of_release
      have h0 : w.phase.holding = true := by rw [h0]; rfl
      have h1 : r.phase.holding = false := by rw [h1]; rfl
      simp only [h0, h1, Bool.false_eq_true, ↓reduceIte] at hset
      simp only [apply]; omega
    | none | claim | write =>
      simp only [hn.holding_eq nofun nofun] at hset
      simp only [apply]; omega
  · simp [hb.cleared (by simpa using hcl)] at hw

theorem Balanced.step (hb : Balanced cfg s) {l : Label α} (h : s.step cfg l = some s') :
    Balanced cfg s' := by
  cases l with
  | call req => exact hb.call h
  | ctrl => exact hb.ctrlMove h
  | worker i reply => exact hb.workerMove h

theorem reachable_balanced (hs : Reachable cfg s) : Balanced cfg s :=
  hs.inv Balanced.init fun _ hb h => hb.step h

/-! ## The handshake counts go-signals, not workers -/

/-- `init_process` on a pool of two with `HORIZON = 1` and a fast worker 0: the controller
releases both go-signals; worker 0 sets up, pushes its first record, takes the second
go-signal and runs a chunk; the controller acquires both done-signals and returns, while
worker 1 is still setting up its simulator. -/
def initRace : List (Label Nat) :=
  [.call .initProcess, .ctrl, .ctrl, .ctrl] ++
    List.replicate 10 (.worker 0 Worker.blankEnv.reply) ++ [.ctrl, .ctrl, .ctrl]

/-- **One worker can answer two go-signals of one cycle.** After the run above,
`init_process` has returned its decoded results; worker 0 has run a chunk on top of its
initial push, and worker 1 has not run at all, so slice 1 was never written. -/
theorem init_process_race :
    ∃ s, (init : Pool Nat).run ⟨2, 1, 100⟩ initRace = some s ∧ s.ctrl = .idle ∧
      s.returned.length = 1 ∧ s.workers.map (·.phase) = [.await, .boot] ∧
      s.workers.map (·.wrapper.stepCount) = [1, 0] :=
  ⟨_, rfl, by decide⟩

/-! ## Where the controller touches the shared buffers -/

/-- The controller's moves that touch the action buffer, `reset_event` or the result
buffer: a public call (`step` writes the batch, `reset` sets the event, `init_process`
creates the objects) and the end of a cycle (`reset` clears the event, and the result
buffer is read). -/
def Accesses (s : Pool α) : Label α → Prop
  | .call _ => True
  | .ctrl => ∃ op, s.ctrl = .acquiring op 0
  | .worker .. => False

/-- Only an access changes the action buffer, `reset_event` or what the calls returned. -/
theorem accesses_of_changes {l : Label α} (h : s.step cfg l = some s')
    (hch : s'.shareActions ≠ s.shareActions ∨ s'.resetEvent ≠ s.resetEvent ∨
      s'.returned ≠ s.returned) : s.Accesses l := by
  cases l with
  | call => trivial
  | ctrl =>
    rcases ctrlMove_cases h with ⟨_, _, -, rfl⟩ | ⟨_, -, rfl⟩ | ⟨_, _, -, -, rfl⟩ | ⟨op, he, -⟩
    iterate 3 simp at hch
    exact ⟨op, he⟩
  | worker =>
    obtain ⟨_, -, -, -, rfl⟩ := workerMove_cases h
    simp at hch

theorem Balanced.quiet_of_accesses (hb : Balanced cfg s) {l : Label α}
    (h : s.step cfg l = some s') (ha : s.Accesses l) :
    s.inputSem = 0 ∧ s.outputSem = 0 ∧ ∀ w ∈ s.workers, w.phase.holding = false := by
  refine hb.quiet ?_
  cases l with
  | call =>
    rcases call_cases h with ⟨he, -⟩ | ⟨he, -⟩ | ⟨he, -⟩ | ⟨he, -⟩ | ⟨he, -⟩ <;>
      exact outstanding_eq_zero (by simp [he]) _
  | ctrl => obtain ⟨_, he⟩ := ha; rw [he]; rfl
  | worker => exact ha.elim

/-- **No worker holds a go-signal while the controller touches the buffers.** A move that
writes the action buffer, sets or clears `reset_event` or returns decoded results is one of
the controller's accesses; at every access all go-signals released so far have been
acquired and answered, and every done-signal acquired. -/
theorem controller_access_after_all_done {l : Label α} (hs : Reachable cfg s)
    (h : s.step cfg l = some s') :
    ((s'.shareActions ≠ s.shareActions ∨ s'.resetEvent ≠ s.resetEvent ∨
        s'.returned ≠ s.returned) → s.Accesses l) ∧
      (s.Accesses l →
        s.inputSem = 0 ∧ s.outputSem = 0 ∧ ∀ w ∈ s.workers, w.phase.holding = false) :=
  ⟨accesses_of_changes h, (reachable_balanced hs).quiet_of_accesses h⟩

/-- `init_process` on a pool of one with `HORIZON = 1`, through to its return. -/
def initOne : List (Label Nat) :=
  [.call .initProcess, .ctrl, .ctrl] ++ List.replicate 5 (.worker 0 Worker.blankEnv.reply) ++
    [.ctrl, .ctrl]

/-- The end of `init_process`'s cycle on a pool of one: the controller's move that returns
the decoded results is an access, and at it the worker holds nothing. -/
theorem controller_access_at_finish :
    ∃ s s', (init : Pool Nat).run ⟨1, 1, 100⟩ initOne.dropLast = some s ∧
      Reachable ⟨1, 1, 100⟩ s ∧ s.workers.length = 1 ∧ s.step ⟨1, 1, 100⟩ .ctrl = some s' ∧
      s'.returned ≠ s.returned ∧
      (((s'.shareActions ≠ s.shareActions ∨ s'.resetEvent ≠ s.resetEvent ∨
          s'.returned ≠ s.returned) → s.Accesses .ctrl) ∧
        (s.Accesses .ctrl →
          s.inputSem = 0 ∧ s.outputSem = 0 ∧ ∀ w ∈ s.workers, w.phase.holding = false)) := by
  obtain ⟨s, s', hrun, hstep, hw, hr⟩ : ∃ s s', (init : Pool Nat).run ⟨1, 1, 100⟩ initOne.dropLast =
      some s ∧ s.step ⟨1, 1, 100⟩ .ctrl = some s' ∧ s.workers.length = 1 ∧
      s'.returned.length = s.returned.length + 1 := ⟨_, _, rfl, rfl, rfl, rfl⟩
  have hs := Reachable.run _ .init hrun
  exact ⟨s, s', hrun, hs, hw, hstep, fun h => by simp [h] at hr,
    controller_access_after_all_done hs hstep⟩

/-! ## The action buffer -/

/-- During a `step` cycle the action buffer holds the batch the call wrote. -/
def ActionsWritten (s : Pool α) : Prop :=
  ∀ flat null, s.ctrl.cycle = some (.step flat null) → s.shareActions = flat

theorem ActionsWritten.step (hi : s.ActionsWritten) {l : Label α} (h : s.step cfg l = some s') :
    s'.ActionsWritten := by
  intro flat null hc
  cases l with
  | call =>
    rcases call_cases h with ⟨-, rfl⟩ | ⟨-, _, _, rfl⟩ | ⟨-, rfl⟩ | ⟨-, rfl⟩ | ⟨-, rfl⟩
    · cases hc
    · simp only [Ctrl.cycle, Option.some.injEq, Op.step.injEq] at hc
      exact hc.1
    · exact hi flat null hc
    · cases hc
    · cases hc
  | ctrl =>
    rcases ctrlMove_cases h with ⟨_, _, he, rfl⟩ | ⟨_, he, rfl⟩ | ⟨_, _, he, -, rfl⟩ | ⟨_, -, rfl⟩
    iterate 3 exact hi flat null (by rw [he]; exact hc)
    cases hc
  | worker =>
    obtain ⟨_, -, -, -, rfl⟩ := workerMove_cases h
    simpa using hi flat null (by simpa using hc)

theorem reachable_actionsWritten (hs : Reachable cfg s) : s.ActionsWritten :=
  hs.inv (fun _ _ h => by cases h) fun _ hi h => hi.step h

/-- A batch for a pool of one with `HORIZON = 1`: the actions `0, 1, …, 13`. -/
def rampBatch : NdArray Nat := ⟨[1, 1, actionDim], List.range actionDim, by simp [actionDim]⟩

/-- **`reset_event` is set exactly during the cycles of `reset()`.** So a worker that tests
it in a cycle of `init_process` or `step` runs its chunk, and one that tests it in a cycle
of `reset()` reseeds. -/
theorem resetEvent_iff (hs : Reachable cfg s) : s.resetEvent = true ↔ s.ctrl.cycle = some .reset := by
  refine hs.inv (P := fun s => (s.resetEvent = true ↔ s.ctrl.cycle = some .reset))
    (by simp [init, Ctrl.cycle]) fun l hi h => ?_
  cases l with
  | call =>
    rcases call_cases h with ⟨-, rfl⟩ | ⟨he, _, _, rfl⟩ | ⟨-, rfl⟩ | ⟨-, rfl⟩ | ⟨he, rfl⟩
    · simp [Ctrl.cycle]
    · simpa [he, Ctrl.cycle] using hi
    · exact hi
    · simp [Ctrl.cycle]
    · simpa [he, Ctrl.cycle] using hi
  | ctrl =>
    rcases ctrlMove_cases h with ⟨_, _, he, rfl⟩ | ⟨_, he, rfl⟩ | ⟨_, _, he, -, rfl⟩ | ⟨op, he, rfl⟩
    iterate 3 simpa [he, Ctrl.cycle] using hi
    simp only [he, Ctrl.cycle] at hi
    cases op <;> simp_all [finish, Ctrl.cycle]
  | worker =>
    obtain ⟨_, -, -, -, rfl⟩ := workerMove_cases h
    simpa using hi

/-- `init_process` on a pool of two with `HORIZON = 1`, each worker pushing in turn. -/
def initTwo : List (Label Nat) :=
  [.call .initProcess, .ctrl, .ctrl, .ctrl] ++ List.replicate 5 (.worker 0 Worker.blankEnv.reply) ++
    List.replicate 5 (.worker 1 Worker.blankEnv.reply) ++ [.ctrl, .ctrl, .ctrl]

/-- `initTwo`, then `reset()` up to the seed claims of both workers' reseeds. -/
def resetTwo : List (Label Nat) :=
  initTwo ++ [.call .reset, .ctrl, .ctrl, .ctrl] ++
    List.replicate 3 (.worker 0 Worker.blankEnv.reply) ++
    List.replicate 3 (.worker 1 Worker.blankEnv.reply)

/-- Inside the cycle of `reset()` on a pool of two, `reset_event` is set. -/
theorem resetEvent_iff_in_reset :
    ∃ s, (init : Pool Nat).run ⟨2, 1, 100⟩ resetTwo = some s ∧ Reachable ⟨2, 1, 100⟩ s ∧
      s.resetEvent = true ∧ (s.resetEvent = true ↔ s.ctrl.cycle = some .reset) := by
  obtain ⟨s, hrun, he⟩ : ∃ s, (init : Pool Nat).run ⟨2, 1, 100⟩ resetTwo = some s ∧
      s.resetEvent = true := ⟨_, rfl, rfl⟩
  have hs := Reachable.run _ .init hrun
  exact ⟨s, hrun, hs, he, resetEvent_iff hs⟩

end Pool

end RoboTwinPool
