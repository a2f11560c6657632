import RoboTwinPool.Pool.Workers

set_option autoImplicit false

/-! # A pool of one process runs in lockstep

With `n_envs = 1` the one go-signal the controller releases in a cycle can only be taken by
the one process, and the process cannot take another before the next call releases it.
`Lockstep` says where the process is and what the two semaphores hold for every position of
the controller; every move keeps it (`Lockstep.call`, `Lockstep.ctrlMove`,
`Lockstep.workerMove`), so it holds in every reachable state (`reachable_lockstep`).
Between calls and at the end of every cycle the process is blocked at the top of its loop
with both semaphores empty, and inside a cycle its go-signal is pending, held or answered
(`one_worker_lockstep`): every cycle takes the process once around its loop. With two
processes this fails (`init_process_race`).

On top of the positions, `Delivers` follows the data: which cycles each phase of the
process belongs to (a reseed only in `reset()`, with `reset_event` set; a chunk only in
`step`, on the batch the call wrote), the record it is about to write, and, once written,
the result buffer. So the buffer the controller decodes at the end of a cycle is the record
the process published in that cycle (`one_worker_results`): the initial push for
`init_process`, the reseeded adapter's first observation for `reset`, a chunk on the call's
batch for `step`. Through the codec, a cycle of `init_process` or `reset` whose
observation has the configured shapes then returns exactly one entry, with reward and
`terminated` 0 and `truncated` 0 or 1 (`one_worker_fresh`).
-/

namespace RoboTwinPool

namespace Pool

variable {α : Type}

/-! ## Where the process can be -/

/-- Where the process can be before it takes the go-signal of a cycle of `op`: setting up
or blocked before its initial push in `init_process` (or dead of a failed setup), at the top
of its loop otherwise. -/
def Before : Op α → Phase α → Prop
  | .initProcess, p => p = .boot ∨ p = .awaitFirst ∨ p = .dead false
  | .step .., p | .reset, p => p = .await

/-- Inside a cycle of `op`, once the controller has released its go-signal: the signal is
pending in `input_sem`, held by the process, or answered in `output_sem` with the process
back at the top of its loop. -/
def Open (op : Op α) (p : Phase α) (inputSem outputSem : Nat) : Prop :=
  (Before op p ∧ inputSem = 1 ∧ outputSem = 0) ∨
    (p.holding = true ∧ inputSem = 0 ∧ outputSem = 0) ∨
    (p = .await ∧ inputSem = 0 ∧ outputSem = 1)

/-- **The invariant of a pool of one process**, for every position of the controller. -/
def Lockstep (s : Pool α) : Prop :=
  match s.ctrl with
  | .cleared => s.workers = []
  | .idle | .acquiring _ 0 =>
    ∃ w, s.workers = [w] ∧ w.phase = .await ∧ s.inputSem = 0 ∧ s.outputSem = 0
  | .releasing op 1 =>
    ∃ w, s.workers = [w] ∧ Before op w.phase ∧ s.inputSem = 0 ∧ s.outputSem = 0
  | .releasing op 0 | .acquiring op 1 =>
    ∃ w, s.workers = [w] ∧ Open op w.phase s.inputSem s.outputSem
  | _ => False

/-- A move before the go-signal is taken keeps the process before it, or takes it. -/
theorem Before.next {op : Op α} {p p' : Phase α} {e : Effect α} (hb : Before op p)
    (hd : p.isDead = false) (hn : p.Next p' e) :
    (Before op p' ∧ e = .none) ∨ (p.awaitsGo = true ∧ p'.holding = true ∧ e = .acquire) := by
  cases op <;> simp only [Before] at hb
  · rcases hb with rfl | rfl | rfl
    · exact .inl ⟨by rcases hn.1 with rfl | rfl <;> simp [Before], hn.2⟩
    · obtain ⟨rfl, rfl⟩ := hn; exact .inr ⟨rfl, rfl, rfl⟩
    · cases hd
  all_goals subst hb; obtain ⟨rfl, rfl⟩ := hn; exact .inr ⟨rfl, rfl, rfl⟩

theorem getElem?_singleton_eq {β : Type} {a b : β} {i : Nat} (h : [a][i]? = some b) :
    i = 0 ∧ b = a := by
  cases i with
  | zero => simp_all
  | succ => simp at h

variable [Zero α] [One α] {cfg : Config} {s s' : Pool α}

omit [Zero α] [One α] in
/-- One move of the process inside a cycle keeps its go-signal pending, held or answered. -/
theorem Open.next {op : Op α} {w : Worker α} {p' : Phase α} {e : Effect α} {i : Nat}
    (ho : Open op w.phase s.inputSem s.outputSem) (hd : w.phase.isDead = false)
    (hgo : w.phase.awaitsGo = true → 0 < s.inputSem) (hn : w.phase.Next p' e) :
    Open op p' (s.apply cfg i e).inputSem (s.apply cfg i e).outputSem := by
  rcases ho with ⟨hb, h1, h0⟩ | ⟨hh, h1, h0⟩ | ⟨hp, h1, h0⟩
  · rcases hb.next hd hn with ⟨hb', rfl⟩ | ⟨-, hh', rfl⟩
    · exact .inl ⟨hb', h1, h0⟩
    · exact .inr (.inl ⟨hh', by simp only [apply]; omega, h0⟩)
  · cases e with
    | acquire => simp [hn.holding_of_acquire.2.1] at hh
    | release =>
      obtain ⟨-, rfl⟩ := hn.holding_of_release
      exact .inr (.inr ⟨rfl, h1, by simp only [apply]; omega⟩)
    | none | claim | write =>
      exact .inr (.inl ⟨(hn.holding_eq nofun nofun).trans hh, h1, h0⟩)
  · rw [hp] at hgo; exact absurd (hgo rfl) (by omega)

/-! ## Every move keeps it -/

omit [One α] in
theorem Lockstep.call (hN : cfg.nEnvs = 1) (hi : s.Lockstep) {req : Request α}
    (h : s.call cfg req = some s') : s'.Lockstep := by
  rcases call_cases h with ⟨-, rfl⟩ | ⟨he, _, _, rfl⟩ | ⟨-, rfl⟩ | ⟨he, rfl⟩ | ⟨-, rfl⟩
  · simp [Lockstep, hN, Before, Worker.init]
  · simp only [Lockstep, he] at hi; simp only [Lockstep, hN]; exact hi
  · exact hi
  · simp only [Lockstep, he] at hi; simp only [Lockstep, hN]; exact hi
  · rfl

omit [Zero α] [One α] in
theorem Lockstep.ctrlMove (hN : cfg.nEnvs = 1) (hi : s.Lockstep) (h : s.ctrlMove cfg = some s') :
    s'.Lockstep := by
  rcases ctrlMove_cases h with ⟨op, _ | k, he, rfl⟩ | ⟨op, he, rfl⟩ | ⟨op, _ | k, he, hpos, rfl⟩ |
    ⟨op, he, rfl⟩ <;> simp only [Lockstep, he] at hi <;> simp only [Lockstep]
  · obtain ⟨w, hw, hb, h1, h0⟩ := hi
    exact ⟨w, hw, .inl ⟨hb, by omega, h0⟩⟩
  · simp only [hN]; exact hi
  · obtain ⟨w, hw, ⟨-, -, h0⟩ | ⟨-, -, h0⟩ | ⟨hp, h1, h0⟩⟩ := hi
    iterate 2 omega
    exact ⟨w, hw, hp, h1, by omega⟩
  · exact hi

theorem Lockstep.workerMove (hi : s.Lockstep) {i : Nat} {reply : Reply α}
    (h : s.workerMove cfg i reply = some s') : s'.Lockstep := by
  obtain ⟨w, hw, hd, hgo, rfl⟩ := workerMove_cases h
  have hn := Worker.move_next cfg i w (s.envOf reply)
  generalize w.move cfg i (s.envOf reply) = r at hn ⊢
  obtain ⟨r, e⟩ := r
  simp only [Lockstep, apply_ctrl, apply_workers] at hi ⊢
  split at hi
  · simp [hi] at hw
  iterate 2
    obtain ⟨w0, hw0, hp, h1, -⟩ := hi
    rw [hw0] at hw
    rw [(getElem?_singleton_eq hw).2, hp] at hgo
    exact absurd (hgo rfl) (by omega)
  · obtain ⟨w0, hw0, hb, h1, h0⟩ := hi
    rw [hw0] at hw ⊢
    obtain ⟨rfl, rfl⟩ := getElem?_singleton_eq hw
    rcases hb.next hd hn with ⟨hb', rfl⟩ | ⟨hg, -, -⟩
    · exact ⟨r, rfl, hb', h1, h0⟩
    · exact absurd (hgo hg) (by omega)
  iterate 2
    obtain ⟨w0, hw0, ho⟩ := hi
    rw [hw0] at hw ⊢
    obtain ⟨rfl, rfl⟩ := getElem?_singleton_eq hw
    exact ⟨r, rfl, ho.next hd hgo hn⟩
  · exact hi

/-! ## In every reachable state -/

theorem reachable_lockstep (hN : cfg.nEnvs = 1) (hs : Reachable cfg s) : s.Lockstep :=
  hs.inv rfl fun l hi h => by
    cases l with
    | call => exact hi.call hN h
    | ctrl => exact hi.ctrlMove hN h
    | worker => exact hi.workerMove h

/-- **A pool of one process runs in lockstep.** Between calls and at the end of every cycle
the process is blocked at the top of its loop with no go-signal pending and no done-signal
unclaimed; inside a cycle its one go-signal is pending, held or answered. -/
theorem one_worker_lockstep (hN : cfg.nEnvs = 1) (hs : Reachable cfg s) :
    ((s.ctrl = .idle ∨ ∃ op, s.ctrl = .acquiring op 0) →
      ∃ w, s.workers = [w] ∧ w.phase = .await ∧ s.inputSem = 0 ∧ s.outputSem = 0) ∧
    (∀ op, (s.ctrl = .releasing op 0 ∨ s.ctrl = .acquiring op 1) →
      ∃ w, s.workers = [w] ∧ Open op w.phase s.inputSem s.outputSem) := by
  have hl := reachable_lockstep hN hs
  refine ⟨fun hc => ?_, fun op hc => ?_⟩
  · rcases hc with he | ⟨op, he⟩ <;> simpa only [Lockstep, he] using hl
  · rcases hc with he | he <;> simpa only [Lockstep, he] using hl

/-- `initOne`, then `step(None)` up to the release of its go-signal. -/
def stepOpen : List (Label Nat) := initOne ++ [.call (.step none), .ctrl]

/-- After `init_process` on a pool of one the worker is blocked at the top of its loop with
both semaphores empty; once `step(None)` has released its go-signal, that signal is pending,
held or answered. -/
theorem one_worker_lockstep_in_step :
    ∃ s₀ s₁, (init : Pool Nat).run ⟨1, 1, 100⟩ initOne = some s₀ ∧
      (init : Pool Nat).run ⟨1, 1, 100⟩ stepOpen = some s₁ ∧
      (⟨1, 1, 100⟩ : Config).nEnvs = 1 ∧ Reachable ⟨1, 1, 100⟩ s₀ ∧ Reachable ⟨1, 1, 100⟩ s₁ ∧
      s₀.ctrl = .idle ∧ s₁.ctrl = .releasing (.step (List.replicate actionDim 0) true) 0 ∧
      (∃ w, s₀.workers = [w] ∧ w.phase = .await ∧ s₀.inputSem = 0 ∧ s₀.outputSem = 0) ∧
      ∃ w, s₁.workers = [w] ∧
        Open (.step (List.replicate actionDim 0) true) w.phase s₁.inputSem s₁.outputSem := by
  obtain ⟨s₀, s₁, h₀, h₁, hc₀, hc₁⟩ : ∃ s₀ s₁, (init : Pool Nat).run ⟨1, 1, 100⟩ initOne = some s₀ ∧
      (init : Pool Nat).run ⟨1, 1, 100⟩ stepOpen = some s₁ ∧ s₀.ctrl = .idle ∧
      s₁.ctrl = .releasing (.step (List.replicate actionDim 0) true) 0 := ⟨_, _, rfl, rfl, rfl, rfl⟩
  have hs₀ := Reachable.run _ .init h₀
  have hs₁ := Reachable.run _ .init h₁
  exact ⟨s₀, s₁, h₀, h₁, rfl, hs₀, hs₁, hc₀, hc₁, (one_worker_lockstep rfl hs₀).1 (.inl hc₀),
    (one_worker_lockstep rfl hs₁).2 _ (.inl hc₁)⟩

/-! ## The record of every cycle -/

/-- The record a cycle of `op` has the process publish, given the adapter and `prev_obs` it
keeps: for `init_process` and `reset` the record of its observation, with `truncated` 0 (the
initial push) and 1 (the reseed's push); for `step` the record of a chunk that the process,
in a state it reaches on its own, rolls out on the call's batch. -/
def Produced (cfg : Config) (wr : Wrapper α) (prevObs : Option (Observation α))
    (res : NdArray α) : Op α → Prop
  | .initProcess => (freshFields cfg prevObs 0).bind Fields.pack = some res
  | .reset => (freshFields cfg prevObs 1).bind Fields.pack = some res
  | .step flat _ => ∃ (w0 : Worker α) (env : Env α), w0.Reachable cfg 0 ∧ w0.phase = .chunk ∧
      env.actions = flat ∧ (w0.move cfg 0 env).1 = ⟨.publish res, wr, prevObs⟩

/-- The cycles each phase of the process belongs to, and the record it is about to write. -/
def PhaseOk (cfg : Config) (op : Op α) (w : Worker α) : Prop :=
  match w.phase with
  | .first => op = .initProcess
  | .dispatch => op ≠ .initProcess
  | .reseed | .reseedObs => op = .reset
  | .chunk => ∃ flat null, op = .step flat null
  | .publish res => Produced cfg w.wrapper w.prevObs res op
  | _ => True

/-- The process has written its record in the current cycle of `op`: it is about to release
its done-signal, or has released it. -/
def Written (s : Pool α) (op : Op α) (w : Worker α) : Prop :=
  w.phase = .signal ∨ (w.phase = .await ∧ (s.outputSem = 1 ∨ s.ctrl = .acquiring op 0))

/-- **What a pool of one process delivers**: in every cycle the phase of the process fits
the cycle, and once it has written its record the result buffer is that record. -/
structure Delivers (cfg : Config) (s : Pool α) : Prop where
  length : s.ctrl ≠ .cleared → s.shareResults.length = cfg.nEnvs * cfg.resultSize
  phase : ∀ op, s.ctrl.cycle = some op → ∀ w, s.workers = [w] → PhaseOk cfg op w
  written : ∀ op, s.ctrl.cycle = some op → ∀ w, s.workers = [w] → Written s op w →
    ∃ res, s.shareResults = res.data ∧ Produced cfg w.wrapper w.prevObs res op

omit [Zero α] [One α] in
/-- Where the process is inside a cycle of `op`: before taking its go-signal, holding it, or
blocked at the top of its loop with no go-signal pending. -/
theorem Lockstep.inCycle {s : Pool α} (hl : s.Lockstep) {op : Op α}
    (hc : s.ctrl.cycle = some op) :
    ∃ w, s.workers = [w] ∧
      (Before op w.phase ∨ w.phase.holding = true ∨ (w.phase = .await ∧ s.inputSem = 0)) := by
  unfold Lockstep at hl
  split at hl
  iterate 2 simp [Ctrl.cycle, *] at hc
  · obtain ⟨w, hw, hp, h1, -⟩ := hl
    exact ⟨w, hw, .inr (.inr ⟨hp, h1⟩)⟩
  · rename_i op' heq
    obtain ⟨w, hw, hb, -⟩ := hl
    simp only [heq, Ctrl.cycle, Option.some.injEq] at hc
    exact ⟨w, hw, .inl (hc ▸ hb)⟩
  iterate 2
    rename_i op' heq
    simp only [heq, Ctrl.cycle, Option.some.injEq] at hc
    subst hc
    obtain ⟨w, hw, ⟨hb, -⟩ | ⟨hh, -⟩ | ⟨hp, h1, -⟩⟩ := hl
    · exact ⟨w, hw, .inl hb⟩
    · exact ⟨w, hw, .inr (.inl hh)⟩
    · exact ⟨w, hw, .inr (.inr ⟨hp, h1⟩)⟩
  · exact hl.elim

theorem Delivers.call (hN : cfg.nEnvs = 1) (hl : s.Lockstep) (hi : Delivers cfg s)
    {req : Request α} (h : s.call cfg req = some s') : Delivers cfg s' := by
  rcases call_cases h with ⟨-, rfl⟩ | ⟨he, _, _, rfl⟩ | ⟨-, rfl⟩ | ⟨he, rfl⟩ | ⟨-, rfl⟩
  · refine ⟨fun _ => by simp, fun op _ w hw => ?_, fun op _ w hw hwr => ?_⟩ <;>
      simp only [hN, List.replicate_one, List.cons.injEq, and_true] at hw <;> subst hw
    · simp [PhaseOk, Worker.init]
    · simp [Written, Worker.init] at hwr
  on_goal 2 => exact ⟨hi.1, hi.2, hi.3⟩
  iterate 2
    simp only [Lockstep, he] at hl
    obtain ⟨w0, hw0, hp, -, h0⟩ := hl
    refine ⟨fun _ => hi.length (by simp [he]), fun op _ w hw => ?_, fun op _ w hw hwr => ?_⟩ <;>
      simp only [hw0, List.cons.injEq, and_true] at hw <;> subst hw
    · simp [PhaseOk, hp]
    · simp [Written, hp, h0] at hwr
  · exact ⟨fun h => absurd rfl h, fun _ hc => (nomatch hc), fun _ hc => (nomatch hc)⟩

/-- A move that keeps the cycle, the process and the result buffer, and after which the
process has written no record it had not written before, keeps `Delivers`. -/
theorem Delivers.frame (hi : Delivers cfg s) (hcl : s.ctrl ≠ .cleared)
    (hc : s'.ctrl.cycle = s.ctrl.cycle) (hw : s'.workers = s.workers)
    (hr : s'.shareResults = s.shareResults) (hwr : ∀ op w, Written s' op w → Written s op w) :
    Delivers cfg s' :=
  ⟨fun _ => hr ▸ hi.length hcl, fun op hc' => hw ▸ hi.phase op (hc ▸ hc'),
    fun op hc' w hw' h => hr ▸ hi.written op (hc ▸ hc') w (hw ▸ hw') (hwr op w h)⟩

theorem Delivers.ctrlMove (hN : cfg.nEnvs = 1) (hl : s.Lockstep) (hi : Delivers cfg s)
    (h : s.ctrlMove cfg = some s') : Delivers cfg s' := by
  rcases ctrlMove_cases h with ⟨op, k, he, rfl⟩ | ⟨op, he, rfl⟩ | ⟨op, _ | k, he, hpos, rfl⟩ |
    ⟨op, he, rfl⟩
  iterate 2
    exact hi.frame (by simp [he]) (by simp [he, Ctrl.cycle]) rfl rfl fun op' w h => by
      simpa [Written, he, hN] using h
  · simp only [Lockstep, he] at hl
    obtain ⟨w0, hw0, ⟨-, -, h0⟩ | ⟨-, -, h0⟩ | ⟨-, -, h0⟩⟩ := hl
    iterate 2 omega
    refine hi.frame (by simp [he]) (by simp [he, Ctrl.cycle]) rfl rfl fun op' w h => ?_
    rcases h with h | ⟨h, -⟩
    · exact .inl h
    · exact .inr ⟨h, .inl h0⟩
  · simp only [Lockstep, he] at hl
  · exact ⟨fun _ => hi.length (by simp [he]), fun _ hc => (nomatch hc), fun _ hc => (nomatch hc)⟩

/-- One move of the process keeps its phase fitting the cycle. -/
theorem PhaseOk.move {op : Op α} {w : Worker α} {reply : Reply α} (hop : PhaseOk cfg op w)
    (hpos : Before op w.phase ∨ w.phase.holding = true ∨ (w.phase = .await ∧ s.inputSem = 0))
    (hd : w.phase.isDead = false) (hgo : w.phase.awaitsGo = true → 0 < s.inputSem)
    (hres : s.resetEvent = true ↔ op = .reset)
    (hact : ∀ flat null, op = .step flat null → s.shareActions = flat)
    (hreach : w.Reachable cfg 0) : PhaseOk cfg op (w.move cfg 0 (s.envOf reply)).1 := by
  have hn := Worker.move_next cfg 0 w (s.envOf reply)
  cases hp : w.phase with
  | boot => rw [hp] at hn; rcases hn.1 with h | h <;> simp [PhaseOk, h]
  | awaitFirst =>
    rw [hp] at hn; simp only [PhaseOk, hn.1]
    rcases hpos with hb | hh | ⟨h, -⟩
    · cases op <;> simp_all [Before]
    · simp [hp, Phase.holding] at hh
    · simp [hp] at h
  | first =>
    simp only [PhaseOk, hp] at hop; subst hop
    rw [Worker.move_first hp]
    rcases Worker.publishFresh_phase cfg w (s.envOf reply) 0 with ⟨r, hr⟩ | hr
    · simp only [PhaseOk, hr]; exact Worker.publishFresh_produced hr
    · simp [PhaseOk, hr]
  | await =>
    rw [hp] at hn; simp only [PhaseOk, hn.1]
    rcases hpos with hb | hh | ⟨-, h0⟩
    · rintro rfl; simp [Before, hp] at hb
    · simp [hp, Phase.holding] at hh
    · exact absurd (hgo (by simp [hp, Phase.awaitsGo])) (by omega)
  | dispatch =>
    simp only [PhaseOk, hp] at hop
    obtain ⟨hre, hch⟩ := Worker.move_dispatch cfg 0 hp (s.envOf reply)
    rw [hp] at hn
    rcases hn.1 with h | h | h
    · simp only [PhaseOk, h]; exact hres.mp (hre h)
    · simp only [PhaseOk, h]
      have hf := hch h
      cases op with
      | initProcess => exact absurd rfl hop
      | step flat null => exact ⟨flat, null, rfl⟩
      | reset => simp [envOf, hres.mpr rfl] at hf
    · simp [PhaseOk, h]
  | reseed =>
    simp only [PhaseOk, hp] at hop
    rw [hp] at hn
    rcases hn.1 with h | h | h <;> simp [PhaseOk, h, hop]
  | reseedObs =>
    simp only [PhaseOk, hp] at hop; subst hop
    rw [Worker.move_reseedObs hp]
    rcases Worker.publishFresh_phase cfg w (s.envOf reply) 1 with ⟨r, hr⟩ | hr
    · simp only [PhaseOk, hr]; exact Worker.publishFresh_produced hr
    · simp [PhaseOk, hr]
  | chunk =>
    simp only [PhaseOk, hp] at hop
    obtain ⟨flat, null, rfl⟩ := hop
    rw [hp] at hn
    rcases hn.1 with ⟨r, h⟩ | h
    · simp only [PhaseOk, h, Produced]
      exact ⟨w, s.envOf reply, hreach, hp, hact flat null rfl, by rw [← h]⟩
    · simp [PhaseOk, h]
  | publish res => rw [hp] at hn; rcases hn with ⟨h, -⟩ | ⟨h, -⟩ <;> simp [PhaseOk, h]
  | signal => rw [hp] at hn; simp [PhaseOk, hn.1]
  | dead => simp [hp, Phase.isDead] at hd


/-- One move of the process: the buffer keeps its length, and once the process has written
its record the buffer is that record. -/
theorem written_move {op : Op α} {w : Worker α} (reply : Reply α) (hop : PhaseOk cfg op w)
    (hlen : s.shareResults.length = cfg.resultSize)
    (hwr : Written s op w → ∃ res, s.shareResults = res.data ∧ Produced cfg w.wrapper w.prevObs res op) :
    (s.apply cfg 0 (w.move cfg 0 (s.envOf reply)).2).shareResults.length = cfg.resultSize ∧
      (Written { s.apply cfg 0 (w.move cfg 0 (s.envOf reply)).2 with
          workers := [(w.move cfg 0 (s.envOf reply)).1] } op (w.move cfg 0 (s.envOf reply)).1 →
        ∃ res, (s.apply cfg 0 (w.move cfg 0 (s.envOf reply)).2).shareResults = res.data ∧
          Produced cfg (w.move cfg 0 (s.envOf reply)).1.wrapper
            (w.move cfg 0 (s.envOf reply)).1.prevObs res op) := by
  have hn := Worker.move_next cfg 0 w (s.envOf reply)
  by_cases hs : (w.move cfg 0 (s.envOf reply)).1.phase = .signal
  · obtain ⟨res, hp⟩ := (hs ▸ hn).eq_publish_of_signal
    obtain ⟨hm, -, hsize⟩ := Worker.move_publish hp hs
    have hres : res.data.length = cfg.resultSize := by rw [res.length_data_eq_size, hsize]
    simp only [PhaseOk, hp] at hop
    rw [hm]
    simp only [apply, writeSlice_zero hlen]
    exact ⟨hres, fun _ => ⟨res, rfl, hop⟩⟩
  have hsr : (s.apply cfg 0 (w.move cfg 0 (s.envOf reply)).2).shareResults = s.shareResults := by
    generalize (w.move cfg 0 (s.envOf reply)).2 = e at hn
    cases e <;> first | rfl | exact absurd hn.eq_signal_of_write hs
  rw [hsr]
  refine ⟨hlen, fun hw' => ?_⟩
  rcases hw' with h | ⟨h, -⟩
  · exact absurd h hs
  · have hp := (h ▸ hn).eq_signal_of_await
    rw [Worker.move_signal hp]
    exact hwr (.inl hp)


theorem Delivers.workerMove (hN : cfg.nEnvs = 1) (hl : s.Lockstep)
    (hres : s.resetEvent = true ↔ s.ctrl.cycle = some .reset) (ha : s.ActionsWritten)
    (hreach : ∀ (i : Nat) (w : Worker α), s.workers[i]? = some w → w.Reachable cfg i)
    (hi : Delivers cfg s) {i : Nat} {reply : Reply α} (h : s.workerMove cfg i reply = some s') :
    Delivers cfg s' := by
  obtain ⟨w, hw, hd, hgo, rfl⟩ := workerMove_cases h
  cases hc : s.ctrl.cycle with
  | none =>
    exfalso
    rcases hctrl : s.ctrl with _ | _ | ⟨op, k⟩ | ⟨op, k⟩ <;> simp [hctrl, Ctrl.cycle] at hc
    · simp only [Lockstep, hctrl] at hl; simp [hl] at hw
    · simp only [Lockstep, hctrl] at hl
      obtain ⟨w0, hw0, hp, h1, -⟩ := hl
      rw [hw0] at hw
      obtain ⟨-, rfl⟩ := getElem?_singleton_eq hw
      exact absurd (hgo (by simp [hp, Phase.awaitsGo])) (by omega)
  | some op =>
    obtain ⟨w0, hw0, hpos⟩ := hl.inCycle hc
    rw [hw0] at hw
    obtain ⟨rfl, rfl⟩ := getElem?_singleton_eq hw
    have hcl : s.ctrl ≠ .cleared := fun h => by simp [h, Ctrl.cycle] at hc
    have hlen : s.shareResults.length = cfg.resultSize := by
      rw [hi.length hcl, hN, Nat.one_mul]
    have hop := hi.phase op hc w hw0
    obtain ⟨hlen', hwr⟩ := written_move reply hop hlen (hi.written op hc w hw0)
    refine ⟨fun _ => by simpa [hN] using hlen', fun op' hc' w' hw' => ?_,
      fun op' hc' w' hw' hwr' => ?_⟩
    all_goals
      simp only [apply_ctrl, hc, Option.some.injEq] at hc'
      simp only [hw0, List.set_cons_zero, List.cons.injEq, and_true] at hw'
      subst hc' hw'
    · exact hop.move hpos hd hgo (hres.trans (by rw [hc]; simp))
        (fun flat null h => ha flat null (by rw [hc, h])) (hreach 0 w (by rw [hw0]; rfl))
    · exact hwr (by simpa [hw0] using hwr')

theorem Delivers.init : Delivers cfg (init : Pool α) :=
  ⟨fun h => absurd rfl h, fun _ hc => (nomatch hc), fun _ hc => (nomatch hc)⟩

theorem reachable_delivers (hN : cfg.nEnvs = 1) (hs : Reachable cfg s) : Delivers cfg s := by
  induction hs with
  | init => exact Delivers.init
  | step l hs h ih =>
    cases l with
    | call => exact ih.call hN (reachable_lockstep hN hs) h
    | ctrl => exact ih.ctrlMove hN (reachable_lockstep hN hs) h
    | worker =>
      exact ih.workerMove hN (reachable_lockstep hN hs) (resetEvent_iff hs)
        (reachable_actionsWritten hs) (reachable_workers hs) h

/-- Once the controller has acquired the cycle's done-signal, the result buffer holds the
record the one process published for the cycle. -/
theorem acquired_written (hN : cfg.nEnvs = 1) (hs : Reachable cfg s) {op : Op α}
    (hc : s.ctrl = .acquiring op 0) :
    ∃ w res, s.workers = [w] ∧ s.shareResults = res.data ∧
      Produced cfg w.wrapper w.prevObs res op := by
  have hl := reachable_lockstep hN hs
  simp only [Lockstep, hc] at hl
  obtain ⟨w, hw, hp, -, -⟩ := hl
  have hcyc : s.ctrl.cycle = some op := by rw [hc]; rfl
  obtain ⟨res, hres, hprod⟩ := (reachable_delivers hN hs).written op hcyc w hw (.inr ⟨hp, .inr hc⟩)
  exact ⟨w, res, hw, hres, hprod⟩

/-- **A pool of one process returns the record of the cycle.** When the controller has
acquired the done-signal of a cycle of `op`, the result buffer it reads is the record the
process published in that cycle: for `init_process` and `reset` the record of the
observation it now keeps, with `truncated` 0 and 1, for `step` the record of a chunk on the
call's batch; and the call returns that record decoded. -/
theorem one_worker_results (hN : cfg.nEnvs = 1) (hs : Reachable cfg s) {op : Op α}
    (hc : s.ctrl = .acquiring op 0) :
    ∃ w res, s.workers = [w] ∧ s.shareResults = res.data ∧
      Produced cfg w.wrapper w.prevObs res op ∧
      (s.ctrlMove cfg).map (·.returned) = some (s.returned ++ [.results op (readResults cfg res.data)]) := by
  obtain ⟨w, res, hw, hres, hprod⟩ := acquired_written hN hs hc
  exact ⟨w, res, hw, hres, hprod, by simp [ctrlMove, hc, finish, hres]⟩

/-- `init_process`, then `step(None)`, on a pool of one with `HORIZON = 1`, up to the
controller's acquire of the step's done-signal. -/
def stepOne : List (Label Nat) :=
  initOne ++ [.call (.step none), .ctrl, .ctrl] ++
    List.replicate 5 (.worker 0 Worker.blankEnv.reply) ++ [.ctrl]

theorem one_worker_results_of_step :
    ∃ s, (init : Pool Nat).run ⟨1, 1, 100⟩ stepOne = some s ∧
      (⟨1, 1, 100⟩ : Config).nEnvs = 1 ∧ Reachable ⟨1, 1, 100⟩ s ∧
      s.ctrl = .acquiring (.step (List.replicate actionDim 0) true) 0 ∧
      ∃ w res, s.workers = [w] ∧ s.shareResults = res.data ∧
        Produced ⟨1, 1, 100⟩ w.wrapper w.prevObs res (.step (List.replicate actionDim 0) true) ∧
        (s.ctrlMove ⟨1, 1, 100⟩).map (·.returned) = some (s.returned ++
          [.results (.step (List.replicate actionDim 0) true) (readResults ⟨1, 1, 100⟩ res.data)]) := by
  obtain ⟨s, hrun, hc⟩ : ∃ s, (init : Pool Nat).run ⟨1, 1, 100⟩ stepOne = some s ∧
      s.ctrl = .acquiring (.step (List.replicate actionDim 0) true) 0 := ⟨_, rfl, by decide⟩
  have hs := Reachable.run _ .init hrun
  exact ⟨s, hrun, rfl, hs, hc, one_worker_results rfl hs hc⟩

/-! ## The records of init_process and reset -/

omit [One α] in
/-- A fresh record of a kept observation of the configured shapes, as the only row of the
buffer, decodes to one entry with reward and `terminated` 0 and the record's
`truncated`. -/
theorem readResults_fresh (hN : cfg.nEnvs = 1) {prevObs : Option (Observation α)} {t : α}
    {res : NdArray α} (hobs : ∀ o ∈ prevObs, o.Shaped)
    (h : (freshFields cfg prevObs t).bind Fields.pack = some res) :
    ∃ c, readResults cfg res.data = some [c] ∧ c.reward = .ofList [0] ∧
      c.terminated = .ofList [0] ∧ c.truncated = .ofList [t] := by
  cases prevObs with
  | none => simp [freshFields, updateObs] at h
  | some o =>
    obtain ⟨f, hf, hsz, h0, h1, h2, -⟩ := freshFields_sized cfg (hobs o rfl) t
    obtain ⟨r, c, hp, hrs, hc, hd⟩ := hsz.deInitializeRow_pack
    rw [hf, Option.some_bind, hp, Option.some.injEq] at h
    subst h
    obtain ⟨e0, e1, e2⟩ := Fields.cond_flags hc
    exact ⟨c, by rw [readResults_single hN hrs, hd]; rfl, h0 ▸ e0, h1 ▸ e1, h2 ▸ e2⟩

/-- **With one process, `init_process` and `reset` decode one entry with the fresh
flags.** When the controller has acquired the done-signal of a cycle of `init_process` or
`reset` and the observation the process keeps has the configured shapes, the call decodes
a batch of exactly one entry, with reward and `terminated` 0, and `truncated` 0 after
`init_process` and 1 after `reset`. (`init_process` returns these flags through
`transform`; `reset` returns only the observations and infos.) -/
theorem one_worker_fresh (hN : cfg.nEnvs = 1) (hs : Reachable cfg s) {op : Op α}
    (hop : op = .initProcess ∨ op = .reset) (hc : s.ctrl = .acquiring op 0)
    (hobs : ∀ w ∈ s.workers, ∀ o ∈ w.prevObs, o.Shaped) :
    ∃ c, (s.ctrlMove cfg).map (·.returned) = some (s.returned ++ [.results op (some [c])]) ∧
      c.reward = .ofList [0] ∧ c.terminated = .ofList [0] ∧
      (op = .initProcess → c.truncated = .ofList [0]) ∧
      (op = .reset → c.truncated = .ofList [1]) := by
  obtain ⟨w, res, hw, hres, hprod⟩ := acquired_written hN hs hc
  have hret : (s.ctrlMove cfg).map (·.returned) =
      some (s.returned ++ [.results op (readResults cfg res.data)]) := by
    simp [ctrlMove, hc, finish, hres]
  have hkept := hobs w (by simp [hw])
  rcases hop with rfl | rfl
  · obtain ⟨c, hr, h0, h1, h2⟩ := readResults_fresh hN hkept hprod
    exact ⟨c, hr ▸ hret, h0, h1, fun _ => h2, nofun⟩
  · obtain ⟨c, hr, h0, h1, h2⟩ := readResults_fresh hN hkept hprod
    exact ⟨c, hr ▸ hret, h0, h1, nofun, fun _ => h2⟩

/-- `init_process`, then `reset()`, on a pool of one with `HORIZON = 1`, up to the
controller's acquire of the reset's done-signal. -/
def resetOne : List (Label Nat) :=
  initOne ++ [.call .reset, .ctrl, .ctrl] ++
    List.replicate 6 (.worker 0 Worker.blankEnv.reply) ++ [.ctrl]

theorem one_worker_fresh_of_reset :
    ∃ s, (init : Pool Nat).run ⟨1, 1, 100⟩ resetOne = some s ∧
      (⟨1, 1, 100⟩ : Config).nEnvs = 1 ∧ Reachable ⟨1, 1, 100⟩ s ∧
      ((.reset : Op Nat) = .initProcess ∨ (.reset : Op Nat) = .reset) ∧
      s.ctrl = .acquiring .reset 0 ∧ (∀ w ∈ s.workers, ∀ o ∈ w.prevObs, o.Shaped) ∧
      ∃ c, (s.ctrlMove ⟨1, 1, 100⟩).map (·.returned) =
          some (s.returned ++ [.results .reset (some [c])]) ∧
        c.reward = .ofList [0] ∧ c.terminated = .ofList [0] ∧
        ((.reset : Op Nat) = .initProcess → c.truncated = .ofList [0]) ∧
        ((.reset : Op Nat) = .reset → c.truncated = .ofList [1]) := by
  obtain ⟨s, hrun, hc, hobs⟩ : ∃ s, (init : Pool Nat).run ⟨1, 1, 100⟩ resetOne = some s ∧
      s.ctrl = .acquiring .reset 0 ∧ ∀ w ∈ s.workers, ∀ o ∈ w.prevObs, o.Shaped :=
    ⟨_, rfl, by decide, by decide⟩
  have hs := Reachable.run _ .init hrun
  exact ⟨s, hrun, rfl, hs, .inr rfl, hc, hobs, one_worker_fresh rfl hs (.inr rfl) hc hobs⟩

end Pool

end RoboTwinPool
