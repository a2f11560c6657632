import RoboTwinPool.Pool.Lockstep
import RoboTwinPool.Worker.Health

set_option autoImplicit false

/-! # On a simulator that answers, every call returns

A call hangs when a process raises while it holds a go-signal: the controller then waits for
a done-signal that never comes (`dead_holding_blocks`). On good simulator replies
(`Reply.Good`) no process raises, for any `n_envs` and any interleaving
(`GoodReachable.healthy`), and every call returns:

* every move of the controller or of a process lowers `measure` (`measure_lt`): the
  controller's moves left in its cycle, the moves every process makes before it next blocks
  (`Phase.rank`), and six for every go-signal not yet taken. So no run between two calls is
  longer than the measure at its start (`length_le_measure`);
* inside a cycle some move is always enabled, whatever the simulator replies
  (`moves_in_cycle`), by the counting invariant `Balanced`;
* a cycle ends only at the controller's last acquire, which decodes a buffer of
  `n_envs * result_size` elements into `n_envs` entries (`readResults_sized`).

`call_returns` puts the three together. Conversely, some schedule always completes the call:
taking an enabled move on a good reply until none is left ends it (`call_completes`).
-/

namespace RoboTwinPool

variable {α : Type}

/-! ## Good runs and the measure -/

/-- The simulator's reply on a process's move is good; the controller's moves and the public
calls read no reply. -/
def Label.Good : Label α → Prop
  | .worker _ r => r.Good
  | _ => True

/-- Whether the label is a public call. -/
def Label.isCall : Label α → Bool
  | .call _ => true
  | _ => false

/-- The go-signals the controller has still to release in its cycle. -/
def Ctrl.toRelease : Ctrl α → Nat
  | .releasing _ k => k
  | _ => 0

/-- The controller's moves left in its cycle: `k` releases, the switch to acquiring, `N`
acquires and the decode. -/
def Ctrl.rank (N : Nat) : Ctrl α → Nat
  | .cleared | .idle => 0
  | .releasing _ k => k + N + 2
  | .acquiring _ k => k + 1

theorem sum_map_set {β : Type} (f : β → Nat) (l : List β) (i : Nat) (x y : β)
    (h : l[i]? = some y) : ((l.set i x).map f).sum + f y = (l.map f).sum + f x := by
  induction l generalizing i with
  | nil => simp at h
  | cons a l ih =>
    cases i with
    | zero =>
      simp only [List.getElem?_cons_zero, Option.some.injEq] at h
      subst h
      simp only [List.set_cons_zero, List.map_cons, List.sum_cons]
      omega
    | succ i =>
      simp only [List.getElem?_cons_succ] at h
      simp only [List.set_cons_succ, List.map_cons, List.sum_cons]
      have := ih i h
      omega

namespace Pool

variable [Zero α] [One α] {cfg : Config} {s s' : Pool α}

/-- What is left to do before the pool is quiet: the controller's moves left in its cycle,
the moves every process makes before it next blocks, and six for every go-signal not yet
taken (a process that takes one has at most five moves to make). -/
def measure (cfg : Config) (s : Pool α) : Nat :=
  s.ctrl.rank cfg.nEnvs + (s.workers.map (·.phase.rank)).sum +
    6 * (s.inputSem + s.ctrl.toRelease)

omit [Zero α] [One α] in
theorem apply_inputSem_of_ne {i : Nat} {e : Effect α} (he : e ≠ .acquire) :
    (s.apply cfg i e).inputSem = s.inputSem := by
  cases e <;> first | rfl | exact absurd rfl he

/-- **Every move between calls lowers the measure**, on a reply whose adapter initializes
(a reseed otherwise retries). -/
theorem measure_lt {l : Label α} (hl : l.Good) (hc : l.isCall = false)
    (h : s.step cfg l = some s') : s'.measure cfg < s.measure cfg := by
  cases l with
  | call => cases hc
  | ctrl =>
    rcases ctrlMove_cases h with ⟨_, _, he, rfl⟩ | ⟨_, he, rfl⟩ | ⟨_, _, he, -, rfl⟩ | ⟨_, he, rfl⟩ <;>
      simp only [measure, he, finish, Ctrl.rank, Ctrl.toRelease] <;> omega
  | worker i reply =>
    have hr : reply.Good := hl
    obtain ⟨w, hw, hd, hg, rfl⟩ := workerMove_cases h
    have hsum := sum_map_set (·.phase.rank) s.workers i (w.move cfg i (s.envOf reply)).1 w hw
    simp only at hsum
    simp only [measure, apply_ctrl]
    rcases Worker.move_rank hd (s.envOf reply) hr.setup i with ⟨ha, hlt⟩ | ⟨ha, hlt⟩
    · have hpos := hg (Phase.Next.holding_of_acquire (ha ▸ Worker.move_next cfg i w _)).1
      rw [ha]
      simp only [apply]
      omega
    · rw [apply_inputSem_of_ne ha]
      omega

/-- **No run between two calls is longer than the measure at its start.** -/
theorem length_le_measure {ls : List (Label α)} (hls : ∀ l ∈ ls, l.Good ∧ l.isCall = false)
    (h : s.run cfg ls = some s') : ls.length + s'.measure cfg ≤ s.measure cfg := by
  induction ls generalizing s with
  | nil => cases h; simp
  | cons l ls ih =>
    simp only [run, Option.bind_eq_bind] at h
    cases hl : s.step cfg l with
    | none => rw [hl] at h; cases h
    | some s1 =>
      rw [hl, Option.some_bind] at h
      have h1 := measure_lt (hls l (.head _)).1 (hls l (.head _)).2 hl
      have h2 := ih (fun l' hl' => hls l' (.tail _ hl')) h
      simp only [List.length_cons]
      omega

/-! ## What a reachable pool has allocated -/

omit [One α] in
/-- A call leaves the action buffer alone or writes a batch of `n_envs * input_size`
elements into it. -/
theorem call_actions {req : Request α} (h : s.call cfg req = some s') :
    s'.shareActions = s.shareActions ∨ s'.shareActions.length = cfg.nEnvs * cfg.inputSize := by
  cases req with
  | initProcess =>
    simp only [call] at h
    split at h <;> cases h
    exact .inr (by simp)
  | step a =>
    simp only [call] at h
    split at h
    · split at h
      · cases h
        exact .inr (by simp [NdArray.zeros, NdArray.flatten, Config.inputSize])
      · split at h
        · rename_i hsz
          cases h
          exact .inr (by simpa [NdArray.flatten, NdArray.length_data_eq_size] using hsz)
        · cases h
          exact .inl rfl
    · cases h
  | reset => simp only [call] at h; split at h <;> cases h; exact .inl rfl
  | clear => simp only [call] at h; split at h <;> cases h; exact .inl rfl

/-- Outside a cleared pool there are `n_envs` processes, and the action and result buffers
have `n_envs * input_size` and `n_envs * result_size` elements. -/
structure Allocated (cfg : Config) (s : Pool α) : Prop where
  workers : s.ctrl ≠ .cleared → s.workers.length = cfg.nEnvs
  actions : s.ctrl ≠ .cleared → s.shareActions.length = cfg.nEnvs * cfg.inputSize
  results : s.ctrl ≠ .cleared → s.shareResults.length = cfg.nEnvs * cfg.resultSize

omit [Zero α] [One α] in
theorem Allocated.frame (hi : Allocated cfg s) (hcl : s.ctrl ≠ .cleared)
    (hw : s'.workers = s.workers) (ha : s'.shareActions = s.shareActions)
    (hr : s'.shareResults = s.shareResults) : Allocated cfg s' :=
  ⟨fun _ => hw ▸ hi.workers hcl, fun _ => ha ▸ hi.actions hcl, fun _ => hr ▸ hi.results hcl⟩

theorem Allocated.step (hi : Allocated cfg s) {l : Label α} (h : s.step cfg l = some s') :
    Allocated cfg s' := by
  cases l with
  | call =>
    have hact := call_actions h
    rcases call_cases h with ⟨-, rfl⟩ | ⟨hc, _, _, rfl⟩ | ⟨hc, rfl⟩ | ⟨hc, rfl⟩ | ⟨-, rfl⟩
    · exact ⟨fun _ => by simp, fun _ => by simp, fun _ => by simp⟩
    · have hcl : s.ctrl ≠ .cleared := by rw [hc]; nofun
      exact ⟨fun _ => hi.workers hcl, fun _ => hact.elim (· ▸ hi.actions hcl) id,
        fun _ => hi.results hcl⟩
    iterate 2 exact hi.frame (by rw [hc]; nofun) rfl rfl rfl
    · exact ⟨fun h => absurd rfl h, fun h => absurd rfl h, fun h => absurd rfl h⟩
  | ctrl =>
    rcases ctrlMove_cases h with ⟨_, _, he, rfl⟩ | ⟨_, he, rfl⟩ | ⟨_, _, he, -, rfl⟩ | ⟨_, he, rfl⟩ <;>
      exact hi.frame (by rw [he]; nofun) rfl rfl rfl
  | worker i reply =>
    obtain ⟨w, hw, -, -, rfl⟩ := workerMove_cases h
    refine ⟨fun hc => ?_, fun hc => ?_, fun hc => ?_⟩ <;> simp only [apply_ctrl] at hc
    · simpa using hi.workers hc
    · simpa using hi.actions hc
    · generalize he : (w.move cfg i (s.envOf reply)).2 = e
      cases e with
      | write d =>
        obtain ⟨hi', hd⟩ := write_of_move he
        simp only [apply]
        rw [length_writeSlice hd (hi.results hc ▸ slice_fits hi'), hi.results hc]
      | none | acquire | claim | release => exact hi.results hc

theorem reachable_allocated (hs : Reachable cfg s) : Allocated cfg s :=
  hs.inv ⟨fun h => absurd rfl h, fun h => absurd rfl h, fun h => absurd rfl h⟩
    fun _ hi h => hi.step h

/-! ## No process raises on good replies -/

/-- The states the pool reaches from `init` when every simulator reply is good. -/
inductive GoodReachable (cfg : Config) : Pool α → Prop
  | init : GoodReachable cfg init
  | step {s s' : Pool α} (l : Label α) : GoodReachable cfg s → l.Good →
      s.step cfg l = some s' → GoodReachable cfg s'

theorem GoodReachable.reachable (hs : GoodReachable cfg s) : Reachable cfg s := by
  induction hs with
  | init => exact .init
  | step l _ _ h ih => exact ih.step l h

theorem GoodReachable.run (hs : GoodReachable cfg s) {ls : List (Label α)}
    (hls : ∀ l ∈ ls, l.Good) (h : s.run cfg ls = some s') : GoodReachable cfg s' := by
  induction ls generalizing s with
  | nil => cases h; exact hs
  | cons l ls ih =>
    simp only [Pool.run, Option.bind_eq_bind] at h
    cases hl : s.step cfg l with
    | none => rw [hl] at h; cases h
    | some s1 =>
      rw [hl] at h
      exact ih (hs.step l (hls l (.head _)) hl) (fun l' hl' => hls l' (.tail _ hl')) h

/-- Every process of the pool is healthy. -/
def Healthy (cfg : Config) (s : Pool α) : Prop := ∀ w ∈ s.workers, w.Healthy cfg

theorem Healthy.step (hh : s.Healthy cfg) (hb : Balanced cfg s) (ha : Allocated cfg s)
    {l : Label α} (hl : l.Good) (h : s.step cfg l = some s') : s'.Healthy cfg := by
  cases l with
  | call =>
    rcases call_cases h with ⟨-, rfl⟩ | ⟨-, _, _, rfl⟩ | ⟨-, rfl⟩ | ⟨-, rfl⟩ | ⟨-, rfl⟩
    · intro w hw
      rw [List.eq_of_mem_replicate hw]
      exact Worker.Healthy.init
    iterate 3 exact hh
    · exact List.forall_mem_nil _
  | ctrl =>
    rcases ctrlMove_cases h with ⟨_, _, -, rfl⟩ | ⟨_, -, rfl⟩ | ⟨_, _, -, -, rfl⟩ | ⟨_, -, rfl⟩
    iterate 4 exact hh
  | worker i reply =>
    obtain ⟨w, hw, -, -, rfl⟩ := workerMove_cases h
    have hcl : s.ctrl ≠ .cleared := fun hc => by simp [hb.cleared hc] at hw
    have hi : i < cfg.nEnvs := ha.workers hcl ▸ (List.getElem?_eq_some_iff.mp hw).1
    intro x hx
    rcases List.mem_or_eq_of_mem_set hx with hx | rfl
    · exact hh x hx
    · exact (hh w (List.getElem?_mem hw)).move hl hi (ha.actions hcl)

/-- **On good replies no process ever raises.** -/
theorem GoodReachable.healthy (hs : GoodReachable cfg s) : s.Healthy cfg := by
  induction hs with
  | init => exact List.forall_mem_nil _
  | step l hs hl h ih =>
    exact ih.step (reachable_balanced hs.reachable) (reachable_allocated hs.reachable) hl h

/-! ## Inside a cycle some move is enabled -/

/-- **Inside a cycle some move is enabled.** When no process has raised, the controller can
release or acquire, or some process can move, whatever the simulator replies. -/
theorem moves_in_cycle (hs : Reachable cfg s) (hd : ∀ w ∈ s.workers, w.phase.isDead = false)
    (hc : s.ctrl.cycle.isSome) :
    (s.ctrlMove cfg).isSome ∨ ∃ i, ∀ reply, (s.workerMove cfg i reply).isSome := by
  have hb := reachable_balanced hs
  have hcount := hb.count
  rcases hctrl : s.ctrl with _ | _ | ⟨op, _ | k⟩ | ⟨op, _ | k⟩
  iterate 2 simp [hctrl, Ctrl.cycle] at hc
  iterate 3 exact .inl (by simp [ctrlMove, hctrl])
  by_cases ho : 0 < s.outputSem
  · exact .inl (by simp [ctrlMove, hctrl, ho])
  right
  rw [hctrl] at hcount
  simp only [Ctrl.outstanding] at hcount
  by_cases hh : 0 < holdCount s.workers
  · obtain ⟨w, hmem, hw⟩ := List.countP_pos_iff.mp hh
    obtain ⟨i, hi⟩ := List.mem_iff_getElem?.mp hmem
    have ha := Phase.holding_alive (by simpa using hw) fun h => by
      simpa [h, Phase.isDead] using hd w hmem
    exact ⟨i, workerMove_isSome hi ha.1 (by simp [ha.2])⟩
  · have hbnd : k + 1 ≤ cfg.nEnvs := by
      have := hb.bounded
      rw [hctrl] at this
      exact this
    have hlen := (reachable_allocated hs).workers (by rw [hctrl]; nofun)
    obtain ⟨w, hmem⟩ := List.exists_mem_of_length_pos (by omega : 0 < s.workers.length)
    obtain ⟨i, hi⟩ := List.mem_iff_getElem?.mp hmem
    exact ⟨i, workerMove_isSome hi (hd w hmem) fun _ => by omega⟩

/-! ## Every call returns -/

/-- Where a run between two calls leaves a call of `op` that was inside its cycle at `s`:
still in the cycle with nothing returned yet, or back between calls, having returned the
`n_envs` entries it decoded, each of the shapes `de_initialize_result` reshapes to. -/
def Returns (cfg : Config) (s : Pool α) (op : Op α) (s' : Pool α) : Prop :=
  (s'.ctrl.cycle = some op ∧ s'.returned = s.returned) ∨
    (s'.ctrl = .idle ∧ ∃ cs, cs.length = cfg.nEnvs ∧ (∀ c ∈ cs, c.Sized cfg) ∧
      s'.returned = s.returned ++ [.results op (some cs)])

theorem Returns.step {s₁ s₂ : Pool α} {op : Op α} (hs : Reachable cfg s₁)
    (hr : Returns cfg s op s₁) {l : Label α} (hc : l.isCall = false)
    (h : s₁.step cfg l = some s₂) : Returns cfg s op s₂ := by
  cases l with
  | call => cases hc
  | ctrl =>
    rcases hr with ⟨hcy, hret⟩ | ⟨hidle, -⟩
    · rcases ctrlMove_cases h with ⟨_, _, he, rfl⟩ | ⟨_, he, rfl⟩ | ⟨_, _, he, -, rfl⟩ | ⟨op', he, rfl⟩
      iterate 3 exact .inl ⟨by rw [he] at hcy; exact hcy, hret⟩
      · rw [he] at hcy
        obtain rfl : op' = op := Option.some.inj hcy
        obtain ⟨cs, hcs, hlen, hsz⟩ :=
          readResults_sized ((reachable_allocated hs).results (by rw [he]; nofun))
        exact .inr ⟨rfl, cs, hlen, hsz, by simp [finish, hret, hcs]⟩
    · simp [Pool.step, ctrlMove, hidle] at h
  | worker i reply =>
    obtain ⟨w, -, -, -, rfl⟩ := workerMove_cases h
    simpa only [Returns, apply_ctrl, apply_returned] using hr

theorem Returns.run {s₁ s₂ : Pool α} {op : Op α} (hs : Reachable cfg s₁)
    (hr : Returns cfg s op s₁) {ls : List (Label α)} (hls : ∀ l ∈ ls, l.isCall = false)
    (h : s₁.run cfg ls = some s₂) : Returns cfg s op s₂ := by
  induction ls generalizing s₁ with
  | nil => cases h; exact hr
  | cons l ls ih =>
    simp only [Pool.run, Option.bind_eq_bind] at h
    cases hl : s₁.step cfg l with
    | none => rw [hl] at h; cases h
    | some s1 =>
      rw [hl] at h
      exact ih (hs.step l hl) (hr.step hs (hls l (.head _)) hl)
        (fun l' hl' => hls l' (.tail _ hl')) h

/-- **On good replies every call returns.** From a state the pool reaches on good replies,
inside the cycle of a call of `op` (`init_process`, `step` or `reset`), every run of the
controller's and the processes' moves on good replies makes at most `measure` moves. At its
end the call is either still in its cycle, with nothing returned yet and some move enabled
whatever the simulator replies, or back between calls, having returned `n_envs` decoded
entries. So a run that goes on while some move is enabled returns the call. -/
theorem call_returns (hs : GoodReachable cfg s) {op : Op α} (hc : s.ctrl.cycle = some op)
    {ls : List (Label α)} (hls : ∀ l ∈ ls, l.Good ∧ l.isCall = false)
    (hrun : s.run cfg ls = some s') :
    ls.length ≤ s.measure cfg ∧
      ((s'.ctrl.cycle = some op ∧ s'.returned = s.returned ∧
          ((s'.ctrlMove cfg).isSome ∨ ∃ i, ∀ reply, (s'.workerMove cfg i reply).isSome)) ∨
        (s'.ctrl = .idle ∧ ∃ cs, cs.length = cfg.nEnvs ∧
          s'.returned = s.returned ++ [.results op (some cs)])) := by
  have hs' := hs.run (fun l hl => (hls l hl).1) hrun
  refine ⟨by have := length_le_measure hls hrun; omega, ?_⟩
  rcases Returns.run hs.reachable (.inl ⟨hc, rfl⟩) (fun l hl => (hls l hl).2) hrun with
    ⟨hcy, hret⟩ | ⟨hidle, cs, hlen, -, hret⟩
  · exact .inl ⟨hcy, hret, moves_in_cycle hs'.reachable (fun w hw => (hs'.healthy w hw).alive)
      (by rw [hcy]; rfl)⟩
  · exact .inr ⟨hidle, cs, hlen, hret⟩

/-- The simulator of `blankEnv` answers every move well. -/
theorem blankEnv_good : Worker.blankEnv.reply.Good :=
  ⟨rfl, ⟨_, rfl, by decide⟩, fun _ => ⟨_, rfl, by decide⟩⟩

theorem call_returns_after_init_process :
    ∃ s s', (init : Pool Nat).step ⟨1, 1, 100⟩ (.call .initProcess) = some s ∧
      s.run ⟨1, 1, 100⟩ initOne.tail = some s' ∧
      GoodReachable ⟨1, 1, 100⟩ s ∧ s.ctrl.cycle = some .initProcess ∧
      (∀ l ∈ initOne.tail, l.Good ∧ l.isCall = false) ∧
      (initOne.tail.length ≤ s.measure ⟨1, 1, 100⟩ ∧
        ((s'.ctrl.cycle = some .initProcess ∧ s'.returned = s.returned ∧
            ((s'.ctrlMove ⟨1, 1, 100⟩).isSome ∨
              ∃ i, ∀ reply, (s'.workerMove ⟨1, 1, 100⟩ i reply).isSome)) ∨
          (s'.ctrl = .idle ∧ ∃ cs, cs.length = (⟨1, 1, 100⟩ : Config).nEnvs ∧
            s'.returned = s.returned ++ [.results .initProcess (some cs)]))) := by
  obtain ⟨s, s', h1, h2, hc⟩ : ∃ s s', (init : Pool Nat).step ⟨1, 1, 100⟩ (.call .initProcess) =
      some s ∧ s.run ⟨1, 1, 100⟩ initOne.tail = some s' ∧ s.ctrl.cycle = some .initProcess :=
    ⟨_, _, rfl, rfl, rfl⟩
  have hs : GoodReachable ⟨1, 1, 100⟩ s := .step (.call .initProcess) .init trivial h1
  have hls : ∀ l ∈ initOne.tail, l.Good ∧ l.isCall = false := by
    intro l hl
    simp only [initOne, List.cons_append, List.tail_cons, List.mem_cons, List.mem_append,
      List.mem_replicate, List.not_mem_nil, false_or, or_false] at hl
    rcases hl with rfl | rfl | ⟨-, rfl⟩ | rfl | rfl <;>
      first | exact ⟨trivial, rfl⟩ | exact ⟨blankEnv_good, rfl⟩
  exact ⟨s, s', h1, h2, hs, hc, hls, call_returns hs hc hls h2⟩

/-! ## Some schedule completes every call -/

/-- Inside a cycle some good move is enabled: the controller's, or a process's on the blank
reply. -/
theorem exists_good_move (hs : GoodReachable cfg s) (hc : s.ctrl.cycle.isSome) :
    ∃ l s', (l.Good ∧ l.isCall = false) ∧ s.step cfg l = some s' := by
  rcases moves_in_cycle hs.reachable (fun w hw => (hs.healthy w hw).alive) hc with h | ⟨i, h⟩
  · obtain ⟨s', h⟩ := Option.isSome_iff_exists.mp h
    exact ⟨.ctrl, s', ⟨trivial, rfl⟩, h⟩
  · obtain ⟨s', h⟩ := Option.isSome_iff_exists.mp (h .blank)
    exact ⟨.worker i .blank, s', ⟨Reply.blank_good, rfl⟩, h⟩

/-- **Some schedule completes every call.** From a state the pool reaches on good replies,
inside the cycle of a call of `op`, some run of at most `measure` good moves of the controller
and the processes returns the call with `n_envs` decoded entries, each of the shapes
`de_initialize_result` reshapes to. -/
theorem call_completes (hs : GoodReachable cfg s) {op : Op α} (hc : s.ctrl.cycle = some op) :
    ∃ ls s', (∀ l ∈ ls, l.Good ∧ l.isCall = false) ∧ s.run cfg ls = some s' ∧
      ls.length ≤ s.measure cfg ∧ s'.ctrl = .idle ∧
      ∃ cs, cs.length = cfg.nEnvs ∧ (∀ c ∈ cs, c.Sized cfg) ∧
        s'.returned = s.returned ++ [.results op (some cs)] := by
  suffices h : ∀ s₁ : Pool α, GoodReachable cfg s₁ → Returns cfg s op s₁ →
      ∃ ls s', (∀ l ∈ ls, l.Good ∧ l.isCall = false) ∧ s₁.run cfg ls = some s' ∧
        s'.ctrl = .idle ∧ ∃ cs, cs.length = cfg.nEnvs ∧ (∀ c ∈ cs, c.Sized cfg) ∧
          s'.returned = s.returned ++ [.results op (some cs)] by
    obtain ⟨ls, s', hls, hrun, hdone⟩ := h s hs (.inl ⟨hc, rfl⟩)
    exact ⟨ls, s', hls, hrun, by have := length_le_measure hls hrun; omega, hdone⟩
  intro s₁ hs₁ hr
  generalize hm : s₁.measure cfg = m
  induction m using Nat.strong_induction_on generalizing s₁ with
  | _ m ih =>
    rcases hr with ⟨hcy, hret⟩ | hdone
    · obtain ⟨l, s₂, hl, h⟩ := exists_good_move hs₁ (by rw [hcy]; rfl)
      obtain ⟨ls, s', hls, hrun, hdone⟩ := ih _ (hm ▸ measure_lt hl.1 hl.2 h) s₂
        (hs₁.step l hl.1 h) (Returns.step hs₁.reachable (.inl ⟨hcy, hret⟩) hl.2 h) rfl
      refine ⟨l :: ls, s', List.forall_mem_cons.mpr ⟨hl, hls⟩, ?_, hdone⟩
      rw [run, h, Option.bind_eq_bind, Option.some_bind, hrun]
    · exact ⟨[], s₁, List.forall_mem_nil _, rfl, hdone⟩

theorem call_completes_after_init_process :
    ∃ s, (init : Pool Nat).step ⟨1, 1, 100⟩ (.call .initProcess) = some s ∧
      GoodReachable ⟨1, 1, 100⟩ s ∧ s.ctrl.cycle = some .initProcess ∧
      ∃ ls s', (∀ l ∈ ls, l.Good ∧ l.isCall = false) ∧ s.run ⟨1, 1, 100⟩ ls = some s' ∧
        ls.length ≤ s.measure ⟨1, 1, 100⟩ ∧ s'.ctrl = .idle ∧
        ∃ cs, cs.length = (⟨1, 1, 100⟩ : Config).nEnvs ∧ (∀ c ∈ cs, c.Sized ⟨1, 1, 100⟩) ∧
          s'.returned = s.returned ++ [.results .initProcess (some cs)] := by
  obtain ⟨s, h1, hc⟩ : ∃ s, (init : Pool Nat).step ⟨1, 1, 100⟩ (.call .initProcess) = some s ∧
      s.ctrl.cycle = some .initProcess := ⟨_, rfl, rfl⟩
  have hs : GoodReachable ⟨1, 1, 100⟩ s := .step (.call .initProcess) .init trivial h1
  exact ⟨s, h1, hs, hc, call_completes hs hc⟩

end Pool

end RoboTwinPool
