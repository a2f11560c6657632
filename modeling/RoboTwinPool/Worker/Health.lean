import RoboTwinPool.Worker.Chunk

set_option autoImplicit false

/-! # A worker on a simulator that answers

The worker raises only where the simulator lets it down: an adapter that does not
initialize, a `get_obs` that raises twice, an observation of other shapes than the
configured ones (`update_obs`, `np.array` or the slice assignment then raise), and, inside
the adapter's `step`, a `get_obs` that raises and comes back as `obs = None`
(`chunk_raises_of_lost_obs`). On a good reply (`Reply.Good`) none of this happens: every
move keeps the worker `Healthy` (alive, holding an observation of the configured shapes once
it has pushed one, and about to publish only records of sized fields with at most one flag
set), and every move but the acquire of a go-signal brings it closer to blocking on
`input_sem` (`Phase.rank`).
-/

namespace RoboTwinPool

variable {α : Type}

/-! ## Good replies -/

/-- An observation was delivered and has the configured shapes. -/
def ShapedObs (x : Option (Observation α)) : Prop := ∃ o, x = some o ∧ o.Shaped

/-- The simulator answers one move without error: `initialize` returns, `get_obs` delivers
an observation of the configured shapes at one of its two attempts, and so does the
`get_obs` inside every sub-step's `step`. -/
structure Reply.Good (r : Reply α) : Prop where
  setup : r.setup.ok = true
  obs : ShapedObs (r.obs.1 <|> r.obs.2)
  steps : ∀ t, ShapedObs (r.steps t).obs

/-- The last element of a list of shaped observations, or a shaped default, is shaped. -/
theorem ShapedObs.getLast {l : List (Option (Observation α))} {d : Option (Observation α)}
    (hl : ∀ x ∈ l, ShapedObs x) (hd : ShapedObs d) : ShapedObs (l.getLast?.getD d) := by
  cases h : l.getLast? with
  | none => exact hd
  | some x => exact hl x (List.mem_of_getLast?_eq_some h)

/-- The zero observation of the configured shapes. -/
def Observation.zero [Zero α] : Observation α :=
  ⟨.zeros imageShape, .zeros imageShape, .zeros imageShape, .zeros [actionDim]⟩

/-- A simulator that answers every move: `setup_demo` and `get_obs` succeed with zero
observations, and no sub-step succeeds. -/
def Reply.blank [Zero α] : Reply α :=
  ⟨⟨true, true, false⟩, (some .zero, none), fun _ => ⟨some false, some .zero⟩⟩

theorem Reply.blank_good [Zero α] : (Reply.blank : Reply α).Good :=
  ⟨rfl, ⟨_, rfl, rfl, rfl, rfl, rfl⟩, fun _ => ⟨_, rfl, rfl, rfl, rfl, rfl⟩⟩

/-! ## How far a process is from blocking -/

namespace Phase

/-- Whether the process has made its initial push; from then on it keeps an observation. -/
def pushed : Phase α → Bool
  | boot | awaitFirst | first | dead _ => false
  | _ => true

/-- The most moves the process makes before it next blocks on `input_sem`, when its
adapters initialize: `first → publish → signal → await`, `dispatch → reseed → reseedObs →
publish → signal → await`, `dispatch → chunk → publish → signal → await`. -/
def rank : Phase α → Nat
  | boot | signal => 1
  | awaitFirst | await | dead _ => 0
  | first | reseedObs | chunk => 3
  | publish _ => 2
  | reseed => 4
  | dispatch => 5

/-- A move lowers the rank, but for the acquire of a go-signal, which raises it by at most
five; a reseed must not stay a reseed (its retry loop). -/
theorem Next.rank_lt {p p' : Phase α} {e : Effect α} (h : p.Next p' e) (hd : p.isDead = false)
    (hr : p = .reseed → p' = .reseedObs) :
    p'.rank < p.rank + 6 ∧ (p.awaitsGo = false → p'.rank < p.rank) := by
  cases p <;> simp only [Next] at h <;> casesm* _ ∨ _, _ ∧ _, ∃ _, _ <;> subst_vars <;>
    first | (simp [rank, awaitsGo]; done) | cases hr rfl | cases hd

/-- The next move of a process blocked on `input_sem` is the acquire. -/
theorem Next.acquire_of_awaitsGo {p p' : Phase α} {e : Effect α} (h : p.Next p' e)
    (hg : p.awaitsGo = true) : e = .acquire := by
  cases p <;> simp only [Next] at h <;> casesm* _ ∨ _, _ ∧ _, ∃ _, _ <;> first
    | assumption | cases hg

end Phase

/-! ## The chunk on good replies -/

section Chunk

variable {cfg : Config}

/-- A batch of `n_envs * input_size` elements has a row for every worker. -/
theorem inputActions_isSome {actions : List α} (ha : actions.length = cfg.nEnvs * cfg.inputSize)
    {pid : Nat} (hpid : pid < cfg.nEnvs) : (inputActions cfg pid actions).isSome := by
  have hs : (NdArray.ofList actions).size = [cfg.nEnvs, cfg.horizon, actionDim].prod := by
    simp [NdArray.size, ha, Config.inputSize, Nat.mul_assoc]
  rw [inputActions, NdArray.reshape_eq_some hs, Option.bind_eq_bind, Option.some_bind]
  simp [NdArray.get, hpid]

/-- On a good reply the auto-reset's new adapter comes up with an observation of the
configured shapes. -/
theorem autoReset_shaped {reply : Reply α} (hr : reply.Good) (c : Nat) :
    ∃ wr o, autoReset c reply = some (wr, o) ∧ o.Shaped := by
  obtain ⟨o, hobs, hsh⟩ := hr.obs
  exact ⟨_, o, by simp [autoReset, Wrapper.initEnv, hr.setup, Wrapper.getObs, hobs]; rfl, hsh⟩

variable [Zero α] [One α]

variable (cfg) in
/-- A sub-step never reports both flags: `truncated` is `timeout and not terminated`. -/
theorem Acc.after_flags (acc : Acc α) (wr : Wrapper α) (a : NdArray α) (r : StepReply α) :
    ((acc.after (wr.step cfg a r).2).terminated &&
      (acc.after (wr.step cfg a r).2).truncated) = false := by
  simp only [Acc.after, Wrapper.step_terminated, Wrapper.step_truncated]
  cases r.done <;> simp

variable (cfg) in
/-- On sub-steps that all deliver shaped observations, the loop over a row with an action
for every sub-step runs to its end, collects only shaped observations and ends with at most
one flag set. -/
theorem rollout_shaped (row : NdArray α) {replies : Nat → StepReply α}
    (hrep : ∀ t, ShapedObs (replies t).obs) :
    ∀ n t (wr : Wrapper α) (acc : Acc α), (∀ i, t ≤ i → i < t + n → (actionAt row i).isSome) →
      (∀ x ∈ acc.obsList, ShapedObs x) → (acc.terminated && acc.truncated) = false →
      ∃ wr' acc', rollout cfg row replies n t (wr, acc) = some (wr', acc') ∧
        (∀ x ∈ acc'.obsList, ShapedObs x) ∧ (acc'.terminated && acc'.truncated) = false := by
  intro n
  induction n with
  | zero => exact fun t wr acc _ hacc hf => ⟨wr, acc, rfl, hacc, hf⟩
  | succ n ih =>
    intro t wr acc hact hacc _
    obtain ⟨a, ha⟩ := Option.isSome_iff_exists.mp (hact t le_rfl (by omega))
    have hacc' : ∀ x ∈ (acc.after (wr.step cfg a (replies t)).2).obsList, ShapedObs x := by
      simp only [Acc.after, List.mem_append, List.mem_singleton, Wrapper.step_obs]
      rintro x (hx | rfl)
      exacts [hacc x hx, hrep t]
    have hf' := Acc.after_flags cfg acc wr a (replies t)
    rw [rollout_succ cfg row replies ha]
    split
    · exact ⟨_, _, rfl, hacc', hf'⟩
    · exact ih (t + 1) _ _ (fun i h1 h2 => hact i (by omega) (by omega)) hacc' hf'

variable (cfg) in
/-- The record of a chunk whose two observations have the configured shapes has the
configured sizes, and at most one of its flags set when the loop ended so. -/
theorem chunkFields_sized {prevObs : Option (Observation α)} {acc : Acc α}
    (hA : ShapedObs (penultObs prevObs acc)) (hB : ShapedObs (lastObs prevObs acc))
    (hx : (acc.terminated && acc.truncated) = false) :
    ∃ f, chunkFields cfg prevObs acc = some f ∧ f.Sized cfg ∧
      (f.terminated = 0 ∨ f.truncated = 0) := by
  obtain ⟨oA, hA, sA⟩ := hA
  obtain ⟨oB, hB, sB⟩ := hB
  obtain ⟨imgsA, uA, lA, shA⟩ := updateObs_shaped sA
  obtain ⟨imgsB, uB, lB, shB⟩ := updateObs_shaped sB
  obtain ⟨p, hp, hps⟩ := startPoses_shape (α := α) cfg.horizon
  refine ⟨⟨imgsA ++ imgsB, oB.jointAction, acc.reward, flag acc.terminated, flag acc.truncated, p⟩,
    by simp [chunkFields, hA, hB, uA, uB, hp], ⟨by simp [lA, lB]; rfl, ?_, sB.2.2.2, hps⟩, ?_⟩
  · simp only [List.mem_append]
    rintro im (h | h)
    exacts [shA im h, shB im h]
  · rcases Bool.and_eq_false_iff.mp hx with h | h <;> simp [flag, h]

end Chunk

/-! ## Healthy workers -/

/-- What a worker keeps along a run on good replies: it has not raised, once past its
initial push it holds an observation of the configured shapes, and a record it is about to
publish is the record of sized fields with at most one flag set. -/
structure Worker.Healthy [Zero α] (cfg : Config) (w : Worker α) : Prop where
  alive : w.phase.isDead = false
  kept : w.phase.pushed = true → ShapedObs w.prevObs
  record : ∀ res, w.phase = .publish res →
    ∃ f : Fields α, f.Sized cfg ∧ f.pack = some res ∧ (f.terminated = 0 ∨ f.truncated = 0)

namespace Worker

variable {cfg : Config} [Zero α]

/-- A record a healthy worker is about to publish has `result_size` elements. -/
theorem Healthy.sized {w : Worker α} (hh : w.Healthy cfg) {res : NdArray α}
    (hp : w.phase = .publish res) : res.size = cfg.resultSize := by
  obtain ⟨f, hf, hpack, -⟩ := hh.record res hp
  obtain ⟨r, -, hr, hrs, -, -⟩ := hf.deInitializeRow_pack
  rw [hpack, Option.some.injEq] at hr
  simp [hr, NdArray.size, hrs]

/-- A worker that moves to a phase other than a raise or a publish is healthy when it keeps
an observation of the configured shapes wherever it has to. -/
theorem healthy_of_phase {p : Phase α} {wr : Wrapper α} {o : Option (Observation α)}
    (hd : p.isDead = false) (hpub : ∀ res, p ≠ .publish res)
    (hk : p.pushed = true → ShapedObs o) : (⟨p, wr, o⟩ : Worker α).Healthy cfg :=
  ⟨hd, hk, fun res h => absurd h (hpub res)⟩

theorem Healthy.init : (Worker.init : Worker α).Healthy cfg :=
  healthy_of_phase rfl nofun nofun

/-- The record of sized fields with at most one flag set is published as such. -/
theorem toPublish_healthy {w : Worker α} {f : Fields α} (hf : f.Sized cfg)
    (hx : f.terminated = 0 ∨ f.truncated = 0) (wr : Wrapper α) {o : Option (Observation α)}
    (ho : ShapedObs o) : (w.toPublish f wr o).Healthy cfg := by
  obtain ⟨r, c, hp, -, -, -⟩ := hf.deInitializeRow_pack
  unfold toPublish
  rw [hp]
  exact ⟨rfl, fun _ => ho, fun res h => by cases h; exact ⟨f, hf, hp, hx⟩⟩

variable [One α]

omit [One α] in
/-- On a good reply the initial push and the reseed's push publish the record of the
delivered observation. -/
theorem publishFresh_healthy (w : Worker α) {env : Env α} (hr : env.reply.Good) (t : α) :
    (w.publishFresh cfg env t).Healthy cfg := by
  obtain ⟨o, hobs, hsh⟩ := hr.obs
  obtain ⟨f, hf, hsz, -, h0, -, -⟩ := freshFields_sized cfg hsh t
  have hg : w.wrapper.getObs env.reply.obs = some (o, { w.wrapper with calls := w.wrapper.calls ++ [.getObs o] }) := by
    simp only [Wrapper.getObs, hobs]
  simp only [publishFresh, hg, hf]
  exact toPublish_healthy hsz (.inl h0) _ ⟨o, rfl, hsh⟩

/-- On a good reply a chunk over the worker's row publishes a record of `result_size`
elements and keeps an observation of the configured shapes. -/
theorem runChunk_healthy {w : Worker α} (hh : w.Healthy cfg) (hp : w.phase = .chunk) {pid : Nat}
    {env : Env α} (hr : env.reply.Good) (hrow : (inputActions cfg pid env.actions).isSome) :
    (w.runChunk cfg pid env).1.Healthy cfg := by
  obtain ⟨row, hrow⟩ := Option.isSome_iff_exists.mp hrow
  have hshape := shape_of_inputActions hrow
  obtain ⟨wr, acc, hroll, hobs, hx⟩ := rollout_shaped cfg row hr.steps cfg.horizon 0 w.wrapper
    .init (fun i _ hi => by
      obtain ⟨a, ha, -⟩ := actionAt_of_shape hshape (by omega : i < cfg.horizon)
      simp [ha]) (by simp [Acc.init]) rfl
  have hprev := hh.kept (by rw [hp]; rfl)
  have hB : ShapedObs (lastObs w.prevObs acc) := ShapedObs.getLast hobs hprev
  have hA : ShapedObs (penultObs w.prevObs acc) :=
    ShapedObs.getLast (fun x hx => hobs x (List.dropLast_subset _ hx)) hprev
  obtain ⟨f, hf, hsz, hfl⟩ := chunkFields_sized cfg hA hB hx
  unfold runChunk
  simp only [hrow, hroll, hf]
  split
  · obtain ⟨wr', o, ha, hsh⟩ := autoReset_shaped hr env.cursor
    simp only [ha]
    exact toPublish_healthy hsz hfl _ ⟨o, rfl, hsh⟩
  · exact toPublish_healthy hsz hfl _ hB

/-! ## Every move -/

/-- With an adapter that initializes, the reseed neither retries nor raises. -/
theorem move_reseed_of_setup {w : Worker α} (hp : w.phase = .reseed) {env : Env α}
    (hs : env.reply.setup.ok = true) (pid : Nat) :
    (w.move cfg pid env).1.phase = .reseedObs := by
  simp [Worker.move, hp, Wrapper.initEnv, hs]

/-- A move of a live process whose adapter initializes is the acquire of a go-signal, which
raises its rank by at most five, or lowers its rank. -/
theorem move_rank {w : Worker α} (hd : w.phase.isDead = false) (env : Env α)
    (hs : env.reply.setup.ok = true) (pid : Nat) :
    ((w.move cfg pid env).2 = .acquire ∧ (w.move cfg pid env).1.phase.rank < w.phase.rank + 6) ∨
      ((w.move cfg pid env).2 ≠ .acquire ∧ (w.move cfg pid env).1.phase.rank < w.phase.rank) := by
  have hn := move_next cfg pid w env
  have hr := hn.rank_lt hd fun hp => move_reseed_of_setup hp hs pid
  by_cases ha : (w.move cfg pid env).2 = .acquire
  · exact .inl ⟨ha, hr.1⟩
  · refine .inr ⟨ha, hr.2 ?_⟩
    cases hg : w.phase.awaitsGo
    · rfl
    · exact absurd (hn.acquire_of_awaitsGo hg) ha

/-- **A good reply keeps the worker healthy.** Worker `pid < n_envs`, reading an action
buffer of `n_envs * input_size` elements, never raises on a good reply. -/
theorem Healthy.move {w : Worker α} (hh : w.Healthy cfg) {pid : Nat} {env : Env α}
    (hr : env.reply.Good) (hpid : pid < cfg.nEnvs)
    (ha : env.actions.length = cfg.nEnvs * cfg.inputSize) :
    (w.move cfg pid env).1.Healthy cfg := by
  have hrow := inputActions_isSome ha hpid
  have hkept : w.phase.pushed = true → ShapedObs w.prevObs := hh.kept
  unfold Worker.move
  split <;> rename_i hp
  case h_1 =>
    simp only [Wrapper.initEnv, hr.setup, if_true]
    exact healthy_of_phase rfl nofun nofun
  case h_2 => exact healthy_of_phase rfl nofun nofun
  case h_3 => exact publishFresh_healthy w hr 0
  case h_4 => exact healthy_of_phase rfl nofun fun _ => hkept (by rw [hp]; rfl)
  case h_5 =>
    obtain ⟨row, hrow⟩ := Option.isSome_iff_exists.mp hrow
    simp only [hrow]
    exact healthy_of_phase (by split <;> rfl) (by split <;> nofun)
      fun _ => hkept (by rw [hp]; rfl)
  case h_6 =>
    simp only [Wrapper.initEnv, hr.setup, if_true]
    exact healthy_of_phase rfl nofun fun _ => hkept (by rw [hp]; rfl)
  case h_7 => exact publishFresh_healthy w hr 1
  case h_8 => exact runChunk_healthy hh hp hr hrow
  case h_9 =>
    rw [if_pos ⟨hpid, hh.sized hp⟩]
    exact healthy_of_phase rfl nofun fun _ => hkept (by rw [hp]; rfl)
  case h_10 => exact healthy_of_phase rfl nofun fun _ => hkept (by rw [hp]; rfl)
  case h_11 =>
    have hd := hh.alive
    rw [hp] at hd
    cases hd

end Worker

end RoboTwinPool
