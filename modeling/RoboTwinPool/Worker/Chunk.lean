import RoboTwinPool.Worker.Loop

set_option autoImplicit false

/-! # One chunk of a worker

The loop `for t in range(HORIZON)` runs sub-steps until the first one that reports success,
or to the end of the chunk (`rollout_spec`): each sub-step is one adapter `step`, recorded
in the adapter's history, and the loop variables end with the flags of the last sub-step
and the observations of all of them. The record of the chunk carries those flags and the
images of the last two observations (`chunkFields_eq_some`), and `runChunk_cases` lists
everything a chunk move can end in: a raise, or a record about to be published by the same
adapter or, after a success, by a fresh one.
-/

namespace RoboTwinPool

variable {α : Type}

/-! ## The first success -/

/-- The index of the first of the sub-steps `t, …, t + n - 1` whose reply reports success,
or `t + n` if none does. -/
def firstDone (replies : Nat → StepReply α) : Nat → Nat → Nat
  | 0, t => t
  | n + 1, t => if (replies t).done then t else firstDone replies n (t + 1)

/-- The number of sub-steps the loop runs from `t` with `n` iterations left: up to and
including the first success. -/
def subSteps (replies : Nat → StepReply α) (n t : Nat) : Nat :=
  min n (firstDone replies n t + 1 - t)

theorem le_firstDone (replies : Nat → StepReply α) : ∀ n t, t ≤ firstDone replies n t
  | 0, _ => le_refl _
  | n + 1, t => by
    unfold firstDone; split
    · exact le_refl _
    · exact Nat.le_of_succ_le (le_firstDone replies n (t + 1))

/-! ## Actions -/

/-- The row a worker reads from the action buffer has shape `(HORIZON, ACTION_DIM)`. -/
theorem shape_of_inputActions {cfg : Config} {pid : Nat} {actions : List α} {row : NdArray α}
    (h : inputActions cfg pid actions = some row) : row.shape = [cfg.horizon, actionDim] := by
  unfold inputActions at h
  cases hr : (NdArray.ofList actions).reshape [cfg.nEnvs, cfg.horizon, actionDim] with
  | none => rw [hr] at h; cases h
  | some a =>
    rw [hr] at h
    exact NdArray.shape_of_get (NdArray.shape_of_reshape hr) h

/-- Every sub-step of the chunk has its action, of shape `(1, ACTION_DIM)`. -/
theorem actionAt_of_shape {row : NdArray α} {H t : Nat} (h : row.shape = [H, actionDim])
    (ht : t < H) : ∃ a, actionAt row t = some a ∧ a.shape = [1, actionDim] := by
  obtain ⟨b, hb, hbs, -⟩ := NdArray.get_eq_some h ht
  have hr := NdArray.reshape_eq_some (a := b) (s := [1, actionDim]) (by simp [NdArray.size, hbs])
  exact ⟨_, by rw [actionAt, hb]; exact hr, rfl⟩

/-! ## Sub-steps -/

section Rollout

variable [Zero α] [One α] (cfg : Config)

/-- A sub-step with an action of shape `(1, ACTION_DIM)` advances `finish_step` by one. -/
theorem step_finishStep_of_shape {w : Wrapper α} {action : NdArray α} (r : StepReply α)
    (h : action.shape = [1, actionDim]) :
    (w.step cfg action r).1.finishStep = w.finishStep + 1 := by
  simp [h]

/-- The adapter calls of the sub-steps `t, …, t + k - 1`. -/
def stepCalls (act : Nat → NdArray α) (replies : Nat → StepReply α) (t k : Nat) :
    List (AdapterCall α) :=
  (List.range' t k).map fun i => .step (act i) (replies i).done (replies i).obs

variable (row : NdArray α) (replies : Nat → StepReply α)

/-- The loop variables after sub-step `t`. -/
def Acc.after (acc : Acc α) (out : StepOut α) : Acc α :=
  ⟨out.reward, out.terminated, out.truncated, acc.obsList ++ [out.obs]⟩

/-- One iteration of the loop: the sub-step, then `break` on `terminated`. -/
theorem rollout_succ {n t : Nat} {wr : Wrapper α} {acc : Acc α} {a : NdArray α}
    (ha : actionAt row t = some a) :
    rollout cfg row replies (n + 1) t (wr, acc) =
      if (replies t).done then some ((wr.step cfg a (replies t)).1, acc.after (wr.step cfg a (replies t)).2)
      else rollout cfg row replies n (t + 1)
        ((wr.step cfg a (replies t)).1, acc.after (wr.step cfg a (replies t)).2) := by
  rw [rollout, ha]; rfl

/-- The loop ends after sub-step `t` when that sub-step reports success or is the last
iteration: it ran one sub-step, whose flags it ends with. -/
theorem rollout_stop (act : Nat → NdArray α) {n t : Nat} {wr : Wrapper α} {acc : Acc α}
    (ha : actionAt row t = some (act t)) (hs : (act t).shape = [1, actionDim])
    (hstop : (replies t).done = true ∨ n = 0) :
    ∃ wr' acc', rollout cfg row replies (n + 1) t (wr, acc) = some (wr', acc') ∧
      wr'.calls = wr.calls ++ stepCalls act replies t (subSteps replies (n + 1) t) ∧
      wr'.finishStep = wr.finishStep + subSteps replies (n + 1) t ∧
      acc'.obsList = acc.obsList ++
        (List.range' t (subSteps replies (n + 1) t)).map (fun i => (replies i).obs) ∧
      acc'.terminated = decide (firstDone replies (n + 1) t < t + (n + 1)) ∧
      acc'.reward = flag (decide (firstDone replies (n + 1) t < t + (n + 1))) ∧
      acc'.truncated = (decide (cfg.stepLim ≤ wr'.finishStep) &&
        !decide (firstDone replies (n + 1) t < t + (n + 1))) := by
  have hfirst : (replies t).done = true → firstDone replies (n + 1) t = t := fun hd => by
    simp [firstDone, hd]
  have hle := le_firstDone replies (n + 1) t
  have hsub : subSteps replies (n + 1) t = 1 := by
    rcases hstop with hd | rfl
    · simp only [subSteps, hfirst hd]; omega
    · simp only [subSteps]; omega
  have hterm : decide (firstDone replies (n + 1) t < t + (n + 1)) = (replies t).done := by
    rcases hstop with hd | rfl
    · simp [hfirst hd, hd]
    · cases hd : (replies t).done <;> simp [firstDone, hd]
  refine ⟨(wr.step cfg (act t) (replies t)).1, acc.after (wr.step cfg (act t) (replies t)).2,
    ?_, ?_, ?_, ?_, ?_⟩
  · rw [rollout_succ cfg row replies ha]
    rcases hstop with hd | rfl
    · rw [if_pos hd]
    · split <;> rfl
  · simp [hsub, stepCalls]
  · rw [hsub, step_finishStep_of_shape cfg _ hs]
  · simp [hsub, Acc.after]
  · rw [hterm]; simp [Acc.after, flag, hs]

/-- **The rollout loop.** With `n + 1` iterations left at sub-step `t`, the loop runs
`subSteps` sub-steps, each one adapter `step` on the action of its index, and ends with
the flags of the last one: terminated exactly when some sub-step reported success, and
truncated when the adapter's `finish_step` reached `step_lim` without success. -/
theorem rollout_spec (act : Nat → NdArray α) : ∀ (n t : Nat) (wr : Wrapper α) (acc : Acc α),
    (∀ i, t ≤ i → i ≤ t + n → actionAt row i = some (act i) ∧ (act i).shape = [1, actionDim]) →
    ∃ wr' acc', rollout cfg row replies (n + 1) t (wr, acc) = some (wr', acc') ∧
      wr'.calls = wr.calls ++ stepCalls act replies t (subSteps replies (n + 1) t) ∧
      wr'.finishStep = wr.finishStep + subSteps replies (n + 1) t ∧
      acc'.obsList = acc.obsList ++
        (List.range' t (subSteps replies (n + 1) t)).map (fun i => (replies i).obs) ∧
      acc'.terminated = decide (firstDone replies (n + 1) t < t + (n + 1)) ∧
      acc'.reward = flag (decide (firstDone replies (n + 1) t < t + (n + 1))) ∧
      acc'.truncated = (decide (cfg.stepLim ≤ wr'.finishStep) &&
        !decide (firstDone replies (n + 1) t < t + (n + 1))) := by
  intro n
  induction n with
  | zero =>
    intro t wr acc hact
    obtain ⟨ha, hs⟩ := hact t (le_refl _) (Nat.le_add_right _ _)
    exact rollout_stop cfg row replies act ha hs (.inr rfl)
  | succ n ih =>
    intro t wr acc hact
    obtain ⟨ha, hs⟩ := hact t (le_refl _) (Nat.le_add_right _ _)
    by_cases hd : (replies t).done
    · exact rollout_stop cfg row replies act ha hs (.inl hd)
    have hd' : (replies t).done = false := by simpa using hd
    obtain ⟨wr', acc', hr, hc, hf, ho, ht, hw, htr⟩ :=
      ih (t + 1) (wr.step cfg (act t) (replies t)).1 (acc.after (wr.step cfg (act t) (replies t)).2)
        fun i h1 h2 => hact i (by omega) (by omega)
    have hj : firstDone replies (n + 2) t = firstDone replies (n + 1) (t + 1) := by
      simp [firstDone, hd']
    have hlt : t + 1 ≤ firstDone replies (n + 1) (t + 1) := le_firstDone _ _ _
    have hsub : subSteps replies (n + 2) t = subSteps replies (n + 1) (t + 1) + 1 := by
      simp only [subSteps, hj]; omega
    have hlim : t + 1 + (n + 1) = t + (n + 1 + 1) := by omega
    refine ⟨wr', acc', ?_, ?_, ?_, ?_, ?_⟩
    · rw [rollout_succ cfg row replies ha, if_neg hd, hr]
    · rw [hc, hsub, stepCalls, stepCalls, List.range'_succ]
      simp [hd']
    · rw [hf, hsub, step_finishStep_of_shape cfg _ hs]; omega
    · rw [ho, hsub, List.range'_succ]; simp [Acc.after]
    · rw [hj, ← hlim]; exact ⟨ht, hw, htr⟩

/-! ## The record and the auto-reset -/

variable {cfg}

/-- The record of a chunk: the images of `penult_obs` and `last_obs`, the state of
`last_obs`, and the loop's last reward and flags. -/
theorem chunkFields_eq_some {prevObs : Option (Observation α)} {acc : Acc α} {f : Fields α}
    (h : chunkFields cfg prevObs acc = some f) :
    ∃ imgsA stateA imgsB, updateObs (penultObs prevObs acc) = some (imgsA, stateA) ∧
      updateObs (lastObs prevObs acc) = some (imgsB, f.state) ∧ f.images = imgsA ++ imgsB ∧
      f.reward = acc.reward ∧ f.terminated = flag acc.terminated ∧
      f.truncated = flag acc.truncated := by
  unfold chunkFields at h
  cases hA : updateObs (penultObs prevObs acc) with
  | none => simp [hA] at h
  | some pA =>
    cases hB : updateObs (lastObs prevObs acc) with
    | none => simp [hA, hB] at h
    | some pB =>
      cases hP : startPoses (α := α) cfg.horizon with
      | none => simp [hA, hB, hP] at h
      | some poses =>
        simp only [hA, hB, hP, Option.bind_eq_bind, Option.some_bind, Option.pure_def,
          Option.some.injEq] at h
        subst h
        exact ⟨pA.1, pA.2, pB.1, rfl, rfl, rfl, rfl, rfl, rfl⟩

omit [Zero α] [One α] in
/-- The auto-reset's adapter is new, for the claimed seed, and has delivered one
observation. -/
theorem autoReset_eq_some {c : Nat} {reply : Reply α} {wr : Wrapper α} {o : Observation α}
    (h : autoReset c reply = some (wr, o)) : wr = { (Wrapper.new c : Wrapper α) with calls := [.getObs o] } := by
  unfold autoReset at h
  cases hi : (Wrapper.new c : Wrapper α).initEnv reply.setup with
  | none => simp [hi] at h
  | some wr0 =>
    cases hg : wr0.getObs reply.obs with
    | none => simp [hi, hg] at h
    | some p =>
      simp only [hi, hg, Option.bind_eq_bind, Option.some_bind, Option.pure_def,
        Option.some.injEq] at h
      obtain ⟨o', wr'⟩ := p
      obtain ⟨rfl, rfl⟩ := Prod.mk.inj h
      rw [Wrapper.getObs_eq_some hg, Wrapper.initEnv_eq_some hi]
      rfl

/-- **What a chunk move ends in**: a raise, or the record of the chunk about to be
published, by the adapter the chunk ran on or, after a success, by the auto-reset's new
adapter with its first observation as `prev_obs`. -/
theorem runChunk_cases (pid : Nat) (w : Worker α) (env : Env α) :
    (w.runChunk cfg pid env).1 = w.crash ∨
    ∃ row wr acc f res, inputActions cfg pid env.actions = some row ∧
      rollout cfg row env.reply.steps cfg.horizon 0 (w.wrapper, .init) = some (wr, acc) ∧
      chunkFields cfg w.prevObs acc = some f ∧ f.pack = some res ∧
      ((acc.terminated = false ∧
          (w.runChunk cfg pid env).1 = ⟨.publish res, wr, lastObs w.prevObs acc⟩) ∨
        (acc.terminated = true ∧ ∃ o, (w.runChunk cfg pid env).1 =
          ⟨.publish res, { (Wrapper.new env.cursor : Wrapper α) with calls := [.getObs o] }, some o⟩)) := by
  unfold Worker.runChunk
  split
  · exact .inl rfl
  · rename_i row hrow
    split
    · exact .inl rfl
    · rename_i wr acc hroll
      split
      · exact .inl rfl
      · rename_i f hf
        split
        · rename_i ht
          split
          · exact .inl rfl
          · rename_i wr' o hauto
            unfold Worker.toPublish
            split
            · rename_i res hres
              refine .inr ⟨row, wr, acc, f, res, hrow, hroll, hf, hres, .inr ⟨ht, o, ?_⟩⟩
              rw [autoReset_eq_some hauto]
            · exact .inl rfl
        · rename_i ht
          unfold Worker.toPublish
          split
          · rename_i res hres
            exact .inr ⟨row, wr, acc, f, res, hrow, hroll, hf, hres, .inl ⟨by simpa using ht, rfl⟩⟩
          · exact .inl rfl

end Rollout

end RoboTwinPool
