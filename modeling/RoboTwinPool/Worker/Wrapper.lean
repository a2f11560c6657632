import RoboTwinPool.Basic.Codec

set_option autoImplicit false

/-! # The environment adapter `RobotwinEnvWrapper`

One adapter wraps one simulator task. The simulator itself is not modelled: every call
the adapter makes on it is answered by a reply that the caller supplies, so a statement
over all replies is a statement over every behaviour of the simulator. A reply says
whether a call raised and, if not, what it returned: the two attempts of `initialize`
(`Setup`), the two attempts of `get_obs`, and for `step` whether `take_action` raised,
the `eval_success` after it and whether the following `get_obs` raised. A failure of
`initialize` is an `Exception`, or the `SystemExit` of `get_robotwin2_task`, which no
`except Exception` of the adapter or of the worker catches.

An adapter keeps the fields the pool reads (`trial_id`, `trial_seed`, `active`,
`complete`, `finish_step`) and, as a history variable that no operation reads, the list
of calls made on it with their results (`calls`). A new adapter starts with an empty
history; the history is what "the current adapter" has done since it was created.
-/

namespace RoboTwinPool

/-- The part of a simulator observation the pool reads (`update_obs`): the RGB images of
the head, right and left cameras and `joint_action["vector"]`. -/
structure Observation (α : Type) where
  headCamera : NdArray α
  rightCamera : NdArray α
  leftCamera : NdArray α
  jointAction : NdArray α
  deriving DecidableEq

/-- The observation has the shapes the configuration fixes: three cameras of
`IMAGE_SHAPE` and a joint state of `STATE_SIZE` entries. -/
def Observation.Shaped {α : Type} (o : Observation α) : Prop :=
  o.headCamera.shape = imageShape ∧ o.rightCamera.shape = imageShape ∧
    o.leftCamera.shape = imageShape ∧ o.jointAction.size = stateSize

instance {α : Type} : DecidablePred (Observation.Shaped (α := α)) := fun o =>
  inferInstanceAs (Decidable (o.headCamera.shape = imageShape ∧ o.rightCamera.shape = imageShape ∧
    o.leftCamera.shape = imageShape ∧ o.jointAction.size = stateSize))

/-- The simulator's answer to one `step`: `action` is `none` when `take_action` raised and
`some s` with `s = eval_success` otherwise; `obs` is `none` when `get_obs` raised. -/
structure StepReply (α : Type) where
  action : Option Bool
  obs : Option (Observation α)

/-- `done` in `step`: `eval_success`, or `False` when `take_action` raised. -/
def StepReply.done {α : Type} (r : StepReply α) : Bool := r.action.getD false

/-- A call made on one adapter, with its argument and result. -/
inductive AdapterCall (α : Type)
  | getObs (obs : Observation α)
  | step (action : NdArray α) (done : Bool) (obs : Option (Observation α))
  deriving DecidableEq

namespace AdapterCall

variable {α : Type}

/-- The observation a call delivered (`None` for a `step` whose `get_obs` raised). -/
def obs : AdapterCall α → Option (Observation α)
  | getObs o => some o
  | step _ _ o => o

/-- Whether the call is a `step`. -/
def isStep : AdapterCall α → Bool
  | getObs _ => false
  | step .. => true

/-- The success a `step` reported. -/
def stepDone : AdapterCall α → Option Bool
  | getObs _ => none
  | step _ d _ => some d

end AdapterCall

/-- The simulator's answer to one `initialize`: whether each of its two attempts
(`get_robotwin2_task`, then `setup_demo`) succeeds, and whether `get_robotwin2_task` raises
`SystemExit` in an attempt that is made; its bare `except:` turns every failure to import
or build the task class into `SystemExit`. -/
structure Setup where
  first : Bool
  second : Bool
  systemExit : Bool

/-- Whether `initialize` returns: the first attempt or, after an `Exception`, the second
succeeds, and no `SystemExit` escapes. -/
def Setup.ok (s : Setup) : Bool := !s.systemExit && (s.first || s.second)

/-- `RobotwinEnvWrapper`: the fields the pool reads and the history of calls. -/
structure Wrapper (α : Type) where
  trialId : Nat
  trialSeed : Nat
  active : Bool
  complete : Bool
  finishStep : Nat
  calls : List (AdapterCall α)

/-- `info` of `step`. -/
structure StepInfo where
  success : Bool
  fail : Bool
  timeout : Bool
  deriving DecidableEq, Repr

/-- What `step` returns: `obs, reward, terminated, truncated, info`. -/
structure StepOut (α : Type) where
  obs : Option (Observation α)
  reward : α
  terminated : Bool
  truncated : Bool
  info : StepInfo

namespace Wrapper

variable {α : Type}

/-- The number of sub-steps run on the adapter since it was created. -/
def stepCount (w : Wrapper α) : Nat := (w.calls.filter AdapterCall.isStep).length

/-- The latest observation the adapter delivered. -/
def latestObs (w : Wrapper α) : Option (Observation α) := w.calls.getLast?.bind AdapterCall.obs

/-- `RobotwinEnvWrapper(task_name, trial_id=seed, trial_seed=seed, ...)`. -/
def new (seed : Nat) : Wrapper α := ⟨seed, seed, true, false, 0, []⟩

/-- `initialize` (a keyword here): `get_robotwin2_task` and `setup_demo` are tried, and
after an `Exception` tried once more; the second failure propagates (`none`), and so does a
`SystemExit`. The fields the pool reads are unchanged. -/
def initEnv (w : Wrapper α) (setup : Setup) : Option (Wrapper α) :=
  if setup.ok then some w else none

/-- `get_obs`, retried once after a failure; the second failure propagates. -/
def getObs (w : Wrapper α) (attempts : Option (Observation α) × Option (Observation α)) :
    Option (Observation α × Wrapper α) :=
  match attempts.1 <|> attempts.2 with
  | some o => some (o, { w with calls := w.calls ++ [.getObs o] })
  | none => none

/-- `step(action)`. A failing `take_action` counts as no success and a failing `get_obs`
gives `obs = None`; `finish_step` grows by `action.shape[0]` (the worker's actions have
shape `(1, ACTION_DIM)`), and the episode is over on success or at `step_lim`. -/
def step [Zero α] [One α] (cfg : Config) (w : Wrapper α) (action : NdArray α)
    (r : StepReply α) : Wrapper α × StepOut α :=
  let done := r.done
  let finishStep := w.finishStep + action.shape.headD 0
  let timeout := decide (cfg.stepLim ≤ finishStep)
  let terminated := done
  let truncated := timeout && !terminated
  let over := terminated || truncated
  ({ w with
      active := if over then false else w.active
      complete := if over then done else w.complete
      finishStep := finishStep
      calls := w.calls ++ [.step action done r.obs] },
    ⟨r.obs, if done then 1 else 0, terminated, truncated,
      ⟨done, !done && !timeout, timeout && !done⟩⟩)

/-! ## Equations -/

@[simp] theorem new_finishStep (seed : Nat) : (new seed : Wrapper α).finishStep = 0 := rfl

@[simp] theorem new_calls (seed : Nat) : (new seed : Wrapper α).calls = [] := rfl

@[simp] theorem new_trialSeed (seed : Nat) : (new seed : Wrapper α).trialSeed = seed := rfl

theorem initEnv_eq_some {w w' : Wrapper α} {setup : Setup}
    (h : w.initEnv setup = some w') : w' = w := by
  unfold initEnv at h; split at h <;> simp_all

theorem getObs_eq_some {w w' : Wrapper α} {attempts : Option (Observation α) × Option (Observation α)}
    {o : Observation α} (h : w.getObs attempts = some (o, w')) :
    w' = { w with calls := w.calls ++ [.getObs o] } := by
  unfold getObs at h
  split at h
  · obtain ⟨rfl, rfl⟩ := Prod.mk.inj (Option.some.inj h); rfl
  · cases h

section Step

variable [Zero α] [One α] (cfg : Config) (w : Wrapper α) (action : NdArray α) (r : StepReply α)

@[simp] theorem step_finishStep :
    (w.step cfg action r).1.finishStep = w.finishStep + action.shape.headD 0 := rfl

@[simp] theorem step_calls :
    (w.step cfg action r).1.calls = w.calls ++ [.step action r.done r.obs] := rfl

@[simp] theorem step_obs : (w.step cfg action r).2.obs = r.obs := rfl

@[simp] theorem step_terminated : (w.step cfg action r).2.terminated = r.done := rfl

@[simp] theorem step_reward : (w.step cfg action r).2.reward = if r.done then 1 else 0 := rfl

@[simp] theorem step_truncated :
    (w.step cfg action r).2.truncated =
      (decide (cfg.stepLim ≤ w.finishStep + action.shape.headD 0) && !r.done) := rfl

end Step

end Wrapper

end RoboTwinPool
