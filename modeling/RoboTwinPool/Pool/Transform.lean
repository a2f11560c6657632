import RoboTwinPool.Pool.Liveness

set_option autoImplicit false

/-! # What the training loop receives

`step` and `reset` hand the entries `de_initialize_result` decoded to `transform`, which
batches them: the states stacked into one tensor, the rewards and the two flags into vectors
of `n_envs` (a flag is true when its double is nonzero), the pose blocks into a list.
`chunk_step` calls `step` once for every column `chunk_actions[:, i]` of its action chunk
and stacks what the calls return: the rewards as `n_envs x chunk_size`, and the
terminations and truncations moved to the last column, which holds whether any step of the
chunk reported one.

* `transform_readResults_isSome_iff`: the controller's read and `transform` together raise
  exactly on a buffer of the wrong length, or on a pool of no processes, where `torch.stack`
  gets an empty list;
* `chunk_step_completes`: on good replies, `chunk_step` on a chunk whose columns have
  `n_envs * input_size` elements can run to its end, every one of its `step` calls
  returning, and returns a row of `chunk_size` rewards and flags for every environment;
* `chunk_step_raises_of_horizon`: on a chunk of the shape its comment gives,
  `[num_envs, chunk_step, action_dim]`, every run of `chunk_step` makes one call, which
  raises, unless `horizon` is 1: `step` copies the column's `n_envs * action_dim` values
  into a buffer of `n_envs * horizon * action_dim`;
* `returned_flags_exclusive`: on good replies no call ever returns an environment both
  terminated and truncated, whatever the interleaving, since every slice of the buffer holds
  the zeros `init_process` allocated or a record whose flags come from one sub-step.

The images are left out: `transform` resizes and JPEG-recodes them with OpenCV and
permutes their axes, and nothing here reads them; like the states, they fail to stack only
on a pool of no processes.
-/

namespace RoboTwinPool

variable {α : Type}

/-! ## Tensors from arrays -/

namespace NdArray

/-- `t[i] = torch.from_numpy(a)` into one slot of a batch vector: `a`'s only element;
torch raises unless `a` has one element and at most one axis. -/
def item (a : NdArray α) : Option α :=
  if a.shape.length ≤ 1 then
    match a.data with
    | [x] => some x
    | _ => none
  else none

theorem item_of_shape {a : NdArray α} (h : a.shape = [1]) : ∃ x, a.item = some x := by
  obtain ⟨shape, data, hl⟩ := a
  subst h
  match data, hl with
  | [x], _ => exact ⟨x, rfl⟩

/-- `torch.stack(ts)`: `np.array` of equally shaped arrays, but raising on an empty list. -/
def torchStack : List (NdArray α) → Option (NdArray α)
  | [] => none
  | a :: as => stack (a :: as)

/-- `a[:, i]`: the `i`-th subarray along the second axis of every row, under the shape of
`a` without its second axis. -/
def column (a : NdArray α) (i : Nat) : Option (NdArray α) :=
  match a.shape with
  | n :: k :: rest =>
    if i < k then do
      let rows ← (List.range n).mapM fun j => a.get j >>= (·.get i)
      (ofList (rows.map data).flatten).reshape (n :: rest)
    else none
  | _ => none

theorem column_eq_some {a : NdArray α} {n k : Nat} {rest : List Nat}
    (h : a.shape = n :: k :: rest) {i : Nat} (hi : i < k) :
    ∃ c, a.column i = some c ∧ c.shape = n :: rest := by
  have hrow : ∀ j ∈ List.range n, ∃ r, (a.get j >>= (·.get i)) = some r ∧ r.shape = rest := by
    intro j hj
    obtain ⟨b, hb, hbs, -⟩ := get_eq_some h (List.mem_range.mp hj)
    obtain ⟨r, hr, hrs, -⟩ := get_eq_some hbs hi
    exact ⟨r, by rw [hb, Option.bind_eq_bind, Option.some_bind, hr], hrs⟩
  obtain ⟨rows, hrows, hsh⟩ := mapM_of_forall hrow
  simp only [Option.bind_eq_bind] at hrows
  have hflat : ((rows.map data).flatten).length = n * rest.prod := by
    rw [length_flatten_of_length_eq (k := rest.prod), List.length_map,
      length_of_mapM_eq_some hrows, List.length_range]
    intro d hd
    obtain ⟨r, hr, rfl⟩ := List.mem_map.mp hd
    rw [r.length_data, hsh r hr]
  refine ⟨⟨n :: rest, (rows.map data).flatten, by simp [hflat]⟩, ?_, rfl⟩
  simp only [column, h, if_pos hi, hrows, Option.bind_eq_bind, Option.some_bind]
  exact reshape_eq_some (a := ofList (rows.map data).flatten) (s := n :: rest)
    (by simp [size, hflat])

end NdArray

/-! ## transform -/

/-- What `transform` returns, the images aside: `obs_venv["state"]`, `reward_venv`,
`terminated_venv`, `truncated_venv` and `info_venv["return_poses"]`. -/
structure Batch (α : Type) where
  state : NdArray α
  reward : List α
  terminated : List Bool
  truncated : List Bool
  returnPoses : List (NdArray α)

section Transform

variable [Zero α] [DecidableEq α]

/-- `transform`, the images aside: slot `i` of every vector from the entry `results[i]`,
`i < n_envs`; a flag is `True` when its double is nonzero. -/
def transform (cfg : Config) (results : List (Cond α)) : Option (Batch α) := do
  let rs ← (List.range cfg.nEnvs).mapM fun i => results[i]?
  let reward ← rs.mapM (·.reward.item)
  let terminated ← rs.mapM (·.terminated.item)
  let truncated ← rs.mapM (·.truncated.item)
  let state ← NdArray.torchStack (rs.map (·.state))
  pure ⟨state, reward, terminated.map (· != 0), truncated.map (· != 0), rs.map (·.returnPoses)⟩

omit [Zero α] [DecidableEq α] in
theorem mapM_item {rs : List (Cond α)} (f : Cond α → NdArray α) (h : ∀ r ∈ rs, (f r).shape = [1]) :
    ∃ xs, rs.mapM (fun r => (f r).item) = some xs ∧ xs.length = rs.length := by
  obtain ⟨xs, hxs, -⟩ := mapM_of_forall (P := fun _ => True) fun r hr =>
    (NdArray.item_of_shape (h r hr)).elim fun x hx => ⟨x, hx, trivial⟩
  exact ⟨xs, hxs, length_of_mapM_eq_some hxs⟩

/-- On `n_envs` entries of the decoded shapes and a pool of processes, `transform` returns
vectors of `n_envs` and the states as one `n_envs x 1 x 14` tensor. -/
theorem transform_eq_some {cfg : Config} {cs : List (Cond α)} (hlen : cs.length = cfg.nEnvs)
    (hsz : ∀ c ∈ cs, c.Sized cfg) (hn : 0 < cfg.nEnvs) :
    ∃ b, transform cfg cs = some b ∧ b.reward.length = cfg.nEnvs ∧
      b.terminated.length = cfg.nEnvs ∧ b.truncated.length = cfg.nEnvs ∧
      b.state.shape = cfg.nEnvs :: stateShape := by
  obtain ⟨rs, hrs, hmem⟩ := mapM_of_forall (P := (· ∈ cs)) (l := List.range cfg.nEnvs)
    (f := fun i => cs[i]?) fun i hi =>
      ⟨_, List.getElem?_eq_getElem (hlen ▸ List.mem_range.mp hi), List.getElem_mem _⟩
  have hrl : rs.length = cfg.nEnvs := by rw [length_of_mapM_eq_some hrs, List.length_range]
  obtain ⟨rew, hrew, hrewl⟩ := mapM_item (·.reward) fun r hr => (hsz r (hmem r hr)).reward
  obtain ⟨te, hte, htel⟩ := mapM_item (·.terminated) fun r hr => (hsz r (hmem r hr)).terminated
  obtain ⟨tr, htr, htrl⟩ := mapM_item (·.truncated) fun r hr => (hsz r (hmem r hr)).truncated
  obtain ⟨r0, rs', rfl⟩ := List.exists_cons_of_length_pos (hrl ▸ hn)
  obtain ⟨st, hst, hsts, -⟩ := NdArray.stack_eq_some
    (show (r0 :: rs').map (·.state) ≠ [] from List.cons_ne_nil _ _) (s := stateShape) fun a ha => by
      obtain ⟨r, hr, rfl⟩ := List.mem_map.mp ha
      exact (hsz r (hmem r hr)).state
  rw [List.map_cons] at hst
  have ht : transform cfg cs = some ⟨st, rew, te.map (· != 0), tr.map (· != 0),
      (r0 :: rs').map (·.returnPoses)⟩ := by
    simp only [transform, hrs, hrew, hte, htr, hst, List.map_cons, NdArray.torchStack,
      Option.bind_eq_bind, Option.some_bind]
    rfl
  exact ⟨_, ht, hrewl.trans hrl, by rw [List.length_map, htel, hrl],
    by rw [List.length_map, htrl, hrl], by rw [hsts, List.length_map, hrl]⟩

theorem transform_of_zero {cfg : Config} (h : cfg.nEnvs = 0) (cs : List (Cond α)) :
    transform cfg cs = none := by
  simp only [transform, h]
  rfl

/-- Slot `i` of `transform`'s flag vectors is read from one entry, `results[i]`. -/
theorem transform_slot {cfg : Config} {cs : List (Cond α)} {b : Batch α}
    (h : transform cfg cs = some b) {i : Nat} {x y : Bool} (hx : b.terminated[i]? = some x)
    (hy : b.truncated[i]? = some y) :
    ∃ c ∈ cs, c.terminated.item.map (· != 0) = some x ∧
      c.truncated.item.map (· != 0) = some y := by
  simp only [transform, Option.bind_eq_bind, Option.bind_eq_some, Option.pure_def,
    Option.some.injEq] at h
  obtain ⟨rs, hrs, rew, -, te, hte, tr, htr, st, -, rfl⟩ := h
  simp only [List.getElem?_map, getElem?_of_mapM hte, getElem?_of_mapM htr] at hx hy
  cases hri : rs[i]? with
  | none => simp [hri] at hx
  | some c =>
    simp only [hri, Option.some_bind] at hx hy
    obtain ⟨j, -, hj⟩ := mem_of_mapM_eq_some hrs (List.getElem?_mem hri)
    exact ⟨c, List.getElem?_mem hj, hx, hy⟩

/-- **The controller's read and `transform` raise exactly on a buffer of the wrong length
or a pool of no processes.** Every buffer of `n_envs * result_size` elements, whatever it
holds, is decoded and batched, when there is a process, into vectors of `n_envs` and a state
tensor of `n_envs x 1 x 14`. -/
theorem transform_readResults_isSome_iff (cfg : Config) (buf : List α) :
    ((readResults cfg buf >>= transform cfg).isSome ↔
      buf.length = cfg.nEnvs * cfg.resultSize ∧ 0 < cfg.nEnvs) ∧
    ∀ b, (readResults cfg buf >>= transform cfg) = some b →
      b.reward.length = cfg.nEnvs ∧ b.terminated.length = cfg.nEnvs ∧
        b.truncated.length = cfg.nEnvs ∧ b.state.shape = cfg.nEnvs :: stateShape := by
  cases hr : readResults cfg buf with
  | none =>
    have hb : ¬ buf.length = cfg.nEnvs * cfg.resultSize := fun hb => by
      obtain ⟨cs, hcs, -⟩ := readResults_sized hb
      rw [hr] at hcs
      cases hcs
    simp [hb]
  | some cs =>
    have hb := length_of_readResults_isSome (by rw [hr]; rfl)
    obtain ⟨cs', hcs', hl, hsz⟩ := readResults_sized hb
    rw [hr, Option.some.injEq] at hcs'
    subst hcs'
    rw [Option.bind_eq_bind, Option.some_bind]
    rcases Nat.eq_zero_or_pos cfg.nEnvs with h0 | hn
    · simp [transform_of_zero h0, h0]
    · obtain ⟨b, ht, hlens⟩ := transform_eq_some hl hsz hn
      refine ⟨by simp [ht, hn, hb], fun b' h => ?_⟩
      rw [ht, Option.some.injEq] at h
      exact h ▸ hlens

end Transform

/-! ## chunk_step -/

/-- `chunk_step`'s actions: `chunk_actions[:, i]` for `i < chunk_actions.shape[1]`. -/
def chunkColumns (a : NdArray α) : Option (List (NdArray α)) :=
  match a.shape with
  | _ :: k :: _ => (List.range k).mapM a.column
  | _ => none

theorem chunkColumns_eq_some {a : NdArray α} {n k : Nat} {rest : List Nat}
    (h : a.shape = n :: k :: rest) :
    ∃ cols, chunkColumns a = some cols ∧ cols.length = k ∧ ∀ c ∈ cols, c.shape = n :: rest := by
  obtain ⟨cols, hcols, hsh⟩ := mapM_of_forall (l := List.range k) (f := a.column) fun i hi =>
    NdArray.column_eq_some h (List.mem_range.mp hi)
  refine ⟨cols, ?_, by rw [length_of_mapM_eq_some hcols, List.length_range], hsh⟩
  simp only [chunkColumns, h, hcols]

/-- `torch.stack(vs, dim=1)` of vectors of `n` entries: row `i` holds entry `i` of each. -/
def stackColumns {β : Type} (n : Nat) (d : β) (vs : List (List β)) : List (List β) :=
  (List.range n).map fun i => vs.map fun v => v.getD i d

@[simp] theorem length_stackColumns {β : Type} (n : Nat) (d : β) (vs : List (List β)) :
    (stackColumns n d vs).length = n := by
  simp [stackColumns]

theorem length_of_mem_stackColumns {β : Type} {n : Nat} {d : β} {vs : List (List β)}
    {row : List β} (h : row ∈ stackColumns n d vs) : row.length = vs.length := by
  obtain ⟨i, -, rfl⟩ := List.mem_map.mp h
  exact List.length_map _ _

/-- `zeros_like(raw)` with `[:, -1] = b`, for one row of `k` steps. -/
def lastColumn (k : Nat) (b : Bool) : List Bool := List.replicate (k - 1) false ++ [b]

/-- What `chunk_step` returns: the last step's `extracted_obs` and `infos`, and the rewards,
terminations and truncations as one row of `chunk_size` per environment. -/
structure ChunkOut (α : Type) where
  last : Batch α
  rewards : List (List α)
  terminations : List (List Bool)
  truncations : List (List Bool)

section ChunkStep

variable [Zero α] [DecidableEq α]

/-- What a call of `step` hands back: `transform`'s batch of the entries it decoded, with
`reward_venv = None` after `step(None)`; `none` where the call, its
`de_initialize_result` or `transform` raised. -/
def stepReturn (cfg : Config) : Returned α → Option (Batch α × Option (List α))
  | .results (.step _ null) (some cs) =>
    (transform cfg cs).map fun b => (b, if null then none else some b.reward)
  | _ => none

/-- `chunk_step`'s processing of what its `step` calls returned, in order. `torch.stack`
raises on no steps and on a `None` reward; with `auto_reset` set and some environment done
it calls `_handle_auto_reset`, which the class does not define. -/
def chunkStep (cfg : Config) (autoReset : Bool) (rets : List (Returned α)) :
    Option (ChunkOut α) := do
  let outs ← rets.mapM (stepReturn cfg)
  let last ← outs.getLast?
  let rewards ← outs.mapM (·.2)
  let pastTerm := (stackColumns cfg.nEnvs false (outs.map (·.1.terminated))).map List.or
  let pastTrunc := (stackColumns cfg.nEnvs false (outs.map (·.1.truncated))).map List.or
  if (List.zipWith (· || ·) pastTerm pastTrunc).or && autoReset then none
  else pure ⟨last.1, stackColumns cfg.nEnvs 0 rewards, pastTerm.map (lastColumn outs.length),
    pastTrunc.map (lastColumn outs.length)⟩

end ChunkStep

namespace Pool

section Run

variable [Zero α] [One α] [DecidableEq α] {cfg : Config} {s s' : Pool α}

/-- A run of `chunk_step`'s loop on the pool: for each action column `c` in turn, the call
`step(c)`, then moves of the controller and the processes until the pool is between calls
again, the call having returned `r`. The loop ends at the first call whose return raises.
`ls` is the whole schedule, the calls included. -/
inductive ChunkRun (cfg : Config) :
    Pool α → List (NdArray α) → List (Label α) → List (Returned α) → Pool α → Prop
  | nil (s : Pool α) : ChunkRun cfg s [] [] [] s
  | stop {s s₁ s₂ : Pool α} {c : NdArray α} {cols : List (NdArray α)} {ls : List (Label α)}
      {r : Returned α} :
      s.step cfg (.call (.step (some c))) = some s₁ → s₁.run cfg ls = some s₂ →
      (∀ l ∈ ls, l.isCall = false) → s₂.ctrl = .idle → s₂.returned = s.returned ++ [r] →
      stepReturn cfg r = none →
      ChunkRun cfg s (c :: cols) (.call (.step (some c)) :: ls) [r] s₂
  | next {s s₁ s₂ s₃ : Pool α} {c : NdArray α} {cols : List (NdArray α)}
      {ls sched : List (Label α)} {r : Returned α} {rs : List (Returned α)} :
      s.step cfg (.call (.step (some c))) = some s₁ → s₁.run cfg ls = some s₂ →
      (∀ l ∈ ls, l.isCall = false) → s₂.ctrl = .idle → s₂.returned = s.returned ++ [r] →
      (stepReturn cfg r).isSome → ChunkRun cfg s₂ cols sched rs s₃ →
      ChunkRun cfg s (c :: cols) (.call (.step (some c)) :: ls ++ sched) (r :: rs) s₃

omit [DecidableEq α] in
/-- Between calls the moves of the processes change neither the controller nor what the
calls returned, and the controller has no move. -/
theorem run_of_idle (hidle : s.ctrl = .idle) {ls : List (Label α)}
    (hls : ∀ l ∈ ls, l.isCall = false) (h : s.run cfg ls = some s') :
    s'.ctrl = .idle ∧ s'.returned = s.returned := by
  induction ls generalizing s with
  | nil => cases h; exact ⟨hidle, rfl⟩
  | cons l ls ih =>
    simp only [run, Option.bind_eq_bind] at h
    cases hl : s.step cfg l with
    | none => rw [hl] at h; cases h
    | some s₁ =>
      rw [hl, Option.some_bind] at h
      cases l with
      | call => cases hls _ (.head _)
      | ctrl => simp [Pool.step, ctrlMove, hidle] at hl
      | worker i reply =>
        obtain ⟨w, -, -, -, rfl⟩ := workerMove_cases hl
        have := ih (by simpa using hidle) (fun l hl => hls l (.tail _ hl)) h
        simpa using this

omit [DecidableEq α] in
/-- `step` on a batch of another size than `n_envs * input_size` raises at the slice
assignment, changing nothing else. -/
theorem call_step_of_size (hidle : s.ctrl = .idle) {c : NdArray α}
    (hc : c.size ≠ cfg.nEnvs * cfg.inputSize) :
    s.step cfg (.call (.step (some c))) = some { s with returned := s.returned ++ [.raised] } := by
  simp [Pool.step, call, hidle, hc]

omit [DecidableEq α] in
theorem call_step_of_size_eq (hidle : s.ctrl = .idle) {c : NdArray α}
    (hc : c.size = cfg.nEnvs * cfg.inputSize) :
    s.step cfg (.call (.step (some c))) = some { s with
      shareActions := c.flatten.data
      ctrl := .releasing (.step c.flatten.data false) cfg.nEnvs } := by
  simp [Pool.step, call, hidle, hc]

/-- A chunk run on good replies, one call after the other, each completed by
`call_completes`: every call returns `n_envs` entries of the decoded shapes. -/
theorem chunkRun_exists (hs : GoodReachable cfg s) (hidle : s.ctrl = .idle)
    {cols : List (NdArray α)} (hcols : ∀ c ∈ cols, c.size = cfg.nEnvs * cfg.inputSize)
    (hn : 0 < cfg.nEnvs) :
    ∃ ls rs s', ChunkRun cfg s cols ls rs s' ∧ (∀ l ∈ ls, l.Good) ∧
      rs.length = cols.length ∧
      ∀ r ∈ rs, ∃ d cs, r = .results (.step d false) (some cs) ∧ cs.length = cfg.nEnvs ∧
        ∀ c ∈ cs, c.Sized cfg := by
  induction cols generalizing s with
  | nil => exact ⟨[], [], s, .nil s, List.forall_mem_nil _, rfl, List.forall_mem_nil _⟩
  | cons c cols ih =>
    have h1 := call_step_of_size_eq hidle (hcols c (.head _))
    have hs₁ := hs.step (.call (.step (some c))) trivial h1
    obtain ⟨ls, s₂, hls, hrun, -, hidle₂, cs, hlen, hsz, hret⟩ := call_completes hs₁ rfl
    obtain ⟨b, hb, -⟩ := transform_eq_some hlen hsz hn
    obtain ⟨sched, rs, s₃, hch, hgood, hrl, hrs⟩ :=
      ih (hs₁.run (fun l hl => (hls l hl).1) hrun) hidle₂ fun c hc => hcols c (.tail _ hc)
    refine ⟨_, _, s₃, .next h1 hrun (fun l hl => (hls l hl).2) hidle₂ hret
      (by simp [stepReturn, hb]) hch, ?_, by simp [hrl], ?_⟩
    · simp only [List.mem_cons, List.mem_append]
      rintro l ((rfl | hl) | hl)
      exacts [trivial, (hls l hl).1, hgood l hl]
    · simp only [List.mem_cons]
      rintro r (rfl | hr)
      exacts [⟨_, cs, rfl, hlen, hsz⟩, hrs r hr]

/-- **On good replies `chunk_step` can run to its end.** From a state the pool reaches on
good replies, between calls, with processes, `chunk_step` on a chunk of `k ≥ 1` columns of
`n_envs * input_size` elements has a run on good replies in which every one of its `k`
`step` calls returns, and it then returns, without raising, a row of `k` rewards, `k`
terminations and `k` truncations for every environment. -/
theorem chunk_step_completes (hs : GoodReachable cfg s) (hidle : s.ctrl = .idle)
    (hn : 0 < cfg.nEnvs) {a : NdArray α} {k : Nat} {rest : List Nat}
    (ha : a.shape = cfg.nEnvs :: k :: rest) (hk : 0 < k) (hrest : rest.prod = cfg.inputSize) :
    ∃ cols ls rs s', chunkColumns a = some cols ∧ ChunkRun cfg s cols ls rs s' ∧
      (∀ l ∈ ls, l.Good) ∧ ∃ out, chunkStep cfg false rs = some out ∧
        out.rewards.length = cfg.nEnvs ∧ (∀ row ∈ out.rewards, row.length = k) ∧
        out.terminations.length = cfg.nEnvs ∧ (∀ row ∈ out.terminations, row.length = k) ∧
        out.truncations.length = cfg.nEnvs ∧ ∀ row ∈ out.truncations, row.length = k := by
  obtain ⟨cols, hcols, hcl, hsh⟩ := chunkColumns_eq_some ha
  obtain ⟨ls, rs, s', hrun, hgood, hrl, hrs⟩ := chunkRun_exists hs hidle
    (fun c (hc : c ∈ cols) => by simp [NdArray.size, hsh c hc, hrest]) hn
  obtain ⟨outs, houts, hsome⟩ := mapM_of_forall (l := rs) (f := stepReturn cfg)
    (P := fun o : Batch α × Option (List α) => o.2 = some o.1.reward) fun r hr => by
      obtain ⟨d, cs, rfl, hlen, hsz⟩ := hrs r hr
      obtain ⟨b, hb, -⟩ := transform_eq_some hlen hsz hn
      exact ⟨(b, some b.reward), by simp [stepReturn, hb], rfl⟩
  have hol : outs.length = k := by rw [length_of_mapM_eq_some houts, hrl, hcl]
  obtain ⟨last, hlast⟩ := Option.isSome_iff_exists.mp
    (List.getLast?_isSome.mpr (List.ne_nil_of_length_pos (hol ▸ hk)))
  obtain ⟨rewards, hrw, -⟩ := mapM_of_forall (l := outs) (f := (·.2)) (P := fun _ => True)
    fun o ho => ⟨_, hsome o ho, trivial⟩
  have hrwl : rewards.length = k := by rw [length_of_mapM_eq_some hrw, hol]
  refine ⟨cols, ls, rs, s', hcols, hrun, hgood, ?_⟩
  simp only [chunkStep, houts, hlast, hrw, Option.bind_eq_bind, Option.some_bind, Bool.and_false,
    Bool.false_eq_true, if_false, Option.pure_def, Option.some.injEq, exists_eq_left',
    length_stackColumns, List.length_map, true_and]
  refine ⟨fun row h => ?_, fun row h => ?_, fun row h => ?_⟩
  · rw [length_of_mem_stackColumns h, hrwl]
  iterate 2
    obtain ⟨b, -, rfl⟩ := List.mem_map.mp h
    simp only [lastColumn, List.length_append, List.length_replicate, List.length_singleton]
    omega

theorem chunk_step_completes_after_init_process :
    let s := ((init : Pool Nat).run ⟨1, 1, 100⟩ initOne).getD init
    let a : NdArray Nat := ⟨[1, 2, actionDim], List.replicate (2 * actionDim) 0, rfl⟩
    GoodReachable ⟨1, 1, 100⟩ s ∧ s.ctrl = .idle ∧ 0 < (⟨1, 1, 100⟩ : Config).nEnvs ∧
      a.shape = (⟨1, 1, 100⟩ : Config).nEnvs :: 2 :: [actionDim] ∧ 0 < 2 ∧
      [actionDim].prod = (⟨1, 1, 100⟩ : Config).inputSize ∧
      ∃ cols ls rs s', chunkColumns a = some cols ∧ ChunkRun ⟨1, 1, 100⟩ s cols ls rs s' ∧
        (∀ l ∈ ls, l.Good) ∧ ∃ out, chunkStep ⟨1, 1, 100⟩ false rs = some out ∧
          out.rewards.length = (⟨1, 1, 100⟩ : Config).nEnvs ∧
          (∀ row ∈ out.rewards, row.length = 2) ∧
          out.terminations.length = (⟨1, 1, 100⟩ : Config).nEnvs ∧
          (∀ row ∈ out.terminations, row.length = 2) ∧
          out.truncations.length = (⟨1, 1, 100⟩ : Config).nEnvs ∧
          ∀ row ∈ out.truncations, row.length = 2 := by
  intro s a
  have hrun : (init : Pool Nat).run ⟨1, 1, 100⟩ initOne = some s := rfl
  have hs : GoodReachable ⟨1, 1, 100⟩ s := GoodReachable.init.run (fun l hl => by
    simp only [initOne, List.mem_append, List.mem_cons, List.mem_replicate, List.not_mem_nil,
      or_false] at hl
    rcases hl with ((rfl | rfl | rfl) | ⟨-, rfl⟩) | rfl | rfl
    all_goals first | exact trivial | exact blankEnv_good) hrun
  have hidle : s.ctrl = .idle := by decide
  exact ⟨hs, hidle, by decide, rfl, by decide, rfl,
    chunk_step_completes hs hidle (by decide) (rfl : a.shape = _) (by decide) rfl⟩

/-- **On a chunk of the documented shape, `chunk_step` raises unless `horizon` is 1.**
Whatever the pool's state, every run of `chunk_step` on a chunk of shape
`[num_envs, chunk_step, action_dim]` with environments and steps makes one call,
`step(chunk_actions[:, 0])`, which raises: the column has `n_envs * action_dim` values and
the action buffer `n_envs * horizon * action_dim`. -/
theorem chunk_step_raises_of_horizon (hn : 0 < cfg.nEnvs) (hH : cfg.horizon ≠ 1)
    {a : NdArray α} {k : Nat} (ha : a.shape = [cfg.nEnvs, k, actionDim]) (hk : 0 < k)
    {cols : List (NdArray α)} (hcols : chunkColumns a = some cols) {ls : List (Label α)}
    {rs : List (Returned α)} (hrun : ChunkRun cfg s cols ls rs s') (autoReset : Bool) :
    rs = [.raised] ∧ chunkStep cfg autoReset rs = none := by
  obtain ⟨cols', hcols', hcl, hsh⟩ := chunkColumns_eq_some ha
  rw [hcols, Option.some.injEq] at hcols'
  subst hcols'
  obtain ⟨c, cols, rfl⟩ := List.exists_cons_of_length_pos (hcl ▸ hk)
  have hsize : c.size ≠ cfg.nEnvs * cfg.inputSize := by
    rw [NdArray.size, hsh c (.head _), Config.inputSize]
    intro h
    simp only [List.prod_cons, List.prod_nil, Nat.mul_one] at h
    refine hH (Nat.eq_of_mul_eq_mul_left (Nat.mul_pos hn (by decide : 0 < actionDim)) ?_)
    calc cfg.nEnvs * actionDim * cfg.horizon = cfg.nEnvs * (cfg.horizon * actionDim) := by ring
      _ = cfg.nEnvs * actionDim := h.symm
      _ = cfg.nEnvs * actionDim * 1 := (Nat.mul_one _).symm
  have hfirst : ∀ {s₁ s₂ : Pool α} {ls' : List (Label α)} {r : Returned α},
      s.step cfg (.call (.step (some c))) = some s₁ → s₁.run cfg ls' = some s₂ →
      (∀ l ∈ ls', l.isCall = false) → s₂.returned = s.returned ++ [r] → r = .raised := by
    intro s₁ s₂ ls' r h1 h2 hl hr
    have hidle : s.ctrl = .idle := by
      cases hc : s.ctrl <;> simp [Pool.step, call, hc] at h1 ⊢
    rw [call_step_of_size hidle hsize, Option.some.injEq] at h1
    subst h1
    have := (run_of_idle (show ({ s with returned := s.returned ++ [.raised] } : Pool α).ctrl =
      .idle from hidle) hl h2).2
    rw [hr] at this
    simpa using this
  cases hrun with
  | stop h1 h2 hl _ hr _ =>
    rw [hfirst h1 h2 hl hr]
    exact ⟨rfl, rfl⟩
  | next h1 h2 hl _ hr hsome _ =>
    cases hfirst h1 h2 hl hr
    cases hsome

theorem chunk_step_raises_at_horizon_two :
    let a : NdArray Nat := ⟨[1, 1, actionDim], List.replicate actionDim 0, rfl⟩
    ∃ (s s' : Pool Nat) (cols : List (NdArray Nat)) (ls : List (Label Nat))
      (rs : List (Returned Nat)),
      0 < (⟨1, 2, 100⟩ : Config).nEnvs ∧ (⟨1, 2, 100⟩ : Config).horizon ≠ 1 ∧
      a.shape = [(⟨1, 2, 100⟩ : Config).nEnvs, 1, actionDim] ∧ 0 < 1 ∧
      chunkColumns a = some cols ∧ ChunkRun ⟨1, 2, 100⟩ s cols ls rs s' ∧
      (rs = [.raised] ∧ chunkStep ⟨1, 2, 100⟩ false rs = none) := by
  intro a
  let c : NdArray Nat := ⟨[1, actionDim], List.replicate actionDim 0, rfl⟩
  have hcols : chunkColumns a = some [c] := rfl
  have hidle : ({ init with ctrl := .idle } : Pool Nat).ctrl = .idle := rfl
  have hrun : ChunkRun ⟨1, 2, 100⟩ { init with ctrl := .idle } [c] [.call (.step (some c))]
      [.raised] _ :=
    .stop (call_step_of_size hidle (by decide)) rfl (List.forall_mem_nil _) rfl rfl rfl
  exact ⟨_, _, _, _, _, by decide, by decide, rfl, by decide, hcols, hrun,
    chunk_step_raises_of_horizon (by decide) (by decide) rfl (by decide) hcols hrun false⟩

end Run

/-! ## No call returns an environment both terminated and truncated -/

section Flags

variable [Zero α] [One α] {cfg : Config} {s s' : Pool α}

/-- Every slice of the result buffer holds the record of sized fields with at most one flag
set: the zeros `init_process` allocates, or a record a process published. -/
def RecordsOk (cfg : Config) (s : Pool α) : Prop :=
  s.ctrl ≠ .cleared → ∀ i < cfg.nEnvs, ∃ (f : Fields α) (r : NdArray α), f.Sized cfg ∧
    f.pack = some r ∧ (f.terminated = 0 ∨ f.truncated = 0) ∧
    block cfg.resultSize i s.shareResults = r.data

/-- Every entry a call returned has `terminated` or `truncated` 0. -/
def ReturnedOk (s : Pool α) : Prop :=
  ∀ op cs, Returned.results op (some cs) ∈ s.returned →
    ∀ c ∈ cs, c.terminated = .ofList [0] ∨ c.truncated = .ofList [0]

omit [Zero α] [One α] in
theorem block_replicate {R n i : Nat} (hi : i < n) (x : α) :
    block R i (List.replicate (n * R) x) = List.replicate R x := by
  have h : R ≤ n * R - i * R := by
    have := Nat.mul_le_mul_right R (Nat.succ_le_of_lt hi)
    rw [Nat.succ_mul] at this
    omega
  rw [block, List.drop_replicate, List.take_replicate, inf_of_le_left h]

/-- A write of a process is the record of its publish. -/
theorem publish_of_write {i : Nat} {w : Worker α} {env : Env α} {d : List α}
    (h : (w.move cfg i env).2 = .write d) : ∃ res, w.phase = .publish res ∧ d = res.data := by
  have hn := Worker.move_next cfg i w env
  rw [h] at hn
  have hs := hn.eq_signal_of_write
  obtain ⟨res, hp⟩ := (hs ▸ hn).eq_publish_of_signal
  rw [(Worker.move_publish hp hs).1] at h
  cases h
  exact ⟨res, hp, rfl⟩

theorem RecordsOk.step (hr : RecordsOk cfg s) (hh : s.Healthy cfg) (ha : Allocated cfg s)
    {l : Label α} (h : s.step cfg l = some s') : RecordsOk cfg s' := by
  cases l with
  | call =>
    rcases call_cases h with ⟨-, rfl⟩ | ⟨hc, _, _, rfl⟩ | ⟨hc, rfl⟩ | ⟨hc, rfl⟩ | ⟨-, rfl⟩
    · intro _ i hi
      obtain ⟨r, hp, hrd⟩ := Fields.zero_pack (α := α) cfg
      exact ⟨_, r, Fields.zero_sized cfg, hp, .inl rfl, by rw [hrd]; exact block_replicate hi 0⟩
    iterate 3 exact fun _ => hr (by rw [hc]; nofun)
    · exact fun h => absurd rfl h
  | ctrl =>
    rcases ctrlMove_cases h with ⟨_, _, he, rfl⟩ | ⟨_, he, rfl⟩ | ⟨_, _, he, -, rfl⟩ | ⟨_, he, rfl⟩ <;>
      exact fun _ => hr (by rw [he]; nofun)
  | worker i reply =>
    obtain ⟨w, hw, -, -, rfl⟩ := workerMove_cases h
    intro hcl j hj
    have hcl' : s.ctrl ≠ .cleared := by simpa using hcl
    obtain ⟨f, r, hf, hp, hx, hb⟩ := hr hcl' j hj
    generalize he : (w.move cfg i (s.envOf reply)).2 = e
    cases e with
    | write d =>
      obtain ⟨hi, hd⟩ := write_of_move he
      obtain ⟨res, hph, rfl⟩ := publish_of_write he
      obtain ⟨f', hf', hp', hx'⟩ := (hh w (List.getElem?_mem hw)).record res hph
      show ∃ (f : Fields α) (r : NdArray α), _ ∧ _ ∧ _ ∧
        block _ j (writeSlice s.shareResults cfg.resultSize i res.data) = r.data
      rw [block_writeSlice hd (by rw [ha.results hcl']; exact slice_fits hi)]
      split
      · exact ⟨f', res, hf', hp', hx', rfl⟩
      · exact ⟨f, r, hf, hp, hx, hb⟩
    | none | acquire | claim | release => exact ⟨f, r, hf, hp, hx, hb⟩

omit [One α] in
/-- Every entry the controller decodes from a buffer of such records has `terminated` or
`truncated` 0. -/
theorem RecordsOk.entries (hr : RecordsOk cfg s) (hcl : s.ctrl ≠ .cleared)
    {cs : List (Cond α)} (h : readResults cfg s.shareResults = some cs) :
    ∀ c ∈ cs, c.terminated = .ofList [0] ∨ c.truncated = .ofList [0] := by
  intro c hc
  obtain ⟨i, hi, r₁, hrs₁, hrd₁, hdec₁⟩ := mem_readResults h hc
  obtain ⟨f, r, hf, hp, hx, hb⟩ := hr hcl i hi
  obtain ⟨r₂, c₂, hp₂, hrs₂, hc₂, hdec₂⟩ := hf.deInitializeRow_pack
  rw [hp, Option.some.injEq] at hp₂
  subst hp₂
  obtain rfl : r₁ = r := NdArray.ext (hrs₁.trans hrs₂.symm) (hrd₁.trans hb)
  rw [hdec₁, Option.some.injEq] at hdec₂
  subst hdec₂
  obtain ⟨-, ht, htr⟩ := Fields.cond_flags hc₂
  rcases hx with h0 | h0
  · exact .inl (by rw [ht, h0])
  · exact .inr (by rw [htr, h0])

theorem ReturnedOk.step (hret : ReturnedOk s) (hr : RecordsOk cfg s) {l : Label α}
    (h : s.step cfg l = some s') : ReturnedOk s' := by
  cases l with
  | call =>
    rcases call_cases h with ⟨-, rfl⟩ | ⟨-, _, _, rfl⟩ | ⟨-, rfl⟩ | ⟨-, rfl⟩ | ⟨-, rfl⟩
    iterate 2 exact hret
    · intro op cs hm
      rcases List.mem_append.mp hm with hm | hm
      · exact hret op cs hm
      · simp at hm
    iterate 2 exact hret
  | ctrl =>
    rcases ctrlMove_cases h with ⟨_, _, -, rfl⟩ | ⟨_, -, rfl⟩ | ⟨_, _, -, -, rfl⟩ | ⟨op, he, rfl⟩
    iterate 3 exact hret
    intro op' cs hm
    rcases List.mem_append.mp hm with hm | hm
    · exact hret op' cs hm
    · simp only [List.mem_singleton, Returned.results.injEq] at hm
      exact hr.entries (by rw [he]; nofun) hm.2.symm
  | worker i reply =>
    obtain ⟨w, -, -, -, rfl⟩ := workerMove_cases h
    simpa only [ReturnedOk, apply_returned] using hret

theorem GoodReachable.flags (hs : GoodReachable cfg s) : RecordsOk cfg s ∧ ReturnedOk s := by
  induction hs with
  | init => exact ⟨fun h => absurd rfl h, fun _ _ h => absurd h (List.not_mem_nil _)⟩
  | step l hs _ h ih =>
    exact ⟨ih.1.step hs.healthy (reachable_allocated hs.reachable) h, ih.2.step ih.1 h⟩

/-- **No call returns an environment both terminated and truncated.** On good replies, for
any `n_envs` and any interleaving, every batch a call of `init_process`, `step` or `reset`
returned has `terminated` or `truncated` 0 in every entry, and `transform` never sets both
`terminated_venv[i]` and `truncated_venv[i]`. A process takes both flags from its last
sub-step, where the adapter sets `truncated` only without success, and every slice of the
buffer holds such a record or the zeros `init_process` allocated, however the processes
raced for the go-signals. -/
theorem returned_flags_exclusive [DecidableEq α] (hs : GoodReachable cfg s) {op : Op α}
    {cs : List (Cond α)} (hr : Returned.results op (some cs) ∈ s.returned) :
    (∀ c ∈ cs, c.terminated = .ofList [0] ∨ c.truncated = .ofList [0]) ∧
      ∀ b, transform cfg cs = some b →
        ∀ i : Nat, ¬ (b.terminated[i]? = some true ∧ b.truncated[i]? = some true) := by
  have hent := hs.flags.2 op cs hr
  refine ⟨hent, fun b hb i ⟨hx, hy⟩ => ?_⟩
  obtain ⟨c, hc, hcx, hcy⟩ := transform_slot hb hx hy
  rcases hent c hc with h0 | h0 <;> simp [h0, NdArray.item, NdArray.ofList] at hcx hcy

theorem returned_flags_exclusive_after_init_process :
    ∃ (s : Pool Nat) (cs : List (Cond Nat)), GoodReachable ⟨1, 1, 100⟩ s ∧
      Returned.results .initProcess (some cs) ∈ s.returned ∧
      ((∀ c ∈ cs, c.terminated = .ofList [0] ∨ c.truncated = .ofList [0]) ∧
        ∀ b, transform ⟨1, 1, 100⟩ cs = some b →
          ∀ i : Nat, ¬ (b.terminated[i]? = some true ∧ b.truncated[i]? = some true)) := by
  obtain ⟨s₀, hrun, hc⟩ : ∃ s₀, (init : Pool Nat).run ⟨1, 1, 100⟩ initOne.dropLast = some s₀ ∧
      s₀.ctrl = .acquiring .initProcess 0 := ⟨_, rfl, by decide⟩
  have hs₀ : GoodReachable ⟨1, 1, 100⟩ s₀ := GoodReachable.init.run (fun l hl => by
    replace hl := List.dropLast_subset _ hl
    simp only [initOne, List.mem_append, List.mem_cons, List.mem_replicate, List.not_mem_nil,
      or_false] at hl
    rcases hl with ((rfl | rfl | rfl) | ⟨-, rfl⟩) | rfl | rfl
    all_goals first | exact trivial | exact blankEnv_good) hrun
  obtain ⟨cs, hcs, -⟩ :=
    readResults_sized ((reachable_allocated hs₀.reachable).results (by rw [hc]; nofun))
  have h1 : s₀.step ⟨1, 1, 100⟩ .ctrl = some (s₀.finish ⟨1, 1, 100⟩ .initProcess) := by
    simp [Pool.step, ctrlMove, hc]
  have hs := hs₀.step .ctrl trivial h1
  have hmem : Returned.results .initProcess (some cs) ∈
      (s₀.finish ⟨1, 1, 100⟩ .initProcess).returned := by
    simp [finish, hcs]
  exact ⟨_, cs, hs, hmem, returned_flags_exclusive hs hmem⟩

end Flags

end Pool

end RoboTwinPool
