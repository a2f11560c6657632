import RoboTwinPool.Basic.NdArray

set_option autoImplicit false

/-! # The result record and the shared result buffer

Each worker reports one cycle as a flat record of `result_size` doubles: the six images
(`image_return`, the three cameras before and after the chunk), the joint state, the
reward, the `terminated` and `truncated` flags and the pose block, flattened and
concatenated in that order (`Fields.pack`). It writes the record into its own slice
`[i * R, (i + 1) * R)` of the shared buffer (`writeSlice`); the controller reshapes the
buffer to `(n_envs, R)` and cuts every row at fixed offsets (`deInitializeResult`).

The main result, `readResults_writeAll`, is the round trip over the whole buffer: after
every worker has written the record of its fields, in any order, the controller decodes
exactly those fields (`Fields.cond`).
-/

namespace RoboTwinPool

/-! ## Configuration -/

/-- The values `RoboTwin.__init__` hands every worker in `args`, with the step limit of
the simulator task that the adapter reads. -/
structure Config where
  /-- `n_envs`: the number of workers. -/
  nEnvs : Nat
  /-- `horizon`: the most sub-steps one chunk runs. -/
  horizon : Nat
  /-- `step_lim` of the simulator task. -/
  stepLim : Nat
  deriving DecidableEq, Repr

/-- `action_dim`. -/
def actionDim : Nat := 14

/-- `NUM_IMAGES`: three cameras, before and after the chunk. -/
def numImages : Nat := 6

/-- `IMAGE_SHAPE`. -/
def imageShape : List Nat := [240, 320, 3]

/-- `STATE_SHAPE`. -/
def stateShape : List Nat := [1, 14]

/-- `IMAGE_SIZE`. -/
def imageSize : Nat := imageShape.prod

/-- `STATE_SIZE`. -/
def stateSize : Nat := stateShape.prod

namespace Config

/-- `TARGET_SHAPE`: one pose of six numbers per sub-step. -/
def targetShape (cfg : Config) : List Nat := [cfg.horizon, 6]

/-- `TARGET_SIZE`. -/
def targetSize (cfg : Config) : Nat := cfg.targetShape.prod

/-- `args["result_size"]`, the length `R` of one record. -/
def resultSize (cfg : Config) : Nat := numImages * imageSize + stateSize + 3 + cfg.targetSize

/-- `args["input_size"]`, the length of one worker's row of actions. -/
def inputSize (cfg : Config) : Nat := cfg.horizon * actionDim

end Config

variable {α : Type}

/-! ## Encoding -/

/-- What a worker packs into one record. -/
structure Fields (α : Type) where
  /-- `image_return`, a list of six images. -/
  images : List (NdArray α)
  /-- `state_return`. -/
  state : NdArray α
  reward : α
  terminated : α
  truncated : α
  /-- `return_poses`. -/
  poses : NdArray α

/-- The worker's `result = np.concatenate([...])` after `image_return =
np.array(image_return)`; `none` where `np.array` raises on images of different shapes.
(`np.array(state_return)` copies an array and is left out.) -/
def Fields.pack (f : Fields α) : Option (NdArray α) := do
  let imageReturn ← NdArray.stack f.images
  pure (NdArray.concatenate [imageReturn.flatten, f.state.flatten, .ofList [f.reward],
    .ofList [f.terminated], .ofList [f.truncated], f.poses.flatten])

/-- The fields have the configured sizes: six images of `IMAGE_SHAPE`, a state of
`STATE_SIZE` entries and a pose block of `TARGET_SHAPE`. -/
structure Fields.Sized (cfg : Config) (f : Fields α) : Prop where
  images_length : f.images.length = numImages
  image_shape : ∀ im ∈ f.images, im.shape = imageShape
  state_size : f.state.size = stateSize
  poses_shape : f.poses.shape = cfg.targetShape

/-! ## Decoding -/

/-- One entry of `de_initialize_result`'s output, the dict `cond`. -/
structure Cond (α : Type) where
  imgs : NdArray α
  state : NdArray α
  reward : NdArray α
  terminated : NdArray α
  truncated : NdArray α
  returnPoses : NdArray α

/-- The body of `de_initialize_result`'s loop on one row `result`: fixed offsets, in the
order images, state, reward, terminated, truncated, poses. -/
def deInitializeRow (cfg : Config) (result : NdArray α) : Option (Cond α) := do
  let start := 0
  let imgs ← (← result.slice start (start + numImages * imageSize)).reshape
    (numImages :: imageShape)
  let start := start + numImages * imageSize
  let state ← (← result.slice start (start + stateSize)).reshape stateShape
  let start := start + stateSize
  let reward ← result.slice start (start + 1)
  let start := start + 1
  let terminated ← result.slice start (start + 1)
  let start := start + 1
  let truncated ← result.slice start (start + 1)
  let start := start + 1
  let returnPoses ← (← result.slice start (start + cfg.targetSize)).reshape cfg.targetShape
  pure ⟨imgs, state, reward, terminated, truncated, returnPoses⟩

/-- `de_initialize_result`: the rows `results[i]`, `i < n_envs`, each decoded. -/
def deInitializeResult (cfg : Config) (results : NdArray α) : Option (List (Cond α)) :=
  (List.range cfg.nEnvs).mapM fun i => results.get i >>= deInitializeRow cfg

/-- The controller's read: `np.frombuffer(share_results).reshape(n_envs, result_size)`
decoded by `de_initialize_result`. -/
def readResults (cfg : Config) (buf : List α) : Option (List (Cond α)) :=
  (NdArray.ofList buf).reshape [cfg.nEnvs, cfg.resultSize] >>= deInitializeResult cfg

/-- The entry `de_initialize_result` should return for the fields `f`: the stacked
images, the state as `1 x 14`, the scalars as one-element arrays and the pose block. -/
def Fields.cond (f : Fields α) : Option (Cond α) := do
  let imgs ← NdArray.stack f.images
  let state ← f.state.reshape stateShape
  pure ⟨imgs, state, .ofList [f.reward], .ofList [f.terminated], .ofList [f.truncated],
    f.poses⟩

/-! ## The shared buffer -/

/-- `results[R * i : R * (i + 1)] = result`: worker `i`'s slice of the buffer replaced. -/
def writeSlice (buf : List α) (R i : Nat) (result : List α) : List α :=
  buf.take (R * i) ++ result ++ buf.drop (R * (i + 1))

/-- Slice writes in the order `order`, worker `i` writing `recs i`. -/
def writeAll (buf : List α) (R : Nat) (recs : Nat → List α) (order : List Nat) : List α :=
  order.foldl (fun b i => writeSlice b R i (recs i)) buf

/-! ## One record -/

theorem resultSize_eq (cfg : Config) :
    cfg.resultSize = numImages * imageSize + stateSize + 1 + 1 + 1 + cfg.targetSize := rfl

/-- A record of sized fields: `R` elements, the images, the state, the three scalars and
the poses one after the other. -/
theorem Fields.Sized.pack_eq {cfg : Config} {f : Fields α} (h : f.Sized cfg) :
    ∃ ims r, NdArray.stack f.images = some ims ∧ ims.shape = numImages :: imageShape ∧
      f.pack = some r ∧ r.shape = [cfg.resultSize] ∧
      r.data = ims.data ++ f.state.data ++ [f.reward] ++ [f.terminated] ++ [f.truncated] ++
        f.poses.data := by
  have hne : f.images ≠ [] := by
    intro he; have := h.images_length; rw [he] at this; cases this
  obtain ⟨ims, hims, hshape, -⟩ := NdArray.stack_eq_some hne h.image_shape
  refine ⟨ims, NdArray.concatenate [ims.flatten, f.state.flatten, .ofList [f.reward],
    .ofList [f.terminated], .ofList [f.truncated], f.poses.flatten], hims,
    by rw [hshape, h.images_length], by simp [Fields.pack, hims], ?_, ?_⟩
  · have hp : f.poses.size = cfg.targetSize := by simp [NdArray.size, h.poses_shape, Config.targetSize]
    have hi : ims.size = numImages * imageSize := by
      simp [NdArray.size, hshape, h.images_length, imageSize]
    simp [hi, h.state_size, hp, Config.resultSize]
    omega
  · simp [List.append_assoc]

theorem length_data_of_shape {a : NdArray α} {s : List Nat} (h : a.shape = s) :
    a.data.length = s.prod := by rw [a.length_data, h]

/-- **Decoding one record.** `de_initialize_result` cuts the record of sized fields back
into exactly those fields. -/
theorem Fields.Sized.deInitializeRow_pack {cfg : Config} {f : Fields α} (h : f.Sized cfg) :
    ∃ r c, f.pack = some r ∧ r.shape = [cfg.resultSize] ∧ f.cond = some c ∧
      deInitializeRow cfg r = some c := by
  obtain ⟨ims, r, hims, hshape, hpack, hrs, hrd⟩ := h.pack_eq
  have hI : ims.data.length = numImages * imageSize := by
    rw [length_data_of_shape hshape]; rfl
  have hS : f.state.data.length = stateSize := f.state.length_data.trans h.state_size
  have hP : f.poses.data.length = cfg.targetSize := length_data_of_shape h.poses_shape
  have e1 := NdArray.slice_eq_ofList (i := 0) (p := []) (q := f.state.data ++ [f.reward] ++
    [f.terminated] ++ [f.truncated] ++ f.poses.data) hrs (by simp [hrd]) rfl hI
  have e2 := NdArray.slice_eq_ofList (q := [f.reward] ++ [f.terminated] ++ [f.truncated] ++
    f.poses.data) hrs (by simp [hrd]) hI hS
  have e3 := NdArray.slice_eq_ofList (i := numImages * imageSize + stateSize) (p := ims.data ++ f.state.data) (m := [f.reward])
    (q := [f.terminated] ++ [f.truncated] ++ f.poses.data) hrs (by simp [hrd])
    (by simp only [List.length_append, List.length_singleton, hI, hS]) (k := 1) rfl
  have e4 := NdArray.slice_eq_ofList (i := numImages * imageSize + stateSize + 1)
    (p := ims.data ++ f.state.data ++ [f.reward])
    (m := [f.terminated]) (q := [f.truncated] ++ f.poses.data) hrs (by simp [hrd])
    (by simp only [List.length_append, List.length_singleton, hI, hS]) (k := 1) rfl
  have e5 := NdArray.slice_eq_ofList (i := numImages * imageSize + stateSize + 1 + 1)
    (p := ims.data ++ f.state.data ++ [f.reward] ++
    [f.terminated]) (m := [f.truncated]) (q := f.poses.data) hrs (by simp [hrd])
    (by simp only [List.length_append, List.length_singleton, hI, hS]) (k := 1) rfl
  have e6 := NdArray.slice_eq_ofList
    (i := numImages * imageSize + stateSize + 1 + 1 + 1) (p := ims.data ++ f.state.data ++ [f.reward] ++
    [f.terminated] ++ [f.truncated]) (q := []) hrs (by simp [hrd]) (by simp only [List.length_append, List.length_singleton, hI, hS]) hP
  rw [Nat.zero_add] at e1
  obtain ⟨st, hst⟩ : ∃ st, f.state.reshape stateShape = some st :=
    ⟨_, NdArray.reshape_eq_some h.state_size⟩
  refine ⟨r, ⟨ims, st, .ofList [f.reward], .ofList [f.terminated], .ofList [f.truncated],
    f.poses⟩, hpack, hrs, by simp [Fields.cond, hims, hst], ?_⟩
  simp [deInitializeRow, e1, e2, e3, e4, e5, e6, NdArray.reshape_ofList, hst,
    ← hshape, ← h.poses_shape, NdArray.reshape_self]

/-- The decoded reward and flags are the fields' own, as one-element arrays. -/
theorem Fields.cond_flags {f : Fields α} {c : Cond α} (h : f.cond = some c) :
    c.reward = .ofList [f.reward] ∧ c.terminated = .ofList [f.terminated] ∧
      c.truncated = .ofList [f.truncated] := by
  unfold Fields.cond at h
  cases hi : NdArray.stack f.images <;> cases hs : f.state.reshape stateShape <;> simp [hi, hs] at h
  subst h
  exact ⟨rfl, rfl, rfl⟩

/-- The shapes `de_initialize_result` gives the fields of an entry: the six stacked images,
the state as `1 x 14`, the reward and the two flags as one-element slices, and the pose block
as `horizon x 6`. -/
structure Cond.Sized (cfg : Config) (c : Cond α) : Prop where
  imgs : c.imgs.shape = numImages :: imageShape
  state : c.state.shape = stateShape
  reward : c.reward.shape = [1]
  terminated : c.terminated.shape = [1]
  truncated : c.truncated.shape = [1]
  returnPoses : c.returnPoses.shape = cfg.targetShape

/-- Every row of `result_size` elements decodes, to an entry of the shapes above: the six
slices at the fixed offsets lie in the row and have the sizes the reshapes ask for. -/
theorem deInitializeRow_sized {cfg : Config} {r : NdArray α} (hr : r.shape = [cfg.resultSize]) :
    ∃ c, deInitializeRow cfg r = some c ∧ c.Sized cfg := by
  have hR : cfg.resultSize = numImages * imageSize + stateSize + 3 + cfg.targetSize := rfl
  have hsl : ∀ i k, i + k ≤ cfg.resultSize → ∃ b, r.slice i (i + k) = some b ∧ b.shape = [k] :=
    fun i k hk => by
      obtain ⟨b, hb, hs⟩ := NdArray.slice_shape_of_vec hr i (i + k)
      exact ⟨b, hb, by rw [hs]; congr 1; omega⟩
  obtain ⟨b1, e1, s1⟩ := hsl 0 (numImages * imageSize) (by omega)
  obtain ⟨b2, e2, s2⟩ := hsl (0 + numImages * imageSize) stateSize (by omega)
  obtain ⟨b3, e3, s3⟩ := hsl (0 + numImages * imageSize + stateSize) 1 (by omega)
  obtain ⟨b4, e4, s4⟩ := hsl (0 + numImages * imageSize + stateSize + 1) 1 (by omega)
  obtain ⟨b5, e5, s5⟩ := hsl (0 + numImages * imageSize + stateSize + 1 + 1) 1 (by omega)
  obtain ⟨b6, e6, s6⟩ := hsl (0 + numImages * imageSize + stateSize + 1 + 1 + 1) cfg.targetSize
    (by omega)
  have r1 := NdArray.reshape_eq_some (s := numImages :: imageShape) (by rw [NdArray.size, s1]; rfl)
  have r2 := NdArray.reshape_eq_some (s := stateShape) (by rw [NdArray.size, s2]; rfl)
  have r6 := NdArray.reshape_eq_some (s := cfg.targetShape)
    (by rw [NdArray.size, s6, List.prod_singleton]; rfl)
  simp only [deInitializeRow, e1, e2, e3, e4, e5, e6, r1, r2, r6, Option.bind_eq_bind,
    Option.some_bind]
  exact ⟨_, rfl, rfl, rfl, s3, s4, s5, rfl⟩

/-! ## Writes into the shared buffer -/

/-- Row `j` of a buffer of records of length `R`. -/
def block (R j : Nat) (buf : List α) : List α := (buf.drop (j * R)).take R

theorem getElem?_writeSlice {buf result : List α} {R i : Nat} (hr : result.length = R)
    (hi : R * (i + 1) ≤ buf.length) (x : Nat) :
    (writeSlice buf R i result)[x]? =
      if R * i ≤ x ∧ x < R * (i + 1) then result[x - R * i]? else buf[x]? := by
  have hRi : R * (i + 1) = R * i + R := Nat.mul_succ R i
  have hlen : (buf.take (R * i)).length = R * i := by simp; omega
  simp only [writeSlice, List.getElem?_append, List.length_append, hlen, hr,
    List.getElem?_take, List.getElem?_drop]
  split_ifs <;> first | rfl | omega | (congr 1; omega)

theorem length_writeSlice {buf result : List α} {R i : Nat} (hr : result.length = R)
    (hi : R * (i + 1) ≤ buf.length) : (writeSlice buf R i result).length = buf.length := by
  have : R * (i + 1) = R * i + R := Nat.mul_succ R i
  simp [writeSlice, hr]; omega

/-- In a buffer of one slice, writing slice 0 replaces the whole buffer. -/
theorem writeSlice_zero {buf result : List α} {R : Nat} (hb : buf.length = R) :
    writeSlice buf R 0 result = result := by
  simp [writeSlice, hb]

theorem eq_of_mem_window {R i j k : Nat} (hk : k < R) (h1 : R * i ≤ j * R + k)
    (h2 : j * R + k < R * (i + 1)) : j = i := by
  have e1 : R * i = i * R := Nat.mul_comm R i
  have e2 : R * (i + 1) = i * R + R := by rw [Nat.mul_comm, Nat.succ_mul]
  have hi : i < j + 1 := Nat.lt_of_mul_lt_mul_right (a := R) (by rw [Nat.succ_mul]; omega)
  have hj : j < i + 1 := Nat.lt_of_mul_lt_mul_right (a := R) (by rw [Nat.succ_mul]; omega)
  omega

/-- Writing worker `i`'s slice sets row `i`. -/
theorem block_writeSlice_self {buf result : List α} {R i : Nat} (hr : result.length = R)
    (hi : R * (i + 1) ≤ buf.length) : block R i (writeSlice buf R i result) = result := by
  have hlen : (buf.take (R * i)).length = i * R := by
    rw [Nat.mul_succ] at hi; simp [Nat.mul_comm]; omega
  rw [block, writeSlice, List.append_assoc, List.drop_left' hlen, List.take_left' hr]

/-- Writing worker `i`'s slice leaves every other row as it was. -/
theorem block_writeSlice_of_ne {buf result : List α} {R i j : Nat} (hr : result.length = R)
    (hi : R * (i + 1) ≤ buf.length) (hj : j ≠ i) :
    block R j (writeSlice buf R i result) = block R j buf := by
  apply List.ext_getElem?
  intro k
  simp only [block, List.getElem?_take, List.getElem?_drop, getElem?_writeSlice hr hi]
  split_ifs with hk hw
  · exact absurd (eq_of_mem_window hk hw.1 hw.2) hj
  · rfl
  · rfl

theorem block_writeSlice {buf result : List α} {R i : Nat} (hr : result.length = R)
    (hi : R * (i + 1) ≤ buf.length) (j : Nat) :
    block R j (writeSlice buf R i result) = if j = i then result else block R j buf := by
  split_ifs with hj
  · subst hj; exact block_writeSlice_self hr hi
  · exact block_writeSlice_of_ne hr hi hj

theorem length_writeAll {buf : List α} {R : Nat} {recs : Nat → List α} {order : List Nat}
    (hr : ∀ i ∈ order, (recs i).length = R) (hi : ∀ i ∈ order, R * (i + 1) ≤ buf.length) :
    (writeAll buf R recs order).length = buf.length := by
  induction order generalizing buf with
  | nil => rfl
  | cons i order ih =>
    have hl := length_writeSlice (hr i (by simp)) (hi i (by simp))
    rw [writeAll, List.foldl_cons, ← writeAll,
      ih (fun j hj => hr j (by simp [hj])) (fun j hj => hl ▸ hi j (by simp [hj])), hl]

/-- **Writes in any order.** After the slice writes of `order`, row `j` holds the last
record written to it, or what it held before if nobody wrote it. -/
theorem block_writeAll {buf : List α} {R : Nat} {recs : Nat → List α} {order : List Nat}
    (hr : ∀ i ∈ order, (recs i).length = R) (hi : ∀ i ∈ order, R * (i + 1) ≤ buf.length)
    (j : Nat) :
    block R j (writeAll buf R recs order) = if j ∈ order then recs j else block R j buf := by
  induction order generalizing buf with
  | nil => simp [writeAll]
  | cons i order ih =>
    have hl := length_writeSlice (hr i (by simp)) (hi i (by simp))
    rw [writeAll, List.foldl_cons, ← writeAll,
      ih (fun j hj => hr j (by simp [hj])) (fun j hj => hl ▸ hi j (by simp [hj])),
      block_writeSlice (hr i (by simp)) (hi i (by simp))]
    by_cases hj : j ∈ order
    · simp [hj]
    · by_cases hji : j = i
      · subst hji; simp
      · simp [hj, hji]

/-! ## The round trip over the buffer -/

theorem mapM_congr_of_mem {β γ : Type} {l : List β} {f g : β → Option γ}
    (h : ∀ x ∈ l, f x = g x) : l.mapM f = l.mapM g := by
  induction l with
  | nil => rfl
  | cons x l ih =>
    simp only [List.mapM_cons, h x (by simp), ih fun y hy => h y (by simp [hy])]

theorem isSome_mapM {β γ : Type} {l : List β} {f : β → Option γ}
    (h : ∀ x ∈ l, (f x).isSome) : (l.mapM f).isSome := by
  induction l with
  | nil => rfl
  | cons x l ih =>
    obtain ⟨y, hy⟩ := Option.isSome_iff_exists.mp (h x (by simp))
    obtain ⟨ys, hys⟩ := Option.isSome_iff_exists.mp (ih fun y hy => h y (by simp [hy]))
    rw [List.mapM_cons, hy, hys]; rfl

/-- **The codec round trip.** Every worker's fields of the configured sizes pack into a
record of `result_size` elements, and once each worker `i < n_envs` has written its record
into its slice, in any order and over any earlier content of the buffer, the controller's
read returns exactly the fields of every worker. -/
theorem readResults_writeAll (cfg : Config) (xs : Nat → Fields α) (order : List Nat)
    (buf : List α) (hx : ∀ i < cfg.nEnvs, (xs i).Sized cfg)
    (hcover : ∀ i < cfg.nEnvs, i ∈ order) (horder : ∀ i ∈ order, i < cfg.nEnvs)
    (hbuf : buf.length = cfg.nEnvs * cfg.resultSize) :
    (∀ i < cfg.nEnvs, ∃ r, (xs i).pack = some r ∧ r.size = cfg.resultSize) ∧
      readResults cfg (writeAll buf cfg.resultSize
          (fun i => ((xs i).pack.map NdArray.data).getD []) order) =
        (List.range cfg.nEnvs).mapM (fun i => (xs i).cond) ∧
      ((List.range cfg.nEnvs).mapM fun i => (xs i).cond).isSome := by
  have hrow : ∀ i < cfg.nEnvs, ∃ r c, ((xs i).pack.map NdArray.data).getD [] = r.data ∧
      (xs i).pack = some r ∧ r.shape = [cfg.resultSize] ∧ (xs i).cond = some c ∧
      deInitializeRow cfg r = some c := fun i hi => by
    obtain ⟨r, c, hp, hs, hc, hd⟩ := (hx i hi).deInitializeRow_pack
    exact ⟨r, c, by rw [hp]; rfl, hp, hs, hc, hd⟩
  have hlen : ∀ i < cfg.nEnvs, (((xs i).pack.map NdArray.data).getD []).length = cfg.resultSize :=
    fun i hi => by
      obtain ⟨r, -, hr, -, hs, -⟩ := hrow i hi
      rw [hr, r.length_data, hs, List.prod_singleton]
  have hfit : ∀ i ∈ order, cfg.resultSize * (i + 1) ≤ buf.length := fun i hi => by
    rw [hbuf, Nat.mul_comm]; exact Nat.mul_le_mul_right _ (horder i hi)
  refine ⟨fun i hi => ?_, ?_, isSome_mapM fun i hi => ?_⟩
  · obtain ⟨r, -, -, hp, hs, -⟩ := hrow i hi
    exact ⟨r, hp, by rw [NdArray.size, hs, List.prod_singleton]⟩
  · set W := writeAll buf cfg.resultSize (fun i => ((xs i).pack.map NdArray.data).getD []) order
    have hW : W.length = cfg.nEnvs * cfg.resultSize := by
      rw [length_writeAll (fun i hi => hlen i (horder i hi)) hfit, hbuf]
    rw [readResults, NdArray.reshape_eq_some (by simp [hW]), Option.bind_eq_bind,
      Option.some_bind, deInitializeResult]
    refine mapM_congr_of_mem fun i hi => ?_
    have hi := List.mem_range.mp hi
    obtain ⟨b, hb, hbs, hbd⟩ :=
      NdArray.get_eq_some (a := ⟨_, (NdArray.ofList W).data, _⟩) rfl hi
    obtain ⟨r, c, hr, -, hs, hc, hd⟩ := hrow i hi
    have hbr : b = r := by
      refine NdArray.ext (by rw [hbs, hs]) ?_
      rw [hbd]
      have := block_writeAll (fun i hi => hlen i (horder i hi)) hfit i
      simp only [if_pos (hcover i hi), hr] at this
      simpa [block] using this
    rw [hb, hbr, Option.bind_eq_bind, Option.some_bind, hd, hc]
  · obtain ⟨-, c, -, -, -, hc, -⟩ := hrow i (List.mem_range.mp hi)
    simp [hc]

/-- The fields of worker `i` of a pool of two: zero images, state and poses, and reward
`i`. -/
def rampFields (i : Nat) : Fields Nat :=
  ⟨List.replicate 6 (NdArray.zeros imageShape), NdArray.zeros [14], i, 0, 0, NdArray.zeros [1, 6]⟩

/-- Two workers with different rewards write their records in the order 1, 0 over a buffer
of zeros, and the read returns the fields of both. -/
theorem readResults_writeAll_two :
    (∀ i < 2, (rampFields i).Sized ⟨2, 1, 100⟩) ∧
      ((∀ i < 2, ∃ r, (rampFields i).pack = some r ∧
          r.size = (⟨2, 1, 100⟩ : Config).resultSize) ∧
        readResults ⟨2, 1, 100⟩ (writeAll (List.replicate (2 * (⟨2, 1, 100⟩ : Config).resultSize) 0)
            (⟨2, 1, 100⟩ : Config).resultSize
            (fun i => ((rampFields i).pack.map NdArray.data).getD []) [1, 0]) =
          (List.range 2).mapM (fun i => (rampFields i).cond) ∧
        ((List.range 2).mapM fun i => (rampFields i).cond).isSome) := by
  have hf : ∀ i < 2, (rampFields i).Sized ⟨2, 1, 100⟩ := fun i _ =>
    ⟨by simp [rampFields, numImages], by simp [rampFields, NdArray.zeros], rfl, rfl⟩
  exact ⟨hf, readResults_writeAll ⟨2, 1, 100⟩ rampFields [1, 0] _ hf (by decide) (by decide)
    (by simp)⟩

/-- With one worker the buffer is one record, and the controller decodes it as its only
row. -/
theorem readResults_single {cfg : Config} {r : NdArray α} (hN : cfg.nEnvs = 1)
    (hr : r.shape = [cfg.resultSize]) :
    readResults cfg r.data = (deInitializeRow cfg r).map ([·]) := by
  have hR : r.data.length = cfg.resultSize := by rw [r.length_data, hr]; simp
  rw [readResults, NdArray.reshape_eq_some (by simp [hN, hR]), Option.bind_eq_bind,
    Option.some_bind, deInitializeResult]
  obtain ⟨b, hb, hbs, hbd⟩ := NdArray.get_eq_some (a := ⟨_, (NdArray.ofList r.data).data, _⟩) rfl
    (show 0 < cfg.nEnvs by omega)
  have hbr : b = r := NdArray.ext (hbs.trans hr.symm) (by simp [hbd, hR])
  have h1 : List.range cfg.nEnvs = [0] := by rw [hN]; rfl
  rw [h1, List.mapM_cons, List.mapM_nil, hb, hbr]
  simp only [Option.bind_eq_bind, Option.some_bind]
  cases deInitializeRow cfg r <;> rfl

/-! ## Every buffer of the configured length decodes -/

theorem length_of_mapM_eq_some {β γ : Type} {l : List β} {f : β → Option γ} {cs : List γ}
    (h : l.mapM f = some cs) : cs.length = l.length := by
  induction l generalizing cs with
  | nil => cases h; rfl
  | cons x l ih =>
    simp only [List.mapM_cons, Option.bind_eq_bind, Option.bind_eq_some, Option.pure_def,
      Option.some.injEq] at h
    obtain ⟨y, -, ys, hys, rfl⟩ := h
    rw [List.length_cons, List.length_cons, ih hys]

theorem mapM_of_forall {β γ : Type} {l : List β} {f : β → Option γ} {P : γ → Prop}
    (h : ∀ x ∈ l, ∃ y, f x = some y ∧ P y) : ∃ ys, l.mapM f = some ys ∧ ∀ y ∈ ys, P y := by
  induction l with
  | nil => exact ⟨[], rfl, nofun⟩
  | cons x l ih =>
    obtain ⟨y, hy, hp⟩ := h x (List.mem_cons_self x l)
    obtain ⟨ys, hys, hps⟩ := ih fun x hx => h x (List.mem_cons_of_mem _ hx)
    refine ⟨y :: ys, by rw [List.mapM_cons, hy, hys]; rfl, ?_⟩
    rintro z (_ | ⟨_, hz⟩)
    exacts [hp, hps z hz]

/-- The controller's read of a buffer of `n_envs * result_size` elements returns `n_envs`
entries, each of the shapes `de_initialize_result` reshapes to. -/
theorem readResults_sized {cfg : Config} {buf : List α}
    (hb : buf.length = cfg.nEnvs * cfg.resultSize) :
    ∃ cs, readResults cfg buf = some cs ∧ cs.length = cfg.nEnvs ∧ ∀ c ∈ cs, c.Sized cfg := by
  obtain ⟨a, ha, has⟩ : ∃ a, (NdArray.ofList buf).reshape [cfg.nEnvs, cfg.resultSize] = some a ∧
      a.shape = [cfg.nEnvs, cfg.resultSize] :=
    ⟨_, NdArray.reshape_eq_some (by simp [NdArray.size, hb]), rfl⟩
  have hrow : ∀ i ∈ List.range cfg.nEnvs,
      ∃ c, (a.get i >>= deInitializeRow cfg) = some c ∧ c.Sized cfg := by
    intro i hi
    obtain ⟨b, hb, hbs, -⟩ := NdArray.get_eq_some has (List.mem_range.mp hi)
    rw [hb, Option.bind_eq_bind, Option.some_bind]
    exact deInitializeRow_sized hbs
  obtain ⟨cs, hcs, hsz⟩ := mapM_of_forall hrow
  refine ⟨cs, ?_, by rw [length_of_mapM_eq_some hcs, List.length_range], hsz⟩
  rw [readResults, ha, Option.bind_eq_bind, Option.some_bind, deInitializeResult, hcs]

theorem mem_of_mapM_eq_some {β γ : Type} {l : List β} {f : β → Option γ} {ys : List γ}
    (h : l.mapM f = some ys) {y : γ} (hy : y ∈ ys) : ∃ x ∈ l, f x = some y := by
  induction l generalizing ys with
  | nil => cases h; cases hy
  | cons x l ih =>
    simp only [List.mapM_cons, Option.bind_eq_bind, Option.bind_eq_some, Option.pure_def,
      Option.some.injEq] at h
    obtain ⟨z, hz, zs, hzs, rfl⟩ := h
    rcases List.mem_cons.mp hy with rfl | hy
    · exact ⟨x, List.mem_cons_self _ _, hz⟩
    · obtain ⟨x', hx', h'⟩ := ih hzs hy
      exact ⟨x', List.mem_cons_of_mem _ hx', h'⟩

theorem getElem?_of_mapM {β γ : Type} {l : List β} {f : β → Option γ} {ys : List γ}
    (h : l.mapM f = some ys) (i : Nat) : ys[i]? = l[i]?.bind f := by
  induction l generalizing ys i with
  | nil => cases h; rfl
  | cons x l ih =>
    simp only [List.mapM_cons, Option.bind_eq_bind, Option.bind_eq_some, Option.pure_def,
      Option.some.injEq] at h
    obtain ⟨y, hy, zs, hzs, rfl⟩ := h
    cases i with
    | zero => simp [hy]
    | succ i => simp [ih hzs i]

/-- A read that decodes had a buffer of `n_envs * result_size` elements: the reshape
raises on any other. -/
theorem length_of_readResults_isSome {cfg : Config} {buf : List α}
    (h : (readResults cfg buf).isSome) : buf.length = cfg.nEnvs * cfg.resultSize := by
  by_contra hne
  have hr : (NdArray.ofList buf).reshape [cfg.nEnvs, cfg.resultSize] = none := by
    simp [NdArray.reshape, NdArray.size, NdArray.ofList, hne]
  simp [readResults, hr] at h

/-- **The controller's read fails exactly on a buffer of the wrong length.** A buffer of
`n_envs * result_size` elements always decodes, whatever it holds, and any other buffer fails
at the reshape; what the read returns has `n_envs` entries, each with the shapes
`de_initialize_result` cuts and reshapes its row to. -/
theorem readResults_isSome_iff (cfg : Config) (buf : List α) :
    ((readResults cfg buf).isSome ↔ buf.length = cfg.nEnvs * cfg.resultSize) ∧
      ∀ cs, readResults cfg buf = some cs → cs.length = cfg.nEnvs ∧ ∀ c ∈ cs, c.Sized cfg := by
  refine ⟨⟨length_of_readResults_isSome, fun hb => ?_⟩, fun cs hcs => ?_⟩
  · obtain ⟨cs, hcs, -⟩ := readResults_sized hb
    rw [hcs]; rfl
  · obtain ⟨cs', hcs', hsz⟩ := readResults_sized (length_of_readResults_isSome (by rw [hcs]; rfl))
    rw [hcs, Option.some.injEq] at hcs'
    exact hcs' ▸ hsz

/-- Every entry the controller decodes is a row of the buffer decoded: row `i < n_envs`,
the block `[i * R, (i + 1) * R)`. -/
theorem mem_readResults {cfg : Config} {buf : List α} {cs : List (Cond α)}
    (h : readResults cfg buf = some cs) {c : Cond α} (hc : c ∈ cs) :
    ∃ i < cfg.nEnvs, ∃ r : NdArray α, r.shape = [cfg.resultSize] ∧
      r.data = block cfg.resultSize i buf ∧ deInitializeRow cfg r = some c := by
  have hb := length_of_readResults_isSome (by rw [h]; rfl)
  rw [readResults, NdArray.reshape_eq_some (a := NdArray.ofList buf)
    (s := [cfg.nEnvs, cfg.resultSize]) (by simp [NdArray.size, hb]), Option.bind_eq_bind,
    Option.some_bind, deInitializeResult] at h
  obtain ⟨i, hi, hrow⟩ := mem_of_mapM_eq_some h hc
  have hi := List.mem_range.mp hi
  obtain ⟨b, hb', hbs, hbd⟩ :=
    NdArray.get_eq_some (a := ⟨_, (NdArray.ofList buf).data, _⟩) rfl hi
  rw [hb', Option.bind_eq_bind, Option.some_bind] at hrow
  exact ⟨i, hi, b, hbs, by simp [hbd, block, NdArray.ofList], hrow⟩

/-! ## The buffer `init_process` allocates -/

/-- The fields of an all-zero record: zero images, state and poses, and 0 for the reward and
both flags. -/
def Fields.zero [Zero α] (cfg : Config) : Fields α :=
  ⟨List.replicate numImages (.zeros imageShape), .zeros stateShape, 0, 0, 0, .zeros cfg.targetShape⟩

theorem Fields.zero_sized [Zero α] (cfg : Config) : (Fields.zero cfg : Fields α).Sized cfg :=
  ⟨List.length_replicate _ _, fun _ h => by rw [List.eq_of_mem_replicate h]; rfl, rfl, rfl⟩

/-- The record of zero fields is `result_size` zeros: every slice of the buffer
`init_process` allocates holds it. -/
theorem Fields.zero_pack [Zero α] (cfg : Config) :
    ∃ r, (Fields.zero cfg : Fields α).pack = some r ∧
      r.data = List.replicate cfg.resultSize 0 := by
  obtain ⟨ims, r, hims, -, hpack, hrs, hrd⟩ := (Fields.zero_sized (α := α) cfg).pack_eq
  obtain ⟨ims', hims', -, himd⟩ := NdArray.stack_eq_some (s := imageShape)
    (show (Fields.zero cfg : Fields α).images ≠ [] by simp [Fields.zero, numImages])
    fun a h => by rw [List.eq_of_mem_replicate h]; rfl
  rw [hims, Option.some.injEq] at hims'
  subst hims'
  refine ⟨r, hpack, List.eq_replicate_iff.mpr ⟨by rw [r.length_data, hrs, List.prod_singleton],
    fun b hb => ?_⟩⟩
  simp only [hrd, himd, Fields.zero, NdArray.zeros, List.mem_append, List.mem_flatten,
    List.mem_map, List.mem_replicate, List.mem_singleton] at hb
  aesop

end RoboTwinPool
