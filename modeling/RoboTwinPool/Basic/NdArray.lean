import Mathlib

set_option autoImplicit false

/-! # numpy arrays as shape and row-major data

Everything the pool moves between processes passes through numpy arrays: the camera
images and the joint state a worker reads from an observation, the flat record it
writes into the shared result buffer, the action batch the controller flattens and each
worker reshapes. An array is modelled as its shape and its elements in row-major (C)
order, `NdArray`; the size equation is a field, so an array whose data does not fill its
shape cannot be built.

The operations are the ones the source calls: `np.zeros`, `flatten`, `reshape`, indexing
and slicing along the first axis, `np.array` of a list of equally shaped arrays,
`np.concatenate` of one-dimensional arrays and the channel reversal `[:, :, ::-1]`. Each
returns `none` where numpy raises. Element types are not tracked: the shared buffers are
arrays of doubles and every value the pool stores in them (bytes, flags, rewards, joint
positions) is one of their values, so one element type `α` stands for all of them.
-/

namespace RoboTwinPool

/-! ## Blocks of a flat list -/

/-- `rows n k l`: the first `n` consecutive blocks of length `k` of `l`. -/
def rows {α : Type} (n k : Nat) (l : List α) : List (List α) :=
  (List.range n).map fun j => (l.drop (j * k)).take k

section Rows

variable {α : Type}

theorem rows_succ (n k : Nat) (l : List α) :
    rows (n + 1) k l = l.take k :: rows n k (l.drop k) := by
  simp only [rows, List.range_succ_eq_map, List.map_cons, Nat.zero_mul, List.drop_zero,
    List.map_map, List.cons.injEq, true_and]
  refine List.map_congr_left fun j _ => ?_
  simp only [Function.comp_apply, List.drop_drop, Nat.succ_mul, Nat.add_comm]

@[simp] theorem length_rows (n k : Nat) (l : List α) : (rows n k l).length = n := by
  simp [rows]

theorem length_take_drop_mul {l : List α} {d p i m : Nat} (hl : l.length = d * p)
    (h : m = 0 ∨ i + m ≤ d) : ((l.drop (i * p)).take (m * p)).length = m * p := by
  rcases h with rfl | h
  · simp
  · have := Nat.mul_le_mul_right p h
    rw [Nat.add_mul] at this
    simp only [List.length_take, List.length_drop, hl]
    omega

theorem length_of_mem_rows {n k : Nat} {l : List α} (hl : l.length = n * k) {r : List α}
    (hr : r ∈ rows n k l) : r.length = k := by
  obtain ⟨j, hj, rfl⟩ := List.mem_map.mp hr
  simpa using length_take_drop_mul (m := 1) hl (.inr (by simpa [Nat.add_comm] using hj))

theorem flatten_rows {n k : Nat} {l : List α} (hl : l.length = n * k) :
    (rows n k l).flatten = l := by
  induction n generalizing l with
  | zero => simpa [rows] using hl
  | succ n ih =>
    rw [rows_succ, List.flatten_cons, ih (by simp [hl, Nat.succ_mul]), List.take_append_drop]

theorem length_flatten_of_length_eq {L : List (List α)} {k : Nat}
    (h : ∀ r ∈ L, r.length = k) : L.flatten.length = L.length * k := by
  induction L with
  | nil => simp
  | cons r L ih =>
    simp only [List.flatten_cons, List.length_append, List.length_cons, h r (by simp),
      ih fun r' hr' => h r' (by simp [hr']), Nat.succ_mul]
    omega

end Rows

/-! ## Arrays -/

/-- A numpy array: its shape and its elements in row-major order. -/
structure NdArray (α : Type) where
  shape : List Nat
  data : List α
  length_data : data.length = shape.prod
  deriving DecidableEq

namespace NdArray

variable {α : Type}

@[ext] theorem ext {a b : NdArray α} (hs : a.shape = b.shape) (hd : a.data = b.data) : a = b := by
  cases a; cases b; cases hs; cases hd; rfl

/-- `a.size`: the number of elements. -/
def size (a : NdArray α) : Nat := a.shape.prod

theorem length_data_eq_size (a : NdArray α) : a.data.length = a.size := a.length_data

/-- `np.array(l)` for a list of scalars. -/
def ofList (l : List α) : NdArray α := ⟨[l.length], l, by simp⟩

/-- `np.zeros(s)`. -/
def zeros [Zero α] (s : List Nat) : NdArray α := ⟨s, List.replicate s.prod 0, by simp⟩

/-- `a.flatten()`: the same elements as a one-dimensional array. -/
def flatten (a : NdArray α) : NdArray α := ⟨[a.size], a.data, by simp [size, a.length_data]⟩

/-- `a.reshape(s)`: the same elements under the shape `s`; numpy raises unless the sizes
agree. -/
def reshape (a : NdArray α) (s : List Nat) : Option (NdArray α) :=
  if h : a.size = s.prod then some ⟨s, a.data, a.length_data.trans h⟩ else none

/-- `a[i]` for `0 ≤ i`: the `i`-th subarray along the first axis. -/
def get (a : NdArray α) (i : Nat) : Option (NdArray α) :=
  match h : a.shape with
  | [] => none
  | d :: rest =>
    if hi : i < d then
      some ⟨rest, (a.data.drop (i * rest.prod)).take (1 * rest.prod),
        by rw [length_take_drop_mul (d := d) (by rw [a.length_data, h, List.prod_cons])
          (.inr (by omega)), Nat.one_mul]⟩
    else none

/-- `a[start:stop]`, a slice along the first axis with nonnegative bounds. -/
def slice (a : NdArray α) (start stop : Nat) : Option (NdArray α) :=
  match h : a.shape with
  | [] => none
  | d :: rest =>
    some ⟨(min stop d - start) :: rest,
      (a.data.drop (start * rest.prod)).take ((min stop d - start) * rest.prod),
      by rw [length_take_drop_mul (d := d) (by rw [a.length_data, h, List.prod_cons])
          (by omega), List.prod_cons]⟩

/-- `np.array(as)` for a list of arrays: a new first axis, provided all shapes agree
(numpy raises on a ragged list). -/
def stack : List (NdArray α) → Option (NdArray α)
  | [] => some ⟨[0], [], rfl⟩
  | a :: as =>
    if h : ∀ b ∈ as, b.shape = a.shape then
      some ⟨(as.length + 1) :: a.shape, ((a :: as).map data).flatten, by
        rw [length_flatten_of_length_eq (k := a.shape.prod)]
        · simp [Nat.succ_mul]
        · simp only [List.mem_map, List.mem_cons]
          rintro r ⟨b, hb | hb, rfl⟩
          · rw [hb, a.length_data]
          · rw [b.length_data, h b hb]⟩
    else none

/-- `np.concatenate(as)` for one-dimensional arrays, as the worker calls it. -/
def concatenate (as : List (NdArray α)) : NdArray α :=
  ⟨[(as.map size).sum], (as.map data).flatten, by
    simp only [List.length_flatten, List.map_map, List.prod_cons, List.prod_nil, Nat.mul_one]
    congr 1
    exact List.map_congr_left fun a _ => a.length_data⟩

/-- `a[:, :, ::-1]`: the third axis reversed (the channel order of an `H x W x C` image);
numpy raises on an array of rank below three. -/
def flipChannels (a : NdArray α) : Option (NdArray α) :=
  match h : a.shape with
  | d0 :: d1 :: d2 :: rest =>
    some ⟨a.shape,
      ((rows (d0 * d1) (d2 * rest.prod) a.data).map fun blk =>
        (rows d2 rest.prod blk).reverse.flatten).flatten, by
      have hl : a.data.length = (d0 * d1) * (d2 * rest.prod) := by
        rw [a.length_data, h]; simp [Nat.mul_assoc]
      rw [length_flatten_of_length_eq (k := d2 * rest.prod), List.length_map, length_rows,
        ← hl, a.length_data]
      simp only [List.mem_map]
      rintro r ⟨blk, hblk, rfl⟩
      rw [length_flatten_of_length_eq (k := rest.prod), List.length_reverse, length_rows]
      intro x hx
      exact length_of_mem_rows (length_of_mem_rows hl hblk) (List.mem_reverse.mp hx)⟩
  | _ => none

/-! ## Equations -/

@[simp] theorem size_ofList (l : List α) : (ofList l).size = l.length := by simp [size, ofList]

@[simp] theorem shape_ofList (l : List α) : (ofList l).shape = [l.length] := rfl

@[simp] theorem data_ofList (l : List α) : (ofList l).data = l := rfl

@[simp] theorem data_flatten (a : NdArray α) : a.flatten.data = a.data := rfl

@[simp] theorem size_flatten (a : NdArray α) : a.flatten.size = a.size := by
  simp [flatten, size]

@[simp] theorem data_concatenate (as : List (NdArray α)) :
    (concatenate as).data = (as.map data).flatten := rfl

@[simp] theorem shape_concatenate (as : List (NdArray α)) :
    (concatenate as).shape = [(as.map size).sum] := rfl

theorem reshape_eq_some {a : NdArray α} {s : List Nat} (h : a.size = s.prod) :
    a.reshape s = some ⟨s, a.data, a.length_data.trans h⟩ := by
  simp [reshape, h]

theorem reshape_self (a : NdArray α) : a.reshape a.shape = some a := by
  rw [reshape_eq_some rfl]

/-- Reshaping reads only the data: the flat copy of `a` reshapes as `a` does. -/
theorem reshape_ofList (a : NdArray α) (s : List Nat) : (ofList a.data).reshape s = a.reshape s := by
  by_cases h : a.size = s.prod
  · rw [reshape_eq_some h, reshape_eq_some (by rw [size_ofList, a.length_data]; exact h)]
    rfl
  · rw [reshape, reshape, dif_neg h, dif_neg (by rwa [size_ofList, a.length_data])]

/-- The stacked array of equally shaped arrays: a new leading axis of the list's length,
the data of the arrays one after the other. -/
theorem stack_eq_some {as : List (NdArray α)} {s : List Nat} (hne : as ≠ [])
    (h : ∀ a ∈ as, a.shape = s) :
    ∃ r, stack as = some r ∧ r.shape = as.length :: s ∧ r.data = (as.map data).flatten := by
  obtain _ | ⟨a, as⟩ := as
  · exact absurd rfl hne
  have hall : ∀ b ∈ as, b.shape = a.shape := fun b hb =>
    (h b (by simp [hb])).trans (h a (by simp)).symm
  rw [stack, dif_pos hall]
  exact ⟨_, rfl, by simp [h a (by simp)], rfl⟩

theorem get_eq_some {a : NdArray α} {d i : Nat} {rest : List Nat} (h : a.shape = d :: rest)
    (hi : i < d) : ∃ b, a.get i = some b ∧ b.shape = rest ∧
      b.data = (a.data.drop (i * rest.prod)).take rest.prod := by
  obtain ⟨shape, data, hl⟩ := a
  subst h
  simp [get, hi]

theorem shape_of_reshape {a b : NdArray α} {s : List Nat} (h : a.reshape s = some b) :
    b.shape = s := by
  unfold reshape at h
  split at h
  · cases h; rfl
  · cases h

theorem shape_of_get {a b : NdArray α} {d i : Nat} {rest : List Nat} (hs : a.shape = d :: rest)
    (h : a.get i = some b) : b.shape = rest := by
  obtain ⟨shape, data, hl⟩ := a
  subst hs
  simp only [get] at h
  split at h
  · cases h; rfl
  · cases h

/-- A slice of a one-dimensional array whose data is `p ++ m ++ q`, taken at the bounds of
`m`, is `m`. -/
theorem slice_eq_ofList {a : NdArray α} {n i k : Nat} {p m q : List α}
    (hs : a.shape = [n]) (hd : a.data = p ++ m ++ q) (hp : p.length = i)
    (hm : m.length = k) : a.slice i (i + k) = some (ofList m) := by
  obtain ⟨shape, data, hl⟩ := a
  subst hs hd hp hm
  have hmin : min (p.length + m.length) n - p.length = m.length := by
    simp only [List.prod_cons, List.prod_nil, Nat.mul_one, List.length_append] at hl
    omega
  simp only [slice, List.prod_nil, Nat.mul_one, hmin, Option.some.injEq]
  ext
  · rfl
  · simp [List.append_assoc, List.drop_left', List.take_left']

/-- Reversing the channels of an array of rank at least three keeps its shape. -/
theorem flipChannels_shape {a : NdArray α} {d0 d1 d2 : Nat} {rest : List Nat}
    (h : a.shape = d0 :: d1 :: d2 :: rest) : ∃ b, a.flipChannels = some b ∧ b.shape = a.shape := by
  obtain ⟨shape, data, hl⟩ := a
  subst h
  exact ⟨_, rfl, rfl⟩

/-- A slice of a one-dimensional array of `n` elements has `min stop n - start` elements. -/
theorem slice_shape_of_vec {a : NdArray α} {n : Nat} (h : a.shape = [n]) (start stop : Nat) :
    ∃ b, a.slice start stop = some b ∧ b.shape = [min stop n - start] := by
  obtain ⟨shape, data, hl⟩ := a
  subst h
  exact ⟨_, rfl, rfl⟩

end NdArray

end RoboTwinPool
