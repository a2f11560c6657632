import RoboTwinPool.Pool.Safety

set_option autoImplicit false

/-! # The seed cursor

Every seed claim, of a reseed or of an auto-reset, reads the cursor `seed_id` and advances
it by one modulo 30 under its lock, and `clear()` carries the cursor over to the next pool
through `self.seed`. So the claims of a whole run, across any number of pools, are
`0, 1, 2, …` modulo 30 (`seed_claims`). How many a cycle makes is another matter: a
`reset()` hands out one seed per go-signal that reaches the reseed branch, and after the
race of `init_process_race` one of its go-signals goes to a delayed initial push instead
(`reset_after_race`).
-/

namespace RoboTwinPool

namespace Pool

variable {α : Type} [Zero α] [One α] {cfg : Config} {s s' : Pool α}

/-- The cursor after a claim of the cursor `n % 30` is `(n + 1) % 30`. -/
theorem nextSeed_mod (n : Nat) : nextSeed (n % 30) = (n + 1) % 30 := by
  unfold nextSeed; split <;> omega

/-- **The seed cursor**: the claims so far are `0, 1, 2, …` modulo 30, the cursor is the
next one, and between pools `self.seed` carries it over. -/
structure SeedCursor (s : Pool α) : Prop where
  log : s.seedLog = (List.range s.seedLog.length).map (· % 30)
  cursor : s.shareSeed = s.seedLog.length % 30
  carried : s.ctrl = .cleared → s.seed = s.shareSeed

theorem SeedCursor.step (hb : Balanced cfg s) (hi : s.SeedCursor) {l : Label α}
    (h : s.step cfg l = some s') : s'.SeedCursor := by
  cases l with
  | call =>
    rcases call_cases h with ⟨he, rfl⟩ | ⟨-, _, _, rfl⟩ | ⟨-, rfl⟩ | ⟨-, rfl⟩ | ⟨-, rfl⟩
    · exact ⟨hi.log, (hi.carried he).trans hi.cursor, nofun⟩
    · exact ⟨hi.log, hi.cursor, nofun⟩
    · exact ⟨hi.log, hi.cursor, hi.carried⟩
    · exact ⟨hi.log, hi.cursor, nofun⟩
    · refine ⟨hi.log, hi.cursor, fun _ => ?_⟩
      have := hi.cursor
      simp only [clearSeed]; split <;> omega
  | ctrl =>
    rcases ctrlMove_cases h with ⟨_, _, _, rfl⟩ | ⟨_, _, rfl⟩ | ⟨_, _, _, -, rfl⟩ | ⟨_, _, rfl⟩
    iterate 4 exact ⟨hi.log, hi.cursor, nofun⟩
  | worker i reply =>
    obtain ⟨w, hw, -, -, rfl⟩ := workerMove_cases h
    have hcar : s.ctrl ≠ .cleared := fun hc => by simp [hb.cleared hc] at hw
    generalize (w.move cfg i (s.envOf reply)).2 = e
    cases e with
    | claim =>
      refine ⟨?_, ?_, fun hc => absurd hc hcar⟩
      · simp only [apply, List.length_append, List.length_singleton, List.range_succ,
          List.map_append, List.map_singleton, ← hi.log, hi.cursor]
      · simp only [apply, List.length_append, List.length_singleton, hi.cursor, nextSeed_mod]
    | _ => exact ⟨hi.log, hi.cursor, fun hc => absurd hc hcar⟩

/-- **Every claim returns the next seed modulo 30**, across any interleaving of claims and
any number of `clear()` and `init_process()`: the `k`-th claim returns `k % 30`, so every
claimed seed is below 30 and any 30 consecutive claims are distinct; the cursor is the
number of claims so far modulo 30. -/
theorem seed_claims (hs : Reachable cfg s) :
    s.shareSeed = s.seedLog.length % 30 ∧
      (∀ k < s.seedLog.length, s.seedLog[k]? = some (k % 30)) ∧
      (∀ x ∈ s.seedLog, x < 30) ∧
      ∀ j k, j < k → k < j + 30 → k < s.seedLog.length → s.seedLog[j]? ≠ s.seedLog[k]? := by
  have hi : s.SeedCursor := by
    refine (hs.inv (P := fun s => s.Balanced cfg ∧ s.SeedCursor) ?_ ?_).2
    · exact ⟨Balanced.init, rfl, rfl, fun _ => rfl⟩
    · exact fun _ hi h => ⟨hi.1.step h, hi.2.step hi.1 h⟩
  have hk : ∀ k < s.seedLog.length, s.seedLog[k]? = some (k % 30) := fun k hk => by
    rw [hi.log]; simp [hk]
  refine ⟨hi.cursor, hk, fun x hx => ?_, fun j k hjk hk30 hkl => ?_⟩
  · rw [hi.log] at hx
    obtain ⟨k, -, rfl⟩ := List.mem_map.mp hx
    exact Nat.mod_lt _ (by omega)
  · rw [hk j (by omega), hk k hkl]
    simp only [ne_eq, Option.some.injEq]
    omega

/-- In the `reset()` of `resetTwo` the two reseeds have claimed seeds 0 and 1. -/
theorem seed_claims_in_reset :
    ∃ s, (init : Pool Nat).run ⟨2, 1, 100⟩ resetTwo = some s ∧ Reachable ⟨2, 1, 100⟩ s ∧
      s.seedLog = [0, 1] ∧
      (s.shareSeed = s.seedLog.length % 30 ∧
        (∀ k < s.seedLog.length, s.seedLog[k]? = some (k % 30)) ∧
        (∀ x ∈ s.seedLog, x < 30) ∧
        ∀ j k, j < k → k < j + 30 → k < s.seedLog.length → s.seedLog[j]? ≠ s.seedLog[k]?) := by
  obtain ⟨s, hrun, hl⟩ : ∃ s, (init : Pool Nat).run ⟨2, 1, 100⟩ resetTwo = some s ∧
      s.seedLog = [0, 1] := ⟨_, rfl, rfl⟩
  have hs := Reachable.run _ .init hrun
  exact ⟨s, hrun, hs, hl, seed_claims hs⟩

/-- `reset()` right after the run of `initRace`: worker 1 finally takes a go-signal, for
its initial push, and worker 0 takes the other and reseeds; no adapter initialization
fails. -/
def resetRace : List (Label Nat) :=
  [.call .reset, .ctrl, .ctrl, .ctrl] ++ List.replicate 5 (.worker 1 Worker.blankEnv.reply) ++
    List.replicate 6 (.worker 0 Worker.blankEnv.reply) ++ [.ctrl, .ctrl, .ctrl]

/-- **A reset cycle can hand out fewer seeds than there are workers.** No seed is claimed
during `initRace`; in the `reset()` that follows on the pool of two, one seed is claimed
and the cursor advances by 1. -/
theorem reset_after_race :
    ∃ s s', (init : Pool Nat).run ⟨2, 1, 100⟩ initRace = some s ∧ s.ctrl = .idle ∧
      s.seedLog = [] ∧ s.run ⟨2, 1, 100⟩ resetRace = some s' ∧ s'.ctrl = .idle ∧
      s'.seedLog = [0] ∧ s'.shareSeed = 1 :=
  ⟨_, _, rfl, by decide, by decide, rfl, by decide, by decide, by decide⟩

end Pool

end RoboTwinPool
