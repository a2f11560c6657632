import RoboTwinPool.Worker.Run

set_option autoImplicit false

/-! # The handshake of one process

A process talks to the controller through three shared objects: it takes a go-signal from
`action_input_sem`, writes its slice `results[R * i : R * (i + 1)]`, and gives a done-signal
to `result_output_sem`. Over any run of the process (any content of the shared objects at
each move, any simulator replies, a raise anywhere) these accesses come in the order go,
write, done, go, write, done, …: a process never takes a second go-signal before it has
written its slice and answered the first, never writes its slice twice in one cycle, and
never gives a done-signal it was not asked for (`handshake_follows`).

The moves that touch none of the three (simulator calls, the seed claim) are hidden steps.
`Phase.stage` says where in the cycle each phase stands, and every move advances the
three-state automaton `Handshake.follows` accordingly (`Next.advance_stage`). A raise ends
the accesses where they stand: a process that raised holding a go-signal stays at stage 1,
owing its write and its done-signal forever.
-/

namespace RoboTwinPool

/-- A move's access to the handshake objects. -/
inductive Handshake
  /-- `action_input_sem.acquire()`. -/
  | go
  /-- `results[R * i : R * (i + 1)] = result`. -/
  | write
  /-- `result_output_sem.release()`. -/
  | done
  deriving DecidableEq, Repr

namespace Handshake

/-- The cycle go, write, done as an automaton: state `0` between cycles, `1` after the
go-signal, `2` after the write. -/
def next : Nat → Handshake → Option Nat
  | 0, go => some 1
  | 1, write => some 2
  | 2, done => some 0
  | _, _ => none

/-- A move's access, if any, from state `q`; a hidden move stays where it is. -/
def advance (q : Nat) : Option Handshake → Option Nat
  | none => some q
  | some h => next q h

/-- Whether the accesses `hs`, from state `q`, follow the cycle. -/
def follows : Nat → List Handshake → Bool
  | _, [] => true
  | q, h :: hs =>
    match next q h with
    | some q' => follows q' hs
    | none => false

end Handshake

variable {α : Type}

/-- The handshake access of an effect; the seed claim touches none of the three objects. -/
def Effect.handshake : Effect α → Option Handshake
  | .acquire => some .go
  | .write _ => some .write
  | .release => some .done
  | .none | .claim => Option.none

/-- Where in the handshake cycle a phase stands: between cycles, holding a go-signal before
the write (also after a raise while holding one), or after the write. -/
def Phase.stage : Phase α → Nat
  | .boot | .awaitFirst | .await => 0
  | .first | .dispatch | .reseed | .reseedObs | .chunk | .publish _ => 1
  | .signal => 2
  | .dead h => if h then 1 else 0

/-- Every move advances the automaton from its phase's stage to the next phase's stage. -/
theorem Phase.Next.advance_stage {p p' : Phase α} {e : Effect α} (h : p.Next p' e) :
    Handshake.advance p.stage e.handshake = some p'.stage := by
  cases p <;> simp only [Phase.Next] at h <;> casesm* _ ∨ _, _ ∧ _, ∃ _, _ <;> subst_vars <;> rfl

namespace Worker

variable [Zero α] [One α] (cfg : Config) (pid : Nat)

/-- The effects of the moves of a run, in order. -/
def effects (w : Worker α) : List (Env α) → List (Effect α)
  | [] => []
  | env :: envs => (w.move cfg pid env).2 :: (w.move cfg pid env).1.effects envs

/-- **A process's handshake follows go, write, done.** From any state of a process, over any
run, the accesses to `action_input_sem`, its result slice and `result_output_sem` continue
the cycle go, write, done from where the process stands; from its spawn (stage `0`) they
are a prefix of go, write, done, go, write, done, …. -/
theorem handshake_follows (w : Worker α) (envs : List (Env α)) :
    Handshake.follows w.phase.stage ((w.effects cfg pid envs).filterMap Effect.handshake) =
      true := by
  induction envs generalizing w with
  | nil => rfl
  | cons env envs ih =>
    have ha := (move_next cfg pid w env).advance_stage
    simp only [effects, List.filterMap_cons]
    cases he : (w.move cfg pid env).2.handshake with
    | none =>
      rw [he, Handshake.advance, Option.some.injEq] at ha
      rw [ha]
      exact ih _
    | some x =>
      rw [he, Handshake.advance] at ha
      simp only [Handshake.follows, ha]
      exact ih _

end Worker

end RoboTwinPool
