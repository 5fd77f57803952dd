import Mathlib.Data.List.Basic
import Mathlib.Control.Basic

set_option autoImplicit false

/-! A computation in stages that may fail. A checkpoint is a position together with the state which the
uninterrupted computation has there, so continuing from any checkpoint gives its result. -/

namespace Shared

variable {σ ε : Type}

abbrev Stage (σ ε : Type) := σ → Except ε σ

def runStages (stages : List (Stage σ ε)) (start : σ) : Except ε σ :=
  stages.foldlM (fun state stage => stage state) start

@[simp] theorem runStages_nil (start : σ) : runStages ([] : List (Stage σ ε)) start = .ok start := rfl

theorem runStages_cons (stage : Stage σ ε) (rest : List (Stage σ ε)) (start : σ) :
    runStages (stage :: rest) start = (stage start).bind (runStages rest) := rfl

theorem runStages_append (front back : List (Stage σ ε)) (start : σ) :
    runStages (front ++ back) start = (runStages front start).bind (runStages back) := by
  simp only [runStages, List.foldlM_append]
  rfl

structure Checkpoint (stages : List (Stage σ ε)) (start : σ) where
  position : Nat
  state : σ
  reached : runStages (stages.take position) start = .ok state

namespace Checkpoint

variable {stages : List (Stage σ ε)} {start : σ}

def initial (stages : List (Stage σ ε)) (start : σ) : Checkpoint stages start :=
  ⟨0, start, rfl⟩

def advance (checkpoint : Checkpoint stages start) (stage : Stage σ ε) (state : σ)
    (found : stages[checkpoint.position]? = some stage)
    (completed : stage checkpoint.state = .ok state) : Checkpoint stages start where
  position := checkpoint.position + 1
  state := state
  reached := by
    rw [List.take_add_one, found, runStages_append, checkpoint.reached]
    simp [Except.bind, runStages_cons, completed]

theorem resume (checkpoint : Checkpoint stages start) :
    runStages (stages.drop checkpoint.position) checkpoint.state = runStages stages start := by
  conv_rhs => rw [← List.take_append_drop checkpoint.position stages, runStages_append,
    checkpoint.reached]
  rfl

theorem complete (checkpoint : Checkpoint stages start) (past : stages.length ≤ checkpoint.position) :
    runStages stages start = .ok checkpoint.state := by
  rw [← checkpoint.resume, List.drop_eq_nil_of_le past, runStages_nil]

theorem fails (checkpoint : Checkpoint stages start) {stage : Stage σ ε} {e : ε}
    (found : stages[checkpoint.position]? = some stage)
    (failed : stage checkpoint.state = .error e) : runStages stages start = .error e := by
  rw [← checkpoint.resume, List.drop_eq_getElem?_toList_append, found, Option.toList_some,
    List.singleton_append, runStages_cons, failed]
  rfl

end Checkpoint

-- The second stage gives the first one's result wherever the first one has one.
def Stage.Refines (stage stage' : Stage σ ε) : Prop :=
  ∀ state next, stage state = .ok next → stage' state = .ok next

end Shared
