import Mathlib.Data.List.Basic

/-!
# Loops of asynchronous operations

An operation is started, completes, and its handler runs and starts the next one. Several such
chains may be under way at once, on several threads: a completed operation waits until a thread
takes its handler, in any order. No move but a new chain changes the number of chains.
-/

namespace Hnw.Theory

/-- Where the chains of a loop are. -/
structure Loop (π ρ κ : Type) where
  /-- Operations that were started. -/
  waiting : List π := []
  /-- Operations that completed and whose handlers no thread runs yet. -/
  ready : List ρ := []
  /-- Handlers that are running. -/
  running : List κ := []
  /-- How many chains ended. -/
  ended : Nat := 0

namespace Loop

variable {π ρ κ : Type}

/-- A new chain begins in a handler. -/
def enter (loop : Loop π ρ κ) (handler : κ) : Loop π ρ κ :=
  { loop with running := handler :: loop.running }

/-- A running handler starts an operation and returns. -/
def start (loop : Loop π ρ κ) (index : Nat) (operation : π) : Loop π ρ κ :=
  { loop with running := loop.running.eraseIdx index, waiting := operation :: loop.waiting }

/-- A running handler returns and starts nothing. -/
def leave (loop : Loop π ρ κ) (index : Nat) : Loop π ρ κ :=
  { loop with running := loop.running.eraseIdx index, ended := loop.ended + 1 }

/-- An operation completes. -/
def complete (loop : Loop π ρ κ) (index : Nat) (result : ρ) : Loop π ρ κ :=
  { loop with waiting := loop.waiting.eraseIdx index, ready := loop.ready ++ [result] }

/-- A thread takes a handler. -/
def handle (loop : Loop π ρ κ) (index : Nat) (handler : κ) : Loop π ρ κ :=
  { loop with ready := loop.ready.eraseIdx index, running := handler :: loop.running }

/-- A thread takes a handler that returns at once and starts nothing. -/
def drop (loop : Loop π ρ κ) (index : Nat) : Loop π ρ κ :=
  { loop with ready := loop.ready.eraseIdx index, ended := loop.ended + 1 }

/-- The chains that are under way. -/
def alive (loop : Loop π ρ κ) : Nat :=
  loop.waiting.length + loop.ready.length + loop.running.length

/-- All chains. -/
def chains (loop : Loop π ρ κ) : Nat := loop.alive + loop.ended

variable {loop : Loop π ρ κ} {index : Nat}

/-- A new chain. -/
theorem enter_chains (handler : κ) : (loop.enter handler).chains = loop.chains + 1 := by
  simp only [chains, alive, enter, List.length_cons]
  omega

/-- An element that is taken out of a list. -/
theorem eraseIdx_length {α : Type} {list : List α} (inside : index < list.length) :
    (list.eraseIdx index).length + 1 = list.length := by
  rw [List.length_eraseIdx, if_pos inside]
  omega

/-- A handler that starts an operation keeps its chain. -/
theorem start_chains (inside : index < loop.running.length) (operation : π) :
    (loop.start index operation).chains = loop.chains := by
  have taken := eraseIdx_length inside
  simp only [chains, alive, start, List.length_cons]
  omega

/-- A handler that starts nothing ends its chain. -/
theorem leave_chains (inside : index < loop.running.length) :
    (loop.leave index).chains = loop.chains := by
  have taken := eraseIdx_length inside
  simp only [chains, alive, leave]
  omega

/-- An operation that completes keeps its chain. -/
theorem complete_chains (inside : index < loop.waiting.length) (result : ρ) :
    (loop.complete index result).chains = loop.chains := by
  have taken := eraseIdx_length inside
  simp only [chains, alive, complete, List.length_append, List.length_singleton]
  omega

/-- A handler that is taken keeps its chain. -/
theorem handle_chains (inside : index < loop.ready.length) (handler : κ) :
    (loop.handle index handler).chains = loop.chains := by
  have taken := eraseIdx_length inside
  simp only [chains, alive, handle, List.length_cons]
  omega

/-- A handler that is dropped ends its chain. -/
theorem drop_chains (inside : index < loop.ready.length) :
    (loop.drop index).chains = loop.chains := by
  have taken := eraseIdx_length inside
  simp only [chains, alive, drop]
  omega

end Loop

end Hnw.Theory
