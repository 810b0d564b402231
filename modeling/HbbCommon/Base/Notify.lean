import Mathlib

/-!
# A notification for one waiting task

`Notify` is a cell with at most one permit. The task that waits creates a `Notified` and polls
it later. `notifyOne` wakes the task if it is registered and stores the permit otherwise;
`notifyWaiters` wakes a `Notified` from its creation on and stores nothing.
-/

namespace HbbCommon.Base

/-- The future of the task that waits. -/
structure Notified where
  /-- it is registered as a waiter -/
  polled : Bool
  woken : Bool
  deriving DecidableEq, Repr

structure Notify where
  permit : Bool
  future : Option Notified
  deriving DecidableEq, Repr

namespace Notify

def new : Notify := { permit := false, future := none }

def notified (n : Notify) : Notify := { n with future := some { polled := false, woken := false } }

/-- The future is dropped before its first poll. -/
def drop (n : Notify) : Notify := { n with future := none }

def notifyOne (n : Notify) : Notify :=
  match n.future with
  | some { polled := true, woken := false } =>
      { n with future := some { polled := true, woken := true } }
  | _ => { n with permit := true }

def notifyWaiters (n : Notify) : Notify :=
  { n with future := n.future.map (fun future => { future with woken := true }) }

/-- One poll of the future, and whether it completes. -/
def poll (n : Notify) : Notify × Bool :=
  match n.future with
  | none => (n, false)
  | some { polled := true, woken := true } => (n.drop, true)
  | some { polled := true, woken := false } => (n, false)
  | some { polled := false, woken := woken } =>
      if n.permit then ({ n.drop with permit := false }, true)
      else if woken then (n.drop, true)
      else ({ n with future := some { polled := true, woken := false } }, false)

/-- The next poll completes. -/
def ready (n : Notify) : Bool :=
  match n.future with
  | none => false
  | some future => future.woken || (!future.polled && n.permit)

variable {n : Notify}

theorem poll_snd (n : Notify) : n.poll.2 = n.ready := by
  obtain ⟨permit, _ | ⟨polled, woken⟩⟩ := n
  · rfl
  · cases permit <;> cases polled <;> cases woken <;> rfl

theorem ready_notifyOne (h : n.future.isSome = true) : n.notifyOne.ready = true := by
  obtain ⟨permit, _ | ⟨polled, woken⟩⟩ := n
  · cases h
  · cases permit <;> cases polled <;> cases woken <;> rfl

theorem ready_notifyWaiters (h : n.future.isSome = true) : n.notifyWaiters.ready = true := by
  obtain ⟨permit, _ | future⟩ := n
  · cases h
  · simp [notifyWaiters, ready]

theorem isSome_notifyOne : n.notifyOne.future.isSome = n.future.isSome := by
  obtain ⟨permit, _ | ⟨polled, woken⟩⟩ := n
  · rfl
  · cases polled <;> cases woken <;> rfl

theorem isSome_notifyWaiters : n.notifyWaiters.future.isSome = n.future.isSome :=
  Option.isSome_map

theorem isSome_poll (h : n.poll.2 = false) : n.poll.1.future.isSome = n.future.isSome := by
  obtain ⟨permit, _ | ⟨polled, woken⟩⟩ := n
  · rfl
  · revert h
    cases permit <;> cases polled <;> cases woken <;> decide

end Notify

end HbbCommon.Base
