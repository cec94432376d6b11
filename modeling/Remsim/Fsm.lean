import Mathlib

/-! # State machine instances with event masks, timers and nested dispatch

A machine is part of a program state.  An event that the current state does not permit is dropped,
and so is a change to a state that the current state does not permit.  Otherwise the timer is
stopped, `onleave` runs in the old state, and `onenter` runs in the new one with the new timer
running.  Actions and both hooks are functions of the program state, so that they can dispatch
further events, to this machine or to another one, before the first event has been processed.
-/

namespace Fsm

/-- A running timer: its number and the time from which on it may expire. -/
structure Timer where
  T : ℕ
  due : ℕ
deriving DecidableEq, Repr

/-- An instance of a machine. -/
structure Inst (S : Type) where
  state : S
  timer : Option Timer
deriving DecidableEq, Repr

/-- The tables and functions of a machine, and where its instance and the clock are found. -/
structure Machine (σ S E : Type) where
  inst : σ → Inst S
  setInst : Inst S → σ → σ
  now : σ → ℕ
  inEventMask : S → E → Bool
  outStateMask : S → S → Bool
  allstateEventMask : E → Bool
  action : S → E → σ → σ
  allstateAction : E → σ → σ
  onenter : S → σ → σ
  onleave : S → σ → σ
  timerCb : ℕ → σ → σ

namespace Machine

variable {σ S E : Type} (M : Machine σ S E)

/-- A change of the state; a timeout of zero leaves the timer as `onleave` has left it. -/
def stateChg (st : S) (timeoutMs T : ℕ) (s : σ) : σ :=
  let old := (M.inst s).state
  if M.outStateMask old st then
    let s := M.setInst { M.inst s with timer := none } s
    let s := M.onleave old s
    let timer := if timeoutMs = 0 then (M.inst s).timer else some ⟨T, M.now s + timeoutMs⟩
    M.onenter st (M.setInst ⟨st, timer⟩ s)
  else s

/-- An event is handled for all states, by the current state, or not at all. -/
def dispatch (e : E) (s : σ) : σ :=
  if M.allstateEventMask e then M.allstateAction e s
  else if M.inEventMask (M.inst s).state e then M.action (M.inst s).state e s
  else s

/-- The timer expires, if it is running and due. -/
def expire (s : σ) : Option σ :=
  match (M.inst s).timer with
  | none => none
  | some t =>
      if t.due ≤ M.now s then some (M.timerCb t.T (M.setInst { M.inst s with timer := none } s))
      else none

/-- A machine that drops everything. -/
def inert (inst : σ → Inst S) : Machine σ S E where
  inst := inst
  setInst _ s := s
  now _ := 0
  inEventMask _ _ := false
  outStateMask _ _ := false
  allstateEventMask _ := false
  action _ _ s := s
  allstateAction _ s := s
  onenter _ s := s
  onleave _ s := s
  timerCb _ s := s

variable {M} {s : σ} {e : E} {st : S} {t T : ℕ}

theorem dispatch_allstate (h : M.allstateEventMask e = true) :
    M.dispatch e s = M.allstateAction e s := if_pos h

theorem dispatch_action (h : M.allstateEventMask e = false)
    (h' : M.inEventMask (M.inst s).state e = true) :
    M.dispatch e s = M.action (M.inst s).state e s := by
  unfold dispatch
  rw [h, h', if_neg (by decide), if_pos rfl]

theorem dispatch_denied (h : M.allstateEventMask e = false)
    (h' : M.inEventMask (M.inst s).state e = false) : M.dispatch e s = s := by
  unfold dispatch
  rw [h, h', if_neg (by decide), if_neg (by decide)]

theorem stateChg_denied (h : M.outStateMask (M.inst s).state st = false) :
    M.stateChg st t T s = s := by
  simp only [stateChg, h, Bool.false_eq_true, if_false]

end Machine
end Fsm
