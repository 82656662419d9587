import Mathlib.Tactic

/-! # Transport types

    The states, modes and error codes of `transport/types.h`. -/

namespace Pump

/-- `transport_state`. -/
inductive TransportState where
  | state_none
  | state_starting
  | state_started
  | state_stopping
  | state_stopped
  | state_disconnecting
  | state_disconnected
  | state_timeouting
  | state_timeouted
  | state_handshaking
  | state_finished
  | state_error
  deriving DecidableEq, Repr

/-- `error_code`. -/
inductive ErrorCode where
  | error_none
  | error_unstart
  | error_invalid
  | error_disable
  | error_again
  | error_fault
  deriving DecidableEq, Repr

/-- `read_mode`. -/
inductive ReadMode where
  | read_mode_none
  | read_mode_once
  | read_mode_loop
  deriving DecidableEq, Repr

/-- `read_state`. -/
inductive ReadState where
  | read_none
  | read_pending
  | read_invalid
  deriving DecidableEq, Repr

/-- `timer_state_type` of `time/timer.h`. -/
inductive TimerState where
  | timer_state_none
  | timer_state_stopped
  | timer_state_started
  | timer_state_pending
  | timer_state_finished
  deriving DecidableEq, Repr

end Pump
