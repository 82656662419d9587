import Pump.Http.Connection
import Pump.Transport.AsyncRead

/-! # start_websocket

    A call of `connection::start_websocket`, with the transport it arms a read
    of: the exchange of the state comes first, then the check of the callbacks,
    their assignment, and the read. -/

namespace Pump

open ConnectionState ErrorCode ReadMode ReadState TransportType

/-! ## Section 1: Model -/

/-- `websocket_callbacks` of any functions; an empty one is `none`. -/
structure WsCallbacks (F E : Type) where
  frame_cb : Option F
  error_cb : Option E
  deriving DecidableEq

/-- What `start_websocket` uses of a connection. -/
structure Upgrading (F E : Type) where
  state : ConnectionState
  ws_cbs : WsCallbacks F E
  transp : Option Reader
  deriving DecidableEq

namespace Upgrading

variable {F E : Type}

/-- `__async_read`; `ok` and `posted` are the outcomes of the poller. -/
def async_read (c : Upgrading F E) (ok posted : Bool) : Bool × Upgrading F E :=
  match c.transp with
  | none => (false, c)
  | some transp =>
    let r := transp.async_read ok posted
    (decide (r.1 = error_none), { c with transp := some r.2 })

/-- `connection::start_websocket`. -/
def start_websocket (c : Upgrading F E) (cbs : WsCallbacks F E) (ok posted : Bool) :
    Bool × Upgrading F E :=
  if c.state ≠ state_started then (false, c)
  else
    let c := { c with state := state_upgraded }
    if cbs.frame_cb.isNone || cbs.error_cb.isNone then (false, c)
    else
      let c := { c with ws_cbs := cbs }
      let r := c.async_read ok posted
      if !r.1 then (false, r.2) else (true, r.2)

/-! ## Section 2: A call that fails -/

/-- If the call returns `false`, the state and the callbacks are those of
    before. -/
def Unchanged (c : Upgrading F E) (cbs : WsCallbacks F E) (ok posted : Bool) : Prop :=
  (c.start_websocket cbs ok posted).1 = false →
    (c.start_websocket cbs ok posted).2.state = c.state ∧
      (c.start_websocket cbs ok posted).2.ws_cbs = c.ws_cbs

/-- Both callbacks are set and the transport can arm a read. -/
def Ready (c : Upgrading F E) (cbs : WsCallbacks F E) (ok : Bool) : Prop :=
  cbs.frame_cb.isSome = true ∧ cbs.error_cb.isSome = true ∧
    ∃ transp, c.transp = some transp ∧ transp.Accepts ok

theorem async_read_fst (c : Upgrading F E) (ok posted : Bool) :
    (c.async_read ok posted).1 = true ↔ ∃ transp, c.transp = some transp ∧ transp.Accepts ok := by
  unfold async_read
  rcases c.transp with _ | transp
  · simp
  · simp [(transp.async_read_outcome ok posted).accepted]

theorem async_read_state (c : Upgrading F E) (ok posted : Bool) :
    (c.async_read ok posted).2.state = c.state := by
  unfold async_read
  rcases c.transp with _ | transp <;> rfl

/-- From `state_started` the call takes the state, whatever it returns. -/
theorem start_websocket_state {c : Upgrading F E} (h : c.state = state_started)
    (cbs : WsCallbacks F E) (ok posted : Bool) :
    (c.start_websocket cbs ok posted).2.state = state_upgraded := by
  unfold start_websocket
  rw [if_neg (not_not.mpr h)]
  simp only
  split
  · rfl
  · split <;> rw [async_read_state]

/-- It returns `true` when everything is ready. -/
theorem start_websocket_fst {c : Upgrading F E} (h : c.state = state_started)
    (cbs : WsCallbacks F E) (ok posted : Bool) :
    (c.start_websocket cbs ok posted).1 = true ↔ c.Ready cbs ok := by
  unfold start_websocket Ready
  rw [if_neg (not_not.mpr h)]
  by_cases hcbs : (cbs.frame_cb.isNone || cbs.error_cb.isNone) = true
  · rw [if_pos hcbs]
    refine iff_of_false Bool.false_ne_true ?_
    rintro ⟨hframe, herror, -⟩
    rw [Bool.or_eq_true, Option.isNone_iff_eq_none, Option.isNone_iff_eq_none] at hcbs
    rcases hcbs with hnone | hnone
    · rw [hnone] at hframe
      cases hframe
    · rw [hnone] at herror
      cases herror
  · have hset : cbs.frame_cb.isSome = true ∧ cbs.error_cb.isSome = true := by
      rw [Bool.not_eq_true, Bool.or_eq_false_iff] at hcbs
      simpa using hcbs
    obtain ⟨c', hc'⟩ : ∃ c', c' = { c with state := state_upgraded, ws_cbs := cbs } := ⟨_, rfl⟩
    have hread := async_read_fst c' ok posted
    have htransp : c'.transp = c.transp := by rw [hc']
    rw [htransp, hc'] at hread
    rw [if_neg hcbs, ← hread]
    rcases hr : (({ c with state := state_upgraded, ws_cbs := cbs } : Upgrading F E).async_read ok
      posted).1 with _ | _
    · simp [hr]
    · simp [hr, hset]

/-- **A failed start_websocket** changes nothing exactly if the state was the
    wrong one: from `state_started`, only a call that succeeds is harmless. -/
theorem unchanged_iff (c : Upgrading F E) (cbs : WsCallbacks F E) (ok posted : Bool) :
    c.Unchanged cbs ok posted ↔ c.state ≠ state_started ∨ c.Ready cbs ok := by
  unfold Unchanged
  by_cases h : c.state = state_started
  · constructor
    · intro hsame
      right
      rw [← start_websocket_fst h cbs ok posted, ← Bool.not_eq_false]
      intro hfalse
      have hstate := (hsame hfalse).1
      rw [start_websocket_state h, h] at hstate
      cases hstate
    · rintro (hwrong | hready) hfalse
      · exact absurd h hwrong
      · rw [(start_websocket_fst h cbs ok posted).mpr hready] at hfalse
        cases hfalse
  · refine iff_of_true (fun _ => ?_) (Or.inl h)
    unfold start_websocket
    rw [if_pos h]
    exact ⟨rfl, rfl⟩

/-- A connection on a `tcp_transport` in that read state. -/
def served (rstate : ReadState) : Upgrading Nat Nat :=
  ⟨state_started, ⟨none, none⟩,
    some { Reader.started transport_tcp read_mode_once with rstate := rstate }⟩

/-- Without an error callback, and with a read already pending. -/
theorem not_unchanged :
    ¬ (served read_none).Unchanged ⟨some 1, none⟩ true true ∧
      ¬ (served read_pending).Unchanged ⟨some 1, some 2⟩ true true := by
  unfold Unchanged
  decide

end Upgrading

end Pump
