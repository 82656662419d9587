import Pump.Http.Connection
import Pump.Lts
import Pump.Once

/-! # The callbacks of a connection

    `proto/http/connection.cpp`: `start_http`, `start_websocket` and the
    callbacks of the transport, `on_read`, `on_disconnected` and `on_stopped`,
    run by any number of threads. The state says whose callbacks are due; the
    callbacks themselves are set beside it.

    A step is one access to the state, to the callbacks or to the closed flag.
    What is read is part of the label, as far as it decides which callback is
    invoked; the transport calls back only after it was started. -/

namespace Pump

open ConnectionState

/-! ## Section 1: Model -/

/-- `http_callbacks`: which of them are not empty. -/
structure HttpCallbacks where
  packet_cb : Bool
  error_cb : Bool
  deriving DecidableEq, Repr

/-- `websocket_callbacks`: which of them are not empty. -/
structure WebsocketCallbacks where
  frame_cb : Bool
  error_cb : Bool
  deriving DecidableEq, Repr

/-- The check of `start_http`. -/
def HttpCallbacks.valid (cbs : HttpCallbacks) : Bool := cbs.packet_cb && cbs.error_cb

/-- The check of `start_websocket`. -/
def WebsocketCallbacks.valid (cbs : WebsocketCallbacks) : Bool := cbs.frame_cb && cbs.error_cb

/-- How the transport has ended. -/
inductive ConnectionEnd where
  | disconnected
  | stopped
  deriving DecidableEq, Repr

def ConnectionEnd.text : ConnectionEnd → String
  | .disconnected => "disconnected"
  | .stopped => "stopped"

/-- Where a thread is. -/
inductive ConnectionPc where
  | idle
  -- start_http
  | start_state (cbs : HttpCallbacks)
  | start_assign (cbs : HttpCallbacks)
  | start_transport
  | start_error
  -- start_websocket
  | upgrade_state (cbs : WebsocketCallbacks)
  | upgrade_assign (cbs : WebsocketCallbacks)
  -- on_read
  | read_load (finished : Bool) (frame : Option UInt8)
  | read_packet (finished : Bool)
  | packet_cb
  | read_frame (frame : Option UInt8)
  | frame_cb
  | close_frame
  -- on_disconnected and on_stopped
  | end_load (e : ConnectionEnd)
  | end_switch (st : ConnectionState)
  | end_exchange (e : ConnectionEnd) (upgraded : Bool) (st : ConnectionState)
  | end_closed (e : ConnectionEnd)
  | error_cb (upgraded : Bool) (msg : String)
  deriving DecidableEq, Repr

/-- The callbacks; `error_cb` is the one of the websocket callbacks where the
    connection was upgraded. -/
inductive ConnectionCall where
  | packet_cb
  | frame_cb
  | error_cb (upgraded : Bool) (msg : String)
  deriving DecidableEq, Repr

/-- A connection and the threads `ι`. `live` is whether its transport was
    started. The last two fields are a record of the run: the state that
    `state_error` has replaced, and the callbacks that were invoked, with
    whether they were set. -/
structure LiveConnection (ι : Type) where
  state : ConnectionState
  http_cbs : HttpCallbacks
  ws_cbs : WebsocketCallbacks
  ws_closed : Bool
  live : Bool
  pcs : ι → ConnectionPc
  was : Option ConnectionState
  calls : List (ConnectionCall × Bool)

inductive ConnectionLabel (ι : Type) where
  /-- A call of `start_http`; the flags are its other checks. -/
  | start_http (i : ι) (sv transp : Bool) (cbs : HttpCallbacks)
  | start_websocket (i : ι) (cbs : WebsocketCallbacks)
  /-- What is read finishes the pending packet or not, as HTTP, or completes a
      frame with a code or not, as websocket data. -/
  | on_read (i : ι) (finished : Bool) (frame : Option UInt8)
  | on_disconnected (i : ι)
  | on_stopped (i : ι)
  /-- The next step of a thread. -/
  | step (i : ι) (ok : Bool)

namespace LiveConnection

variable {ι : Type}

/-- A new connection. -/
def new : LiveConnection ι :=
  { state := state_none
    http_cbs := ⟨false, false⟩
    ws_cbs := ⟨false, false⟩
    ws_closed := false
    live := false
    pcs := fun _ => .idle
    was := none
    calls := [] }

/-- The state becomes `state_error`. -/
def fail (s : LiveConnection ι) : LiveConnection ι :=
  { s with state := state_error, was := if s.state = state_error then s.was else some s.state }

/-- A callback is invoked. -/
def invoke (s : LiveConnection ι) (c : ConnectionCall) : LiveConnection ι :=
  { s with calls := s.calls ++ [(c, is_set c)] }
where
  /-- Whether the callback is set. -/
  is_set : ConnectionCall → Bool
    | .packet_cb => s.http_cbs.packet_cb
    | .frame_cb => s.ws_cbs.frame_cb
    | .error_cb false _ => s.http_cbs.error_cb
    | .error_cb true _ => s.ws_cbs.error_cb

/-- The cases of the switch of `on_disconnected` and `on_stopped` over `st'`,
    where `st` was loaded before. -/
def end_case (e : ConnectionEnd) (st st' : ConnectionState) : ConnectionPc :=
  match st' with
  | state_started => .end_exchange e false st
  | state_upgraded => .end_exchange e true st
  | _ => .idle

/-- Where `__handle_websocket_frame` goes with a frame. -/
def frame_case : Option UInt8 → ConnectionPc
  | some code =>
    if code = wscode_slice ∨ code = wscode_text ∨ code = wscode_bin then .frame_cb
    else if code = wscode_close then .close_frame
    else .idle
  | none => .idle

/-- The next step of a thread: where it goes and what it does to the rest. -/
def action (s : LiveConnection ι) (ok : Bool) : ConnectionPc → ConnectionPc × LiveConnection ι
  | .idle => (.idle, s)
  | .start_state cbs =>
    if s.state = state_none then (.start_assign cbs, { s with state := state_started })
    else (.idle, s)
  | .start_assign cbs => (.start_transport, { s with http_cbs := cbs })
  | .start_transport => if ok then (.idle, { s with live := true }) else (.start_error, s)
  | .start_error => (.idle, s.fail)
  | .upgrade_state cbs =>
    if s.state = state_started then
      (if cbs.valid then .upgrade_assign cbs else .idle, { s with state := state_upgraded })
    else (.idle, s)
  -- then the transport is told to read
  | .upgrade_assign cbs => (.idle, { s with ws_cbs := cbs })
  | .read_load finished frame =>
    (match s.state with
      | state_started => .read_packet finished
      | state_upgraded => .read_frame frame
      | _ => .idle, s)
  | .read_packet finished => (if finished then .packet_cb else .idle, s)
  | .packet_cb => (.idle, s.invoke .packet_cb)
  | .read_frame frame => (frame_case frame, s)
  | .frame_cb => (.idle, s.invoke .frame_cb)
  | .close_frame => (.idle, { s with ws_closed := true })
  | .end_load .disconnected => (.end_switch s.state, s)
  | .end_load .stopped => (end_case .stopped s.state s.state, s)
  -- the state is loaded a second time
  | .end_switch st => (end_case .disconnected st s.state, s)
  | .end_exchange e upgraded st =>
    if s.state = st then (if upgraded then .end_closed e else .error_cb false e.text, s.fail)
    else (.end_load e, s)
  | .end_closed e =>
    (.error_cb true (if s.ws_closed then "closed" else e.text), { s with ws_closed := true })
  | .error_cb upgraded msg => (.idle, s.invoke (.error_cb upgraded msg))

section

variable [DecidableEq ι]

/-- Thread `i` goes to `pc`. -/
def goto (s : LiveConnection ι) (i : ι) (pc : ConnectionPc) : LiveConnection ι :=
  { s with pcs := Function.update s.pcs i pc }

/-- A function of the connection is entered by an idle thread. -/
def enter (s : LiveConnection ι) (i : ι) (pc : ConnectionPc) : Option (LiveConnection ι) :=
  if s.pcs i = .idle then some (s.goto i pc) else none

def step (s : LiveConnection ι) : ConnectionLabel ι → Option (LiveConnection ι)
  | .start_http i sv transp cbs =>
    s.enter i (if sv && cbs.valid && transp then .start_state cbs else .idle)
  | .start_websocket i cbs => s.enter i (.upgrade_state cbs)
  | .on_read i finished frame => if s.live then s.enter i (.read_load finished frame) else none
  | .on_disconnected i => if s.live then s.enter i (.end_load .disconnected) else none
  | .on_stopped i => if s.live then s.enter i (.end_load .stopped) else none
  | .step i ok =>
    let r := s.action ok (s.pcs i)
    some (r.2.goto i r.1)

end

/-! ## Section 2: One error report -/

/-- How far the connection is. -/
def rank : ConnectionState → Nat
  | state_none => 0
  | state_started => 1
  | state_upgraded => 2
  | state_stopped => 3
  | state_error => 4

/-- The callback is an `error_cb`. -/
def is_error : ConnectionCall × Bool → Bool
  | (.error_cb _ _, _) => true
  | _ => false

/-- An `error_cb` is due to the thread. -/
def Due : ConnectionPc → Prop
  | .end_closed _ | .error_cb _ _ => True
  | _ => False

/-- The state that `state_error` replaces where an `error_cb` is due to the
    websocket callbacks, or to the others. -/
def owner (upgraded : Bool) : ConnectionState := if upgraded then state_upgraded else state_started

/-- What a thread has loaded, or has won. -/
def Loaded (s : LiveConnection ι) : ConnectionPc → Prop
  | .end_switch st => rank st ≤ rank s.state
  | .end_exchange _ upgraded st => rank st ≤ rank (owner upgraded) ∧
      rank (owner upgraded) ≤ rank s.state
  | .end_closed _ => s.was = some state_upgraded
  | .error_cb upgraded _ => s.was = some (owner upgraded)
  | _ => True

/-- The state only goes on, and an error is the last of it. -/
structure Advances (s s' : LiveConnection ι) : Prop where
  rank : rank s.state ≤ rank s'.state
  last : s.state = state_error → s'.was = s.was

structure ReportInv (s : LiveConnection ι) : Prop where
  once : Once (fun i => Due (s.pcs i)) (s.calls.countP is_error) (s.state = state_error)
  loaded : ∀ i, s.Loaded (s.pcs i)
  reported : ∀ upgraded msg set, (ConnectionCall.error_cb upgraded msg, set) ∈ s.calls →
    s.was = some (owner upgraded)

theorem Loaded.advances {s s' : LiveConnection ι} {pc : ConnectionPc} (h : s.Loaded pc)
    (hadv : Advances s s') (hdue : Due pc → s.state = state_error) : s'.Loaded pc := by
  obtain ⟨hrank, hlast⟩ := hadv
  cases pc with
  | end_switch st => exact le_trans h hrank
  | end_exchange e upgraded st => exact ⟨h.1, h.2.trans hrank⟩
  | end_closed e => exact (hlast (hdue trivial)).trans h
  | error_cb upgraded msg => exact (hlast (hdue trivial)).trans h
  | _ => trivial

theorem fail_advances (s : LiveConnection ι) : Advances s s.fail := by
  refine ⟨?_, ?_⟩
  · show rank s.state ≤ 4
    cases s.state <;> decide
  · intro hstate
    show (if s.state = state_error then _ else _) = _
    rw [if_pos hstate]

theorem action_advances (s : LiveConnection ι) (ok : Bool) (pc : ConnectionPc) :
    Advances s (s.action ok pc).2 := by
  have hrefl : Advances s s := ⟨le_refl _, fun _ => rfl⟩
  cases pc with
  | start_state cbs =>
    simp only [action]
    split
    · next hstate =>
      refine ⟨?_, fun _ => rfl⟩
      show rank s.state ≤ rank state_started
      rw [hstate]
      decide
    · exact hrefl
  | start_transport =>
    simp only [action]
    split
    · exact ⟨le_refl _, fun _ => rfl⟩
    · exact hrefl
  | start_error => exact fail_advances s
  | upgrade_state cbs =>
    simp only [action]
    split
    · next hstate =>
      refine ⟨?_, fun _ => rfl⟩
      show rank s.state ≤ rank state_upgraded
      rw [hstate]
      decide
    · exact hrefl
  | end_load e =>
    cases e with
    | disconnected => exact hrefl
    | stopped => exact hrefl
  | end_exchange e upgraded st =>
    simp only [action]
    split
    · exact fail_advances s
    · exact hrefl
  | _ => exact ⟨le_refl _, fun _ => rfl⟩

/-- The cases of the switch, over a state that was loaded last. -/
theorem end_case_loaded {s : LiveConnection ι} {e : ConnectionEnd} {st : ConnectionState}
    (h : rank st ≤ rank s.state) : s.Loaded (end_case e st s.state) := by
  unfold end_case
  split
  · next hstate =>
    rw [hstate] at h
    refine ⟨h, ?_⟩
    rw [hstate]
    exact le_refl _
  · next hstate =>
    rw [hstate] at h
    refine ⟨h, ?_⟩
    rw [hstate]
    exact le_refl _
  · trivial

theorem frame_case_loaded (s : LiveConnection ι) (frame : Option UInt8) :
    s.Loaded (frame_case frame) ∧ ¬Due (frame_case frame) := by
  unfold frame_case
  split
  · split
    · exact ⟨trivial, nofun⟩
    · split
      · exact ⟨trivial, nofun⟩
      · exact ⟨trivial, nofun⟩
  · exact ⟨trivial, nofun⟩

/-- An exchange that succeeds replaces the state that the switch was about. -/
theorem exchange_owner {s : LiveConnection ι} {upgraded : Bool} {st : ConnectionState}
    (h : rank st ≤ rank (owner upgraded) ∧ rank (owner upgraded) ≤ rank s.state)
    (hstate : s.state = st) : s.state = owner upgraded := by
  have heq : rank s.state = rank (owner upgraded) := by
    rw [← hstate] at h
    omega
  revert heq
  cases s.state <;> cases upgraded <;> decide

/-- What the thread that takes the step has loaded, or has won. -/
theorem action_loaded {s : LiveConnection ι} {pc : ConnectionPc} (ok : Bool) (h : s.Loaded pc) :
    (s.action ok pc).2.Loaded (s.action ok pc).1 := by
  cases pc with
  | end_load e =>
    cases e with
    | disconnected => exact le_refl _
    | stopped => exact end_case_loaded (le_refl _)
  | end_switch st => exact end_case_loaded h
  | end_exchange e upgraded st =>
    simp only [action]
    by_cases hstate : s.state = st
    · have howner := exchange_owner h hstate
      have hwas : s.fail.was = some (owner upgraded) := by
        show (if s.state = state_error then _ else _) = _
        rw [howner, if_neg (by cases upgraded <;> decide)]
      simp only [if_pos hstate]
      cases upgraded with
      | true => exact hwas
      | false => exact hwas
    · simp only [if_neg hstate]
      trivial
  | end_closed e => exact h
  | read_frame frame => exact (frame_case_loaded s frame).1
  | read_load finished frame =>
    simp only [action]
    split <;> trivial
  | start_state cbs | upgrade_state cbs =>
    simp only [action]
    repeat' split
    all_goals trivial
  | start_transport | read_packet _ =>
    simp only [action]
    split <;> trivial
  | _ => trivial

/-- Where a thread goes to whom no `error_cb` is due. -/
theorem end_case_not_due (e : ConnectionEnd) (st st' : ConnectionState) :
    ¬Due (end_case e st st') := by
  unfold end_case
  split <;> exact nofun

/-- An `error_cb` becomes due by an exchange alone, and is invoked in one step. -/
theorem action_due (s : LiveConnection ι) (ok : Bool) (pc : ConnectionPc)
    (hexchange : ∀ e upgraded, pc ≠ .end_exchange e upgraded s.state)
    (herror : ∀ upgraded msg, pc ≠ .error_cb upgraded msg) :
    (Due (s.action ok pc).1 → Due pc) ∧ (s.action ok pc).2.calls.countP is_error =
      s.calls.countP is_error := by
  cases pc with
  | start_state cbs | upgrade_state cbs =>
    simp only [action]
    repeat' split
    all_goals exact ⟨nofun, rfl⟩
  | start_transport =>
    simp only [action]
    split
    · exact ⟨nofun, rfl⟩
    · exact ⟨nofun, rfl⟩
  | read_packet finished =>
    refine ⟨?_, rfl⟩
    simp only [action]
    split <;> exact nofun
  | read_load finished frame =>
    refine ⟨?_, rfl⟩
    simp only [action]
    split <;> exact nofun
  | packet_cb | frame_cb =>
    refine ⟨nofun, ?_⟩
    show (s.calls ++ [_]).countP is_error = _
    rw [List.countP_append]
    rfl
  | read_frame frame => exact ⟨fun h => absurd h (frame_case_loaded s frame).2, rfl⟩
  | end_load e =>
    cases e with
    | disconnected => exact ⟨nofun, rfl⟩
    | stopped => exact ⟨fun h => absurd h (end_case_not_due _ _ _), rfl⟩
  | end_switch st => exact ⟨fun h => absurd h (end_case_not_due _ _ _), rfl⟩
  | end_exchange e upgraded st =>
    have hne : s.state ≠ st := fun heq => hexchange e upgraded (by rw [heq])
    simp only [action, if_neg hne]
    exact ⟨nofun, trivial⟩
  | error_cb upgraded msg => exact absurd rfl (herror upgraded msg)
  | end_closed e => exact ⟨fun _ => trivial, rfl⟩
  | _ => exact ⟨nofun, rfl⟩

theorem new_reportInv : ReportInv (new : LiveConnection ι) := by
  refine ⟨?_, fun _ => trivial, fun _ _ _ => nofun⟩
  exact Once.start.keep (fun _ => id) id

variable [DecidableEq ι]

omit [DecidableEq ι] in
/-- Where an `error_cb` is due, or was invoked, the state is `state_error`. -/
theorem ReportInv.error_of_due {s : LiveConnection ι} (h : ReportInv s) {i : ι}
    (hdue : Due (s.pcs i)) : s.state = state_error :=
  (h.once.due_ended i hdue).2

omit [DecidableEq ι] in
theorem ReportInv.error_of_call {s : LiveConnection ι} (h : ReportInv s) {c : ConnectionCall × Bool}
    (hmem : c ∈ s.calls) (hc : is_error c = true) : s.state = state_error := by
  apply (h.once.made_ended _).2
  have hpos := List.countP_pos_iff.mpr ⟨c, hmem, hc⟩
  omega

/-- The error that is reported stays the one that it was. -/
theorem ReportInv.goto {s s' : LiveConnection ι} {i : ι} {pc : ConnectionPc} (h : ReportInv s)
    (hpcs : s'.pcs = s.pcs) (hadv : Advances s s') (hloaded : s'.Loaded pc)
    (honce : Once (fun j => Due ((s'.goto i pc).pcs j)) (s'.calls.countP is_error)
      (s'.state = state_error))
    (hcalls : ∀ upgraded msg set, (ConnectionCall.error_cb upgraded msg, set) ∈ s'.calls →
      (ConnectionCall.error_cb upgraded msg, set) ∈ s.calls ∨ s'.was = some (owner upgraded)) :
    ReportInv (s'.goto i pc) := by
  refine ⟨honce, ?_, ?_⟩
  · intro j
    have hpc : (s'.goto i pc).pcs j = if j = i then pc else s.pcs j := by
      show Function.update s'.pcs i pc j = _
      rw [hpcs, Function.update_apply]
    have hloaded' : s'.Loaded ((s'.goto i pc).pcs j) := by
      rw [hpc]
      split
      · exact hloaded
      · exact (h.loaded j).advances hadv h.error_of_due
    cases hj : (s'.goto i pc).pcs j with
    | _ =>
      rw [hj] at hloaded'
      exact hloaded'
  · intro upgraded msg set hmem
    rcases hcalls upgraded msg set hmem with hold | hnew
    · exact (hadv.last (h.error_of_call hold rfl)).trans (h.reported _ _ _ hold)
    · exact hnew

omit [DecidableEq ι] in
/-- The calls of a step. -/
theorem action_calls (s : LiveConnection ι) (ok : Bool) (pc : ConnectionPc) (upgraded : Bool)
    (msg : String) (set : Bool)
    (hmem : (ConnectionCall.error_cb upgraded msg, set) ∈ (s.action ok pc).2.calls) :
    (ConnectionCall.error_cb upgraded msg, set) ∈ s.calls ∨ pc = .error_cb upgraded msg := by
  cases pc with
  | start_state _ | upgrade_state _ | start_transport | end_exchange _ _ _ =>
    simp only [action] at hmem
    split at hmem
    · exact .inl hmem
    · exact .inl hmem
  | packet_cb | frame_cb =>
    rcases List.mem_append.mp hmem with hmem | hmem
    · exact .inl hmem
    · cases List.mem_singleton.mp hmem
  | error_cb upgraded' msg' =>
    rcases List.mem_append.mp hmem with hmem | hmem
    · exact .inl hmem
    · cases List.mem_singleton.mp hmem
      exact .inr rfl
  | end_load e =>
    cases e with
    | disconnected => exact .inl hmem
    | stopped => exact .inl hmem
  | _ => exact .inl hmem

omit [DecidableEq ι] in
theorem action_pcs (s : LiveConnection ι) (ok : Bool) (pc : ConnectionPc) :
    (s.action ok pc).2.pcs = s.pcs := by
  cases pc with
  | start_state _ | upgrade_state _ | start_transport | end_exchange _ _ _ =>
    simp only [action]
    split <;> rfl
  | end_load e => cases e <;> rfl
  | _ => rfl

/-- Where the others are due what they were due. -/
theorem due_goto {s s' : LiveConnection ι} {i : ι} {pc : ConnectionPc} (hpcs : s'.pcs = s.pcs)
    (hdue : Due pc → Due (s.pcs i)) (j : ι) (hj : Due ((s'.goto i pc).pcs j)) : Due (s.pcs j) := by
  have hpc : (s'.goto i pc).pcs j = if j = i then pc else s.pcs j := by
    show Function.update s'.pcs i pc j = _
    rw [hpcs, Function.update_apply]
  rw [hpc] at hj
  split at hj
  · next heq =>
    rw [heq]
    exact hdue hj
  · exact hj

theorem enter_reportInv {s s' : LiveConnection ι} {i : ι} {pc : ConnectionPc}
    (hs : s.enter i pc = some s') (h : ReportInv s) (hpc : s.Loaded pc ∧ ¬Due pc) :
    ReportInv s' := by
  unfold enter at hs
  split at hs
  · cases hs
    apply h.goto rfl ⟨le_refl _, fun _ => rfl⟩ hpc.1
    · exact h.once.keep (due_goto rfl fun hd => absurd hd hpc.2) id
    · exact fun _ _ _ hmem => .inl hmem
  · cases hs

theorem action_reportInv {s : LiveConnection ι} (h : ReportInv s) (i : ι) (ok : Bool) :
    ReportInv ((s.action ok (s.pcs i)).2.goto i (s.action ok (s.pcs i)).1) := by
  have hpcs := action_pcs s ok (s.pcs i)
  have hadv := action_advances s ok (s.pcs i)
  have hloaded := action_loaded ok (h.loaded i)
  apply h.goto hpcs hadv hloaded
  · by_cases hexchange : ∃ e upgraded, s.pcs i = .end_exchange e upgraded s.state
    · -- the thread wins the report
      obtain ⟨e, upgraded, hpc⟩ := hexchange
      have hold := h.loaded i
      rw [hpc] at hold hpcs ⊢
      have howner := exchange_owner hold rfl
      have hcalls : (s.action ok (.end_exchange e upgraded s.state)).2.calls = s.calls := by
        simp only [action, if_true]
        rfl
      rw [hcalls]
      apply h.once.win (i := i)
      · rw [howner]
        cases upgraded <;> decide
      · simp only [action, if_true]
        rfl
      · intro j hj hdue
        have hpc' : Due (Function.update (s.action ok (.end_exchange e upgraded s.state)).2.pcs i
          (s.action ok (.end_exchange e upgraded s.state)).1 j) := hdue
        rw [Function.update_of_ne hj, hpcs] at hpc'
        exact hpc'
    · by_cases herror : ∃ upgraded msg, s.pcs i = .error_cb upgraded msg
      · -- the report is made
        obtain ⟨upgraded, msg, hpc⟩ := herror
        have hcount : (s.invoke (.error_cb upgraded msg)).calls.countP is_error =
            s.calls.countP is_error + 1 := by
          show (s.calls ++ [_]).countP is_error = _
          rw [List.countP_append]
          rfl
        rw [hpc]
        show Once _ ((s.invoke (.error_cb upgraded msg)).calls.countP is_error) _
        rw [hcount]
        apply h.once.call (i := i)
        · rw [hpc]
          trivial
        · show ¬Due (Function.update s.pcs i .idle i)
          rw [Function.update_self]
          exact nofun
        · intro j hj hdue
          have hpc' : Due (Function.update s.pcs i .idle j) := hdue
          rw [Function.update_of_ne hj] at hpc'
          exact hpc'
      · obtain ⟨hdue, hcount⟩ := action_due s ok (s.pcs i)
          (fun e upgraded heq => hexchange ⟨e, upgraded, heq⟩)
          (fun upgraded msg heq => herror ⟨upgraded, msg, heq⟩)
        rw [hcount]
        apply h.once.keep (due_goto hpcs hdue)
        intro hstate
        have hrank := hadv.rank
        rw [hstate] at hrank
        revert hrank
        cases (s.action ok (s.pcs i)).2.state <;> decide
  · intro upgraded msg set hmem
    rcases action_calls s ok (s.pcs i) upgraded msg set hmem with hold | hpc
    · exact .inl hold
    · right
      have hold := h.loaded i
      rw [hpc] at hold ⊢
      exact hold

/-- **Step lemma.** -/
theorem step_reportInv {s s' : LiveConnection ι} {l : ConnectionLabel ι} (h : ReportInv s)
    (hs : s.step l = some s') : ReportInv s' := by
  cases l with
  | start_http i sv transp cbs =>
    simp only [step] at hs
    split at hs
    · exact enter_reportInv hs h ⟨trivial, nofun⟩
    · exact enter_reportInv hs h ⟨trivial, nofun⟩
  | start_websocket i cbs =>
    simp only [step] at hs
    exact enter_reportInv hs h ⟨trivial, nofun⟩
  | on_read i finished frame =>
    simp only [step] at hs
    split at hs
    · exact enter_reportInv hs h ⟨trivial, nofun⟩
    · cases hs
  | on_disconnected i | on_stopped i =>
    simp only [step] at hs
    split at hs
    · exact enter_reportInv hs h ⟨trivial, nofun⟩
    · cases hs
  | step i ok =>
    cases hs
    exact action_reportInv h i ok

/-- **One error report**: over all the runs of any threads, `error_cb` is
    invoked at most once, and it is the one of the HTTP callbacks where the
    connection was not upgraded when its state became `state_error`. -/
theorem reports_once {s : LiveConnection ι} (h : Reachable step AnyStep new s) :
    s.calls.countP is_error ≤ 1 ∧ ∀ upgraded msg set,
      (ConnectionCall.error_cb upgraded msg, set) ∈ s.calls →
        (upgraded = false ↔ s.was ≠ some state_upgraded) := by
  have hinv : ReportInv s :=
    h.invariant new_reportInv fun _ _ _ hinv _ hs => step_reportInv hinv hs
  refine ⟨hinv.once.le_one, ?_⟩
  intro upgraded msg set hmem
  rw [hinv.reported upgraded msg set hmem]
  cases upgraded with
  | true => simp [owner]
  | false => simp [owner]

/-- The connection is upgraded, and the transport is disconnected between the
    two loads of the state. -/
def upgraded_labels : List (ConnectionLabel Nat) :=
  ConnectionLabel.start_http 0 true true ⟨true, true⟩ :: List.replicate 3 (.step 0 true) ++
    [ConnectionLabel.on_disconnected 1, .step 1 true, .start_websocket 0 ⟨true, true⟩, .step 0 true,
      .step 0 true] ++ List.replicate 7 (ConnectionLabel.step 1 true)

theorem reports_once_upgraded :
    ∃ s : LiveConnection Nat, s.calls = [(.error_cb true "disconnected", true)] ∧
      s.calls.countP is_error ≤ 1 ∧ ∀ upgraded msg set,
        (ConnectionCall.error_cb upgraded msg, set) ∈ s.calls →
          (upgraded = false ↔ s.was ≠ some state_upgraded) := by
  have hexec : (exec step new upgraded_labels).map calls =
      some [(.error_cb true "disconnected", true)] := by decide
  obtain ⟨s, hs, heq⟩ := Option.map_eq_some_iff.mp hexec
  exact ⟨s, heq, reports_once (Reachable.of_exec hs (meets_anyStep _ _ _))⟩

/-! ## Section 3: The callbacks that are invoked are set -/

/-- The thread is about to set the websocket callbacks. -/
def upgrading : ConnectionPc → Bool
  | .upgrade_assign _ => true
  | _ => false

/-- The websocket callbacks are about to be set. -/
def Window (s : LiveConnection ι) : Prop := ∃ i, upgrading (s.pcs i) = true

/-- The websocket callbacks are set, or about to be. -/
def Ready (s : LiveConnection ι) : Prop := s.ws_cbs.valid = true ∨ s.Window

/-- What a thread relies on: the HTTP callbacks are set before the transport
    is started, the others before one of them is due. -/
def Armed (s : LiveConnection ι) : ConnectionPc → Prop
  | .start_state cbs | .start_assign cbs => cbs.valid = true
  | .start_transport => s.http_cbs.valid = true
  | .upgrade_assign cbs => cbs.valid = true
  | .read_load _ _ | .read_packet _ | .packet_cb | .end_load _ | .end_switch _
  | .end_exchange _ _ _ | .error_cb false _ => s.live = true
  | .read_frame _ => s.Ready
  | .frame_cb | .end_closed _ | .error_cb true _ => s.ws_cbs.valid = true
  | _ => True

structure CallbacksInv (s : LiveConnection ι) : Prop where
  armed : ∀ i, s.Armed (s.pcs i)
  live : s.live = true → s.http_cbs.valid = true
  upgraded : s.state = state_upgraded → s.Ready
  calls : ∀ c ∈ s.calls, c.2 = true

/-- The next step of a thread at `pc` uses the websocket callbacks before they
    are set: they are refused when the state is `state_upgraded` already, or
    one of them becomes due while `start_websocket` is about to set them. -/
def HastyAt (s : LiveConnection ι) : ConnectionPc → Prop
  | .upgrade_state cbs => s.state = state_started ∧ cbs.valid = false
  | .end_exchange _ upgraded st => upgraded = true ∧ s.state = st ∧ s.Window
  | .read_frame frame => frame_case frame = .frame_cb ∧ s.Window
  | _ => False

def Hasty (s : LiveConnection ι) : ConnectionLabel ι → Prop
  | .step i _ => s.HastyAt (s.pcs i)
  | _ => False

omit [DecidableEq ι] in
instance [Fintype ι] (s : LiveConnection ι) : DecidablePred s.HastyAt := fun pc => by
  cases pc <;> unfold HastyAt Window <;> infer_instance

omit [DecidableEq ι] in
instance [Fintype ι] (s : LiveConnection ι) : DecidablePred s.Hasty := fun l => by
  cases l <;> unfold Hasty <;> infer_instance

/-- What a step takes from nobody. -/
structure Keeps (s s' : LiveConnection ι) : Prop where
  http : s.http_cbs.valid = true → s'.http_cbs.valid = true
  live : s.live = true → s'.live = true
  ws : s.ws_cbs.valid = true → s'.ws_cbs.valid = true
  ready : s.Ready → s'.Ready

omit [DecidableEq ι] in
theorem Armed.keeps {s s' : LiveConnection ι} {pc : ConnectionPc} (h : s.Armed pc)
    (hkeeps : Keeps s s') : s'.Armed pc := by
  obtain ⟨hhttp, hlive, hws, hready⟩ := hkeeps
  cases pc with
  | start_transport => exact hhttp h
  | read_frame frame => exact hready h
  | frame_cb | end_closed _ => exact hws h
  | error_cb upgraded msg =>
    cases upgraded with
    | true => exact hws h
    | false => exact hlive h
  | read_load _ _ | read_packet _ | packet_cb | end_load _ | end_switch _ | end_exchange _ _ _ =>
    exact hlive h
  | _ => exact h

omit [DecidableEq ι] in
theorem new_callbacksInv : CallbacksInv (new : LiveConnection ι) :=
  ⟨fun _ => trivial, nofun, nofun, fun _ => nofun⟩

omit [DecidableEq ι] in
/-- A callback that is set is recorded so. -/
theorem invoke_set {s : LiveConnection ι} {c : ConnectionCall} (h : CallbacksInv s)
    (hc : invoke.is_set s c = true) : ∀ c' ∈ (s.invoke c).calls, c'.2 = true := by
  intro c' hmem
  rcases List.mem_append.mp hmem with hmem | hmem
  · exact h.calls c' hmem
  · cases List.mem_singleton.mp hmem
    exact hc

/-- Thread `i` goes on at `pc`, and the others have what they had. -/
theorem CallbacksInv.goto {s s' : LiveConnection ι} {i : ι} {pc : ConnectionPc}
    (h : CallbacksInv s) (hpcs : s'.pcs = s.pcs) (hkeeps : Keeps s (s'.goto i pc))
    (hpc : (s'.goto i pc).Armed pc) (hlive : s'.live = true → s'.http_cbs.valid = true)
    (hupgraded : s'.state = state_upgraded → s.state = state_upgraded ∨ (s'.goto i pc).Ready)
    (hcalls : ∀ c ∈ s'.calls, c.2 = true) : CallbacksInv (s'.goto i pc) := by
  refine ⟨?_, hlive, ?_, hcalls⟩
  · intro j
    have hj : (s'.goto i pc).pcs j = if j = i then pc else s.pcs j := by
      show Function.update s'.pcs i pc j = _
      rw [hpcs, Function.update_apply]
    rw [hj]
    split
    · exact hpc
    · exact (h.armed j).keeps hkeeps
  · intro hstate
    rcases hupgraded hstate with hold | hready
    · exact hkeeps.ready (h.upgraded hold)
    · exact hready

/-- A step of a thread that does not set callbacks. -/
theorem keeps_aside {s s' : LiveConnection ι} {i : ι} {pc : ConnectionPc} (hpcs : s'.pcs = s.pcs)
    (hhttp : s'.http_cbs = s.http_cbs) (hws : s'.ws_cbs = s.ws_cbs)
    (hlive : s.live = true → s'.live = true) (hi : upgrading (s.pcs i) = false) :
    Keeps s (s'.goto i pc) := by
  have hws' : (s'.goto i pc).ws_cbs = s.ws_cbs := hws
  refine ⟨?_, hlive, ?_, ?_⟩
  · show _ → s'.http_cbs.valid = true
    rw [hhttp]
    exact id
  · rw [hws']
    exact id
  · rintro (hvalid | ⟨j, hj⟩)
    · left
      rw [hws']
      exact hvalid
    · -- the thread that is about to set them is another one
      have hne : j ≠ i := by
        intro heq
        rw [heq, hi] at hj
        cases hj
      refine .inr ⟨j, ?_⟩
      show upgrading (Function.update s'.pcs i pc j) = true
      rw [Function.update_of_ne hne, hpcs]
      exact hj

/-- A step of a thread that leaves the connection as it is. -/
theorem CallbacksInv.stay {s : LiveConnection ι} {i : ι} {pc : ConnectionPc} (h : CallbacksInv s)
    (hi : upgrading (s.pcs i) = false) (hpc : s.Armed pc) :
    CallbacksInv (s.goto i pc) := by
  have hkeeps : Keeps s (s.goto i pc) := keeps_aside rfl rfl rfl id hi
  exact h.goto rfl hkeeps (hpc.keeps hkeeps) h.live .inl h.calls

omit [DecidableEq ι] in
/-- The cases of the switch need a transport that was started. -/
theorem end_case_armed {s : LiveConnection ι} {e : ConnectionEnd} {st st' : ConnectionState}
    (hlive : s.live = true) : s.Armed (end_case e st st') := by
  unfold end_case
  split
  · exact hlive
  · exact hlive
  · trivial

theorem action_callbacksInv {s : LiveConnection ι} (h : CallbacksInv s) (i : ι) (ok : Bool)
    (hloaded : s.Loaded (s.pcs i)) (hok : ¬s.Hasty (.step i ok)) :
    CallbacksInv ((s.action ok (s.pcs i)).2.goto i (s.action ok (s.pcs i)).1) := by
  have harmed := h.armed i
  cases hpc : s.pcs i with
  | idle => exact h.stay (by simp [hpc, upgrading]) trivial
  | start_state cbs =>
    rw [hpc] at harmed
    simp only [action]
    split
    · have hkeeps : Keeps s (({ s with state := state_started } : LiveConnection ι).goto i
          (.start_assign cbs)) := keeps_aside rfl rfl rfl id (by simp [hpc, upgrading])
      exact h.goto rfl hkeeps harmed h.live nofun h.calls
    · exact h.stay (by simp [hpc, upgrading]) trivial
  | start_assign cbs =>
    rw [hpc] at harmed
    have hkeeps : Keeps s (s.goto i .start_transport) :=
      keeps_aside rfl rfl rfl id (by simp [hpc, upgrading])
    exact h.goto rfl ⟨fun _ => harmed, id, id, hkeeps.ready⟩ harmed (fun _ => harmed) .inl h.calls
  | start_transport =>
    rw [hpc] at harmed
    simp only [action]
    split
    · have hkeeps : Keeps s (({ s with live := true } : LiveConnection ι).goto i .idle) :=
        keeps_aside rfl rfl rfl (fun _ => rfl) (by simp [hpc, upgrading])
      exact h.goto rfl hkeeps trivial (fun _ => harmed) .inl h.calls
    · exact h.stay (by simp [hpc, upgrading]) trivial
  | start_error =>
    have hkeeps : Keeps s (s.fail.goto i .idle) := keeps_aside rfl rfl rfl id (by simp [hpc, upgrading])
    exact h.goto rfl hkeeps trivial h.live nofun h.calls
  | upgrade_state cbs =>
    simp only [action]
    split
    · next hstate =>
      -- the callbacks are valid, so they are set in the next step
      have hvalid : cbs.valid = true := by
        by_contra hne
        apply hok
        simp only [Hasty, HastyAt, hpc]
        exact ⟨hstate, by simpa using hne⟩
      simp only [if_pos hvalid]
      have hkeeps : Keeps s (({ s with state := state_upgraded } : LiveConnection ι).goto i
          (.upgrade_assign cbs)) := keeps_aside rfl rfl rfl id (by simp [hpc, upgrading])
      refine h.goto rfl hkeeps hvalid h.live (fun _ => .inr (.inr ⟨i, ?_⟩)) h.calls
      show upgrading (Function.update s.pcs i (.upgrade_assign cbs) i) = true
      rw [Function.update_self]
      rfl
    · exact h.stay (by simp [hpc, upgrading]) trivial
  | upgrade_assign cbs =>
    rw [hpc] at harmed
    exact h.goto rfl ⟨id, id, fun _ => harmed, fun _ => .inl harmed⟩ trivial h.live .inl h.calls
  | read_load finished frame =>
    rw [hpc] at harmed
    simp only [action]
    split
    · exact h.stay (by simp [hpc, upgrading]) harmed
    · next hstate => exact h.stay (by simp [hpc, upgrading]) (h.upgraded hstate)
    · exact h.stay (by simp [hpc, upgrading]) trivial
  | read_packet finished =>
    rw [hpc] at harmed
    simp only [action]
    split
    · exact h.stay (by simp [hpc, upgrading]) harmed
    · exact h.stay (by simp [hpc, upgrading]) trivial
  | packet_cb =>
    rw [hpc] at harmed
    have hvalid := h.live harmed
    have hkeeps : Keeps s ((s.invoke .packet_cb).goto i .idle) :=
      keeps_aside rfl rfl rfl id (by simp [hpc, upgrading])
    rw [HttpCallbacks.valid, Bool.and_eq_true] at hvalid
    exact h.goto rfl hkeeps trivial h.live .inl (invoke_set h hvalid.1)
  | read_frame frame =>
    rw [hpc] at harmed
    have hstay : ∀ pc, s.Armed pc → CallbacksInv (s.goto i pc) := fun pc => h.stay (by simp [hpc, upgrading])
    apply hstay
    show s.Armed (frame_case frame)
    unfold frame_case
    split
    · split
      · next hcode =>
        -- no thread is about to set the callbacks, so they are set
        rcases harmed with hvalid | hwindow
        · exact hvalid
        · refine absurd ?_ hok
          simp only [Hasty, HastyAt, hpc, frame_case, if_pos hcode]
          exact ⟨trivial, hwindow⟩
      · split
        · trivial
        · trivial
    · trivial
  | frame_cb =>
    rw [hpc] at harmed
    have hvalid : s.ws_cbs.valid = true := harmed
    have hkeeps : Keeps s ((s.invoke .frame_cb).goto i .idle) :=
      keeps_aside rfl rfl rfl id (by simp [hpc, upgrading])
    rw [WebsocketCallbacks.valid, Bool.and_eq_true] at hvalid
    exact h.goto rfl hkeeps trivial h.live .inl (invoke_set h hvalid.1)
  | close_frame =>
    have hkeeps : Keeps s (({ s with ws_closed := true } : LiveConnection ι).goto i .idle) :=
      keeps_aside rfl rfl rfl id (by simp [hpc, upgrading])
    exact h.goto rfl hkeeps trivial h.live .inl h.calls
  | end_load e =>
    rw [hpc] at harmed
    cases e with
    | disconnected => exact h.stay (by simp [hpc, upgrading]) harmed
    | stopped => exact h.stay (by simp [hpc, upgrading]) (end_case_armed harmed)
  | end_switch st =>
    rw [hpc] at harmed
    exact h.stay (by simp [hpc, upgrading]) (end_case_armed harmed)
  | end_exchange e upgraded st =>
    rw [hpc] at harmed hloaded
    simp only [action]
    by_cases hstate : s.state = st
    · simp only [if_pos hstate]
      have hkeeps : ∀ pc, Keeps s (s.fail.goto i pc) :=
        fun pc => keeps_aside rfl rfl rfl id (by simp [hpc, upgrading])
      cases upgraded with
      | true =>
        -- the connection was upgraded, and no thread is about to set the callbacks
        have hvalid : s.ws_cbs.valid = true := by
          rcases h.upgraded (exchange_owner hloaded hstate) with hvalid | hwindow
          · exact hvalid
          · refine absurd ?_ hok
            simp only [Hasty, HastyAt, hpc]
            exact ⟨trivial, hstate, hwindow⟩
        exact h.goto rfl (hkeeps _) hvalid h.live nofun h.calls
      | false => exact h.goto rfl (hkeeps _) harmed h.live nofun h.calls
    · simp only [if_neg hstate]
      exact h.stay (by simp [hpc, upgrading]) harmed
  | end_closed e =>
    rw [hpc] at harmed
    have hkeeps : Keeps s (({ s with ws_closed := true } : LiveConnection ι).goto i
        (.error_cb true (if s.ws_closed then "closed" else e.text))) :=
      keeps_aside rfl rfl rfl id (by simp [hpc, upgrading])
    exact h.goto rfl hkeeps harmed h.live .inl h.calls
  | error_cb upgraded msg =>
    rw [hpc] at harmed
    have hkeeps : Keeps s ((s.invoke (.error_cb upgraded msg)).goto i .idle) :=
      keeps_aside rfl rfl rfl id (by simp [hpc, upgrading])
    refine h.goto rfl hkeeps trivial h.live .inl (invoke_set h ?_)
    cases upgraded with
    | true =>
      have hvalid : s.ws_cbs.valid = true := harmed
      rw [WebsocketCallbacks.valid, Bool.and_eq_true] at hvalid
      exact hvalid.2
    | false =>
      have hvalid := h.live harmed
      rw [HttpCallbacks.valid, Bool.and_eq_true] at hvalid
      exact hvalid.2

theorem enter_callbacksInv {s s' : LiveConnection ι} {i : ι} {pc : ConnectionPc}
    (hs : s.enter i pc = some s') (h : CallbacksInv s) (hpc : s.Armed pc) : CallbacksInv s' := by
  unfold enter at hs
  split at hs
  · next hidle =>
    cases hs
    exact h.stay (by simp [hidle, upgrading]) hpc
  · cases hs

/-- **Step lemma.** -/
theorem step_callbacksInv {s s' : LiveConnection ι} {l : ConnectionLabel ι} (h : CallbacksInv s)
    (hloaded : ∀ i, s.Loaded (s.pcs i)) (hok : ¬s.Hasty l) (hs : s.step l = some s') :
    CallbacksInv s' := by
  cases l with
  | start_http i sv transp cbs =>
    simp only [step] at hs
    split at hs
    · next hchecks =>
      simp only [Bool.and_eq_true] at hchecks
      exact enter_callbacksInv hs h hchecks.1.2
    · exact enter_callbacksInv hs h trivial
  | start_websocket i cbs =>
    simp only [step] at hs
    exact enter_callbacksInv hs h trivial
  | on_read i finished frame =>
    simp only [step] at hs
    split at hs
    · next hlive => exact enter_callbacksInv hs h hlive
    · cases hs
  | on_disconnected i | on_stopped i =>
    simp only [step] at hs
    split at hs
    · next hlive => exact enter_callbacksInv hs h hlive
    · cases hs
  | step i ok =>
    cases hs
    exact action_callbacksInv h i ok (hloaded i) hok

/-- **Callbacks are set before they are invoked**, in every run of any threads
    without a hasty step. -/
theorem invoked_set {s : LiveConnection ι} (h : Reachable step (fun s l => ¬s.Hasty l) new s) :
    ∀ c ∈ s.calls, c.2 = true := by
  have hinv : ReportInv s ∧ CallbacksInv s := by
    apply h.invariant (I := fun s => ReportInv s ∧ CallbacksInv s)
    · exact ⟨new_reportInv, new_callbacksInv⟩
    · intro _ _ _ hinv hok hs
      exact ⟨step_reportInv hinv.1 hs, step_callbacksInv hinv.2 hinv.1.loaded hok hs⟩
  exact hinv.2.calls

/-- Where a connection is upgraded, a frame is read and it is stopped. -/
def served_labels : List (ConnectionLabel Bool) :=
  ConnectionLabel.start_http false true true ⟨true, true⟩ :: List.replicate 3 (.step false true) ++
    [ConnectionLabel.start_websocket false ⟨true, true⟩, .step false true, .step false true,
      .on_read true true (some wscode_text)] ++ List.replicate 3 (ConnectionLabel.step true true) ++
    ConnectionLabel.on_stopped true :: List.replicate 4 (.step true true)

theorem invoked_set_served :
    ∃ s : LiveConnection Bool, s.calls.length = 2 ∧ ∀ c ∈ s.calls, c.2 = true := by
  have hexec : (exec step new served_labels).map (fun s => s.calls.length) = some 2 := by
    decide
  obtain ⟨s, hs, heq⟩ := Option.map_eq_some_iff.mp hexec
  exact ⟨s, heq, invoked_set (Reachable.of_exec hs (by decide))⟩

/-- The transport is disconnected while `start_websocket` is about to set the
    callbacks. -/
def hasty_labels : List (ConnectionLabel Bool) :=
  ConnectionLabel.start_http false true true ⟨true, true⟩ :: List.replicate 3 (.step false true) ++
    [ConnectionLabel.start_websocket false ⟨true, true⟩, .step false true, .on_disconnected true] ++
    List.replicate 5 (ConnectionLabel.step true true)

theorem not_invoked_set :
    ∃ s : LiveConnection Bool, Reachable step AnyStep new s ∧
      s.calls = [(.error_cb true "disconnected", false)] := by
  have hexec : (exec step new hasty_labels).map calls =
      some [(.error_cb true "disconnected", false)] := by decide
  obtain ⟨s, hs, heq⟩ := Option.map_eq_some_iff.mp hexec
  exact ⟨s, Reachable.of_exec hs (meets_anyStep _ _ _), heq⟩

end LiveConnection

end Pump
