import Pump.Lts
import Pump.Transport.Types

/-! # tcp_acceptor and tls_acceptor

    `transport/tcp_acceptor.cpp`, `transport/tls_acceptor.cpp` and
    `transport/base_acceptor.cpp`. The read poller accepts. A TCP acceptor
    calls back there; a TLS acceptor starts a handshaker, which calls back on
    the send poller, as all its events are of that poller. The send poller
    also takes the channel event that `stop` posts.

    A step is one access to what the threads share, where the section under
    the lock of the handshakers is one. What a handshaker does before it calls
    back is left open, so stopping one is no step of its own. The outcome of an
    operation on the system is part of the label. -/

namespace Pump

open TransportState ErrorCode

/-! ## Section 1: Model -/

inductive AcceptorKind where
  | tcp
  | tls
  deriving DecidableEq, Repr

/-- A call of one of the `acceptor_callbacks`. -/
inductive AcceptorCall where
  | accepted_cb
  | stopped_cb
  deriving DecidableEq, Repr

/-- Where a thread of the user is. -/
inductive AcceptorPc where
  | idle
  -- start
  | start_state
  | start_open_flow
  | start_install
  | start_started
  | start_error
  | start_close
  | start_return (ec : ErrorCode)
  -- stop
  | stop_state
  | stop_close
  | stop_handshakers
  | stop_post
  deriving DecidableEq, Repr

/-- Where the read poller is, in `on_read_event`. -/
inductive AcceptorReadPc where
  | idle
  | wait
  | accept
  | create_transport
  | accepted_cb
  | create_handshaker
  | init_handshaker (h : Nat)
  | start_handshaker (h : Nat)
  | remove_handshaker (h : Nat)
  | start_tracker
  deriving DecidableEq, Repr

/-- Where the send poller is. -/
inductive AcceptorSendPc where
  | idle
  -- on_channel_event
  | interrupt
  | stopped_cb
  -- on_handshaked
  | handshaked (h : Nat) (success : Bool)
  | check_started
  | create_transport
  | accepted_cb
  -- on_handshake_stopped
  | handshake_stopped (h : Nat)
  deriving DecidableEq, Repr

/-- An acceptor, the pollers and the threads `ι`. `flow` and `tracker` are
    whether the flow is open and the tracker waits for an event, `created` is
    how many handshakers were created. The last two fields are a record of the
    run. -/
structure Acceptor (ι : Type) where
  state : TransportState
  flow : Bool
  tracker : Bool
  posted : Nat
  handshakers : List Nat
  created : Nat
  pcs : ι → AcceptorPc
  reader : AcceptorReadPc
  sender : AcceptorSendPc
  result : Option ErrorCode
  calls : List AcceptorCall

inductive AcceptorLabel (ι : Type) where
  /-- A call of `start`; the flags are the checks of its parameters. -/
  | start (i : ι) (sv cbs xcred : Bool)
  | stop (i : ι)
  /-- The next step of a thread. -/
  | step (i : ι) (ok : Bool)
  /-- The read poller reports the socket, and goes on. -/
  | read_event
  | read_step (ok : Bool)
  /-- The send poller takes the posted channel event. -/
  | channel_event
  /-- A handshaker calls back, on the send poller. -/
  | handshaked (h : Nat) (success : Bool)
  | handshake_stopped (h : Nat)
  | send_step (ok : Bool)

namespace Acceptor

variable {ι : Type}

/-- A new acceptor. -/
def new : Acceptor ι :=
  { state := state_none
    flow := false
    tracker := false
    posted := 0
    handshakers := []
    created := 0
    pcs := fun _ => .idle
    reader := .idle
    sender := .idle
    result := none
    calls := [] }

/-- `__set_state`. -/
def set_state (s : Acceptor ι) (expected desired : TransportState) : Bool × Acceptor ι :=
  if s.state = expected then (true, { s with state := desired }) else (false, s)

/-- The next step of a thread: where it goes and what it does to the rest. -/
def action (k : AcceptorKind) (s : Acceptor ι) (ok : Bool) : AcceptorPc → AcceptorPc × Acceptor ι
  | .idle => (.idle, s)
  | .start_state =>
    let r := s.set_state state_none state_starting
    (if r.1 then .start_open_flow else .start_return error_fault, r.2)
  | .start_open_flow => (if ok then .start_install else .start_error, { s with flow := ok })
  | .start_install => (if ok then .start_started else .start_error, { s with tracker := ok })
  | .start_started =>
    let r := s.set_state state_starting state_started
    (if r.1 then .start_return error_none else .start_error, r.2)
  | .start_error => (.start_close, (s.set_state state_starting state_error).2)
  | .start_close => (.start_return error_fault, { s with flow := false })
  | .start_return ec => (.idle, { s with result := some ec })
  | .stop_state =>
    let r := s.set_state state_started state_stopping
    (if r.1 then .stop_close else .idle, r.2)
  | .stop_close =>
    (match k with
      | .tcp => .stop_post
      | .tls => .stop_handshakers, { s with flow := false })
  | .stop_handshakers => (.stop_post, { s with handshakers := [] })
  | .stop_post => (.idle, if ok then { s with posted := s.posted + 1 } else s)

/-- `__remove_handshaker`. -/
def remove_handshaker (s : Acceptor ι) (h : Nat) : Bool × Acceptor ι :=
  (s.handshakers.contains h, { s with handshakers := s.handshakers.erase h })

/-- The next step of `on_read_event`. -/
def read_action (k : AcceptorKind) (s : Acceptor ι) (ok : Bool) :
    AcceptorReadPc → AcceptorReadPc × Acceptor ι
  | .idle => (.idle, s)
  | .wait => (if s.state = state_starting then .wait else .accept, s)
  | .accept =>
    (if s.flow && ok then
        match k with
        | .tcp => .create_transport
        | .tls => .create_handshaker
      else .start_tracker, s)
  | .create_transport => (if ok then .accepted_cb else .start_tracker, s)
  | .accepted_cb => (.start_tracker, { s with calls := s.calls ++ [.accepted_cb] })
  | .create_handshaker =>
    if ok then
      (.init_handshaker s.created,
        { s with handshakers := s.handshakers ++ [s.created], created := s.created + 1 })
    else (.start_tracker, s)
  | .init_handshaker h => (if ok then .start_handshaker h else .remove_handshaker h, s)
  | .start_handshaker h => (if ok then .start_tracker else .remove_handshaker h, s)
  | .remove_handshaker h => (.start_tracker, (s.remove_handshaker h).2)
  -- whether the acceptor is started only bears on what is logged
  | .start_tracker => (.idle, { s with tracker := ok })

/-- The next step of the send poller. -/
def send_action (s : Acceptor ι) (ok : Bool) : AcceptorSendPc → AcceptorSendPc × Acceptor ι
  | .idle => (.idle, s)
  | .interrupt =>
    let r := s.set_state state_stopping state_stopped
    (if r.1 then .stopped_cb else .idle, r.2)
  | .stopped_cb => (.idle, { s with calls := s.calls ++ [.stopped_cb] })
  | .handshaked h success =>
    let r := s.remove_handshaker h
    (if r.1 && success then .check_started else .idle, r.2)
  | .check_started => (if s.state = state_started then .create_transport else .idle, s)
  | .create_transport => (if ok then .accepted_cb else .idle, s)
  | .accepted_cb => (.idle, { s with calls := s.calls ++ [.accepted_cb] })
  | .handshake_stopped h => (.idle, (s.remove_handshaker h).2)

/-- The send poller begins with an event. -/
def send_enter (s : Acceptor ι) (pc : AcceptorSendPc) : Option (Acceptor ι) :=
  if s.sender = .idle then some { s with sender := pc } else none

section

variable [DecidableEq ι]

/-- Thread `i` goes to `pc`. -/
def goto (s : Acceptor ι) (i : ι) (pc : AcceptorPc) : Acceptor ι :=
  { s with pcs := Function.update s.pcs i pc }

/-- A function of the acceptor is entered by an idle thread. -/
def enter (s : Acceptor ι) (i : ι) (pc : AcceptorPc) : Option (Acceptor ι) :=
  if s.pcs i = .idle then some (s.goto i pc) else none

def step (k : AcceptorKind) (s : Acceptor ι) : AcceptorLabel ι → Option (Acceptor ι)
  | .start i sv cbs xcred =>
    s.enter i (if sv && cbs && (k = .tcp || xcred) then .start_state
      else .start_return error_invalid)
  | .stop i => s.enter i .stop_state
  | .step i ok =>
    let r := s.action k ok (s.pcs i)
    some (r.2.goto i r.1)
  | .read_event =>
    if s.tracker ∧ s.reader = .idle then some { s with tracker := false, reader := .wait } else none
  | .read_step ok =>
    let r := s.read_action k ok s.reader
    some { r.2 with reader := r.1 }
  | .channel_event =>
    if s.posted > 0 then ({ s with posted := s.posted - 1 } : Acceptor ι).send_enter .interrupt
    else none
  | .handshaked h success => if h < s.created then s.send_enter (.handshaked h success) else none
  | .handshake_stopped h => if h < s.created then s.send_enter (.handshake_stopped h) else none
  | .send_step ok =>
    let r := s.send_action ok s.sender
    some { r.2 with sender := r.1 }

end

/-! ## Section 2: What the threads rely on -/

/-- The thread has the state `state_starting` to itself. -/
def Starting : AcceptorPc → Prop
  | .start_open_flow | .start_install | .start_started | .start_error => True
  | _ => False

/-- `start` has left the state behind. -/
def Begun (s : Acceptor ι) : Prop := s.state ≠ state_none ∧ s.state ≠ state_starting

/-- `stop` has closed the flow, and nobody opens it again. -/
def Shut (s : Acceptor ι) : Prop := s.flow = false ∧ s.Begun

/-- What a thread at `pc` relies on. -/
def Relies (s : Acceptor ι) (pc : AcceptorPc) : Prop :=
  (Starting pc → s.state = state_starting) ∧ (pc = .stop_close → s.Begun) ∧
    (pc = .stop_handshakers ∨ pc = .stop_post → s.Shut)

/-- The read poller has accepted a connection and not called back yet. -/
def Accepted : AcceptorReadPc → Prop
  | .create_transport | .accepted_cb => True
  | _ => False

instance : DecidablePred Accepted := fun pc => by
  cases pc <;> unfold Accepted <;> infer_instance

/-- The send poller is to call back with a connection. -/
def Handshaked : AcceptorSendPc → Prop
  | .create_transport | .accepted_cb => True
  | _ => False

/-- No `accepted_cb` after `stopped_cb`. -/
def Quiet (calls : List AcceptorCall) : Prop :=
  calls.Pairwise fun c c' => c = .stopped_cb → c' ≠ .accepted_cb

/-- What the pollers rely on. -/
structure Polled (k : AcceptorKind) (s : Acceptor ι) : Prop where
  posted : 0 < s.posted → s.Shut
  interrupt : s.sender = .interrupt → s.Shut
  shut : s.state = state_stopped → s.Shut
  accepted : Accepted s.reader → k = .tcp ∧ s.state ≠ state_stopped
  handshaked : Handshaked s.sender → .stopped_cb ∉ s.calls
  stopped : s.sender = .stopped_cb ∨ .stopped_cb ∈ s.calls → s.state = state_stopped
  quiet : Quiet s.calls

structure AcceptorInv (k : AcceptorKind) (s : Acceptor ι) : Prop where
  relies : ∀ i, s.Relies (s.pcs i)
  one : ∀ i j, Starting (s.pcs i) → Starting (s.pcs j) → i = j
  polled : Polled k s

theorem new_acceptorInv (k : AcceptorKind) : AcceptorInv k (new : Acceptor ι) := by
  refine ⟨fun _ => ⟨nofun, nofun, ?_⟩, fun _ _ => nofun, ?_⟩
  · rintro (h | h) <;> cases h
  · refine ⟨nofun, nofun, nofun, nofun, nofun, ?_, List.Pairwise.nil⟩
    rintro (h | h) <;> cases h

/-! ## Section 3: The threads of the user -/

/-- One more call. -/
theorem quiet_concat {calls : List AcceptorCall} {c : AcceptorCall} (h : Quiet calls)
    (hc : c = .accepted_cb → .stopped_cb ∉ calls) : Quiet (calls ++ [c]) := by
  unfold Quiet
  rw [List.pairwise_append]
  refine ⟨h, List.pairwise_singleton _ _, ?_⟩
  intro c' hmem d hd hstopped haccepted
  rw [List.mem_singleton] at hd
  rw [hstopped] at hmem
  exact hc (hd.symm.trans haccepted) hmem

variable [DecidableEq ι]

/-- A thread goes on at `pc`, where the others rely on what they did. -/
theorem goto_acceptorInv {k : AcceptorKind} {s s' : Acceptor ι} {i : ι} {pc : AcceptorPc}
    (h : AcceptorInv k s) (hpcs : s'.pcs = s.pcs) (hpc : s'.Relies pc)
    (hothers : ∀ j, j ≠ i → s'.Relies (s.pcs j))
    (hone : Starting pc → ∀ j, j ≠ i → ¬Starting (s.pcs j)) (hpolled : Polled k s') :
    AcceptorInv k (s'.goto i pc) := by
  have hpcs' : ∀ j, (s'.goto i pc).pcs j = if j = i then pc else s.pcs j := by
    intro j
    show Function.update s'.pcs i pc j = _
    rw [hpcs, Function.update_apply]
  refine ⟨?_, ?_, ?_⟩
  · intro j
    show s'.Relies ((s'.goto i pc).pcs j)
    rw [hpcs']
    split
    · exact hpc
    · next hj => exact hothers j hj
  · intro j j'
    rw [hpcs', hpcs']
    split
    · next hj =>
      split
      · next hj' => exact fun _ _ => hj.trans hj'.symm
      · next hj' => exact fun hs hs' => absurd hs' (hone hs j' hj')
    · next hj =>
      split
      · next hj' => exact fun hs hs' => absurd hs (hone hs' j hj)
      · exact h.one j j'
  · obtain ⟨hposted, hinterrupt, hshut, haccepted, hhandshaked, hstopped, hquiet⟩ := hpolled
    exact ⟨hposted, hinterrupt, hshut, haccepted, hhandshaked, hstopped, hquiet⟩

omit [DecidableEq ι] in
/-- A step that keeps the state, and does not open the flow. -/
theorem Relies.keep {s s' : Acceptor ι} {pc : AcceptorPc} (h : s.Relies pc)
    (hstate : s'.state = s.state) (hflow : s.flow = false → s'.flow = false) : s'.Relies pc := by
  obtain ⟨hstarting, hclose, hshut⟩ := h
  refine ⟨?_, ?_, ?_⟩
  · rw [hstate]
    exact hstarting
  · unfold Begun
    rw [hstate]
    exact hclose
  · intro hpc
    obtain ⟨hclosed, hbegun⟩ := hshut hpc
    unfold Shut Begun
    rw [hstate]
    exact ⟨hflow hclosed, hbegun⟩

omit [DecidableEq ι] in
theorem Polled.keep {k : AcceptorKind} {s s' : Acceptor ι} (h : Polled k s)
    (hstate : s'.state = s.state) (hflow : s.flow = false → s'.flow = false)
    (hposted : 0 < s'.posted → s'.Shut) (hreader : s'.reader = s.reader)
    (hsender : s'.sender = s.sender) (hcalls : s'.calls = s.calls) : Polled k s' := by
  have hkeep : s.Shut → s'.Shut := by
    intro ⟨hclosed, hbegun⟩
    unfold Shut Begun
    rw [hstate]
    exact ⟨hflow hclosed, hbegun⟩
  refine ⟨hposted, ?_, ?_, ?_, ?_, ?_, ?_⟩
  · rw [hsender]
    exact fun hs => hkeep (h.interrupt hs)
  · rw [hstate]
    exact fun hs => hkeep (h.shut hs)
  · rw [hreader, hstate]
    exact h.accepted
  · rw [hsender, hcalls]
    exact h.handshaked
  · rw [hsender, hcalls, hstate]
    exact h.stopped
  · rw [hcalls]
    exact h.quiet

omit [DecidableEq ι] in
/-- An exchange of the state of which no starting thread knows. -/
theorem Relies.exchange {s : Acceptor ι} {pc : AcceptorPc} {desired : TransportState}
    (h : s.Relies pc) (hpc : ¬Starting pc)
    (hbegun : s.Begun → desired ≠ state_none ∧ desired ≠ state_starting) :
    ({ s with state := desired } : Acceptor ι).Relies pc := by
  obtain ⟨-, hclose, hshut⟩ := h
  exact ⟨fun hs => absurd hs hpc, fun hs => hbegun (hclose hs),
    fun hs => ⟨(hshut hs).1, hbegun (hshut hs).2⟩⟩

omit [DecidableEq ι] in
/-- An exchange of the state before the acceptor is stopped. -/
theorem Polled.exchange {k : AcceptorKind} {s : Acceptor ι} {desired : TransportState}
    (h : Polled k s) (hstate : s.state ≠ state_stopped) (hdesired : desired ≠ state_stopped)
    (hbegun : s.Begun → desired ≠ state_none ∧ desired ≠ state_starting) :
    Polled k { s with state := desired } := by
  have hshut : s.Shut → ({ s with state := desired } : Acceptor ι).Shut :=
    fun hs => ⟨hs.1, hbegun hs.2⟩
  refine ⟨fun hs => hshut (h.posted hs), fun hs => hshut (h.interrupt hs), ?_, ?_, h.handshaked,
    ?_, h.quiet⟩
  · intro hs
    exact absurd hs hdesired
  · intro hs
    exact ⟨(h.accepted hs).1, hdesired⟩
  · intro hs
    exact absurd (h.stopped hs) hstate

/-- A step of a thread that keeps the state and opens no flow. -/
theorem aside_acceptorInv {k : AcceptorKind} {s s' : Acceptor ι} {i : ι} {pc : AcceptorPc}
    (h : AcceptorInv k s) (hpcs : s'.pcs = s.pcs) (hstate : s'.state = s.state)
    (hflow : s.flow = false → s'.flow = false) (hpc : s'.Relies pc)
    (hstarting : Starting pc → Starting (s.pcs i)) (hpolled : Polled k s') :
    AcceptorInv k (s'.goto i pc) := by
  apply goto_acceptorInv h hpcs hpc
  · intro j _
    exact (h.relies j).keep hstate hflow
  · intro hs j hj hsj
    exact hj (h.one j i hsj (hstarting hs))
  · exact hpolled

/-- **Step lemma for the threads of the user.** -/
theorem action_acceptorInv {k : AcceptorKind} {s : Acceptor ι} (h : AcceptorInv k s) (i : ι)
    (ok : Bool) : AcceptorInv k ((s.action k ok (s.pcs i)).2.goto i (s.action k ok (s.pcs i)).1) := by
  have hrelies := h.relies i
  have hpolled := h.polled
  cases hpc : s.pcs i with
  | idle =>
    apply aside_acceptorInv h
    case hpc => exact ⟨nofun, nofun, by simp [action]⟩
    case hstarting => exact nofun
    case hpolled => exact hpolled
    all_goals simp [action]
  | start_state =>
    simp only [action, set_state]
    by_cases hstate : s.state = state_none
    · -- no thread relies on anything yet
      have hnone : ∀ j, ¬Starting (s.pcs j) := by
        intro j hs
        have heq := (h.relies j).1 hs
        rw [hstate] at heq
        cases heq
      have hbegun : s.Begun → state_starting ≠ state_none ∧ state_starting ≠ state_starting :=
        fun hs => absurd hstate hs.1
      simp only [if_pos hstate]
      apply goto_acceptorInv h
      case hpcs => rfl
      case hpc => exact ⟨fun _ => rfl, nofun, by simp⟩
      case hothers => exact fun j _ => (h.relies j).exchange (hnone j) hbegun
      case hone => exact fun _ j _ => hnone j
      case hpolled => exact hpolled.exchange (by simp [hstate]) (by decide) hbegun
    · simp only [if_neg hstate]
      apply aside_acceptorInv h
      case hpc => exact ⟨nofun, nofun, by simp⟩
      case hstarting => exact nofun
      case hpolled => exact hpolled
      all_goals simp
  | start_open_flow =>
    have hstate : s.state = state_starting := hrelies.1 (by simp [hpc, Starting])
    have hbegun : ¬s.Begun := fun hs => hs.2 hstate
    simp only [action]
    -- the flow is opened before there is anything to close
    apply goto_acceptorInv h
    case hpcs => rfl
    case hpc =>
      refine ⟨fun _ => hstate, ?_, ?_⟩
      · split <;> simp
      · split <;> simp
    case hothers =>
      intro j hj
      obtain ⟨hstarting, hclose, hshut⟩ := h.relies j
      exact ⟨hstarting, hclose, fun hs => absurd (hshut hs).2 hbegun⟩
    case hone =>
      intro _ j hj hsj
      exact hj (h.one j i hsj (by simp [hpc, Starting]))
    case hpolled =>
      refine ⟨fun hs => absurd (hpolled.posted hs).2 hbegun,
        fun hs => absurd (hpolled.interrupt hs).2 hbegun,
        fun hs => absurd (hpolled.shut hs).2 hbegun, hpolled.accepted, hpolled.handshaked,
        hpolled.stopped, hpolled.quiet⟩
  | start_install =>
    have hstate : s.state = state_starting := hrelies.1 (by simp [hpc, Starting])
    simp only [action]
    apply aside_acceptorInv h
    case hpc =>
      refine ⟨fun _ => hstate, ?_, ?_⟩
      · split <;> simp
      · split <;> simp
    case hstarting => exact fun _ => by simp [hpc, Starting]
    case hpolled => exact hpolled.keep rfl id hpolled.posted rfl rfl rfl
    all_goals simp
  | start_started =>
    have hstate : s.state = state_starting := hrelies.1 (by simp [hpc, Starting])
    have hbegun : s.Begun → state_started ≠ state_none ∧ state_started ≠ state_starting :=
      fun hs => absurd hstate hs.2
    simp only [action, set_state, if_pos hstate]
    apply goto_acceptorInv h
    case hpcs => rfl
    case hpc => exact ⟨nofun, nofun, by simp⟩
    case hothers =>
      intro j hj
      apply (h.relies j).exchange _ hbegun
      exact fun hsj => hj (h.one j i hsj (by simp [hpc, Starting]))
    case hone => exact nofun
    case hpolled => exact hpolled.exchange (by simp [hstate]) (by decide) hbegun
  | start_error =>
    have hstate : s.state = state_starting := hrelies.1 (by simp [hpc, Starting])
    have hbegun : s.Begun → state_error ≠ state_none ∧ state_error ≠ state_starting :=
      fun hs => absurd hstate hs.2
    simp only [action, set_state, if_pos hstate]
    apply goto_acceptorInv h
    case hpcs => rfl
    case hpc => exact ⟨nofun, nofun, by simp⟩
    case hothers =>
      intro j hj
      apply (h.relies j).exchange _ hbegun
      exact fun hsj => hj (h.one j i hsj (by simp [hpc, Starting]))
    case hone => exact nofun
    case hpolled => exact hpolled.exchange (by simp [hstate]) (by decide) hbegun
  | start_close =>
    simp only [action]
    apply aside_acceptorInv h
    case hpc => exact ⟨nofun, nofun, by simp⟩
    case hstarting => exact nofun
    case hpolled =>
      exact hpolled.keep rfl (fun _ => rfl) (fun hs => ⟨rfl, (hpolled.posted hs).2⟩) rfl rfl rfl
    all_goals simp
  | start_return ec =>
    simp only [action]
    apply aside_acceptorInv h
    case hpc => exact ⟨nofun, nofun, by simp⟩
    case hstarting => exact nofun
    case hpolled => exact hpolled.keep rfl id hpolled.posted rfl rfl rfl
    all_goals simp
  | stop_state =>
    simp only [action, set_state]
    by_cases hstate : s.state = state_started
    · have hbegun : s.Begun → state_stopping ≠ state_none ∧ state_stopping ≠ state_starting :=
        fun _ => by decide
      simp only [if_pos hstate]
      apply goto_acceptorInv h
      case hpcs => rfl
      case hpc => exact ⟨nofun, fun _ => ⟨by simp, by simp⟩, by simp⟩
      case hothers =>
        intro j hj
        apply (h.relies j).exchange _ hbegun
        intro hsj
        have heq := (h.relies j).1 hsj
        rw [hstate] at heq
        cases heq
      case hone => exact nofun
      case hpolled => exact hpolled.exchange (by simp [hstate]) (by decide) hbegun
    · simp only [if_neg hstate]
      apply aside_acceptorInv h
      case hpc => exact ⟨nofun, nofun, by simp⟩
      case hstarting => exact nofun
      case hpolled => exact hpolled
      all_goals simp
  | stop_close =>
    have hbegun : s.Begun := hrelies.2.1 hpc
    simp only [action]
    apply aside_acceptorInv h
    case hpc =>
      refine ⟨?_, fun _ => hbegun, fun _ => ⟨rfl, hbegun⟩⟩
      cases k <;> exact nofun
    case hstarting => cases k <;> exact nofun
    case hpolled =>
      exact hpolled.keep rfl (fun _ => rfl) (fun hs => ⟨rfl, (hpolled.posted hs).2⟩) rfl rfl rfl
    all_goals simp
  | stop_handshakers =>
    have hshut : s.Shut := hrelies.2.2 (.inl hpc)
    simp only [action]
    apply aside_acceptorInv h
    case hpc => exact ⟨nofun, nofun, fun _ => hshut⟩
    case hstarting => exact nofun
    case hpolled => exact hpolled.keep rfl id hpolled.posted rfl rfl rfl
    all_goals simp
  | stop_post =>
    have hshut : s.Shut := hrelies.2.2 (.inr hpc)
    simp only [action]
    apply aside_acceptorInv h
    case hpc => exact ⟨nofun, nofun, by simp⟩
    case hstarting => exact nofun
    case hpolled =>
      split
      · exact hpolled.keep rfl id (fun _ => hshut) rfl rfl rfl
      · exact hpolled
    all_goals split <;> simp

/-! ## Section 4: The pollers -/

omit [DecidableEq ι] in
/-- A step of a poller keeps what the threads of the user rely on. -/
theorem poller_acceptorInv {k : AcceptorKind} {s s' : Acceptor ι} (h : AcceptorInv k s)
    (hpcs : s'.pcs = s.pcs) (hflow : s'.flow = s.flow)
    (hstate : s'.state = s.state ∨ s.state = state_stopping ∧ s'.state = state_stopped)
    (hpolled : Polled k s') : AcceptorInv k s' := by
  refine ⟨?_, ?_, hpolled⟩
  · intro i
    rw [hpcs]
    rcases hstate with hstate | ⟨hstopping, hstopped⟩
    · exact (h.relies i).keep hstate (by simp [hflow])
    · obtain ⟨hstarting, hclose, hshut⟩ := h.relies i
      have hbegun : s'.Begun := by
        unfold Begun
        rw [hstopped]
        decide
      refine ⟨?_, fun _ => hbegun, fun hs => ⟨hflow.trans (hshut hs).1, hbegun⟩⟩
      intro hs
      have heq := hstarting hs
      rw [hstopping] at heq
      cases heq
  · rw [hpcs]
    exact h.one

omit [DecidableEq ι] in
/-- A step of the read poller that does not call back. -/
theorem Polled.read {k : AcceptorKind} {s s' : Acceptor ι} (h : Polled k s)
    (hstate : s'.state = s.state) (hflow : s'.flow = s.flow) (hposted : s'.posted = s.posted)
    (hsender : s'.sender = s.sender) (hcalls : s'.calls = s.calls)
    (hreader : Accepted s'.reader → k = .tcp ∧ s.state ≠ state_stopped) : Polled k s' := by
  have hkeep : s.Shut → s'.Shut := by
    unfold Shut Begun
    rw [hflow, hstate]
    exact id
  obtain ⟨hpost, hinterrupt, hshut, -, hhandshaked, hstopped, hquiet⟩ := h
  refine ⟨?_, ?_, ?_, ?_, ?_, ?_, ?_⟩
  · rw [hposted]
    exact fun hs => hkeep (hpost hs)
  · rw [hsender]
    exact fun hs => hkeep (hinterrupt hs)
  · rw [hstate]
    exact fun hs => hkeep (hshut hs)
  · rw [hstate]
    exact hreader
  · rw [hsender, hcalls]
    exact hhandshaked
  · rw [hsender, hcalls, hstate]
    exact hstopped
  · rw [hcalls]
    exact hquiet

omit [DecidableEq ι] in
/-- **Step lemma for the read poller.** -/
theorem read_acceptorInv {k : AcceptorKind} {s : Acceptor ι} (h : AcceptorInv k s) (ok : Bool) :
    AcceptorInv k { (s.read_action k ok s.reader).2 with
      reader := (s.read_action k ok s.reader).1 } := by
  have hpolled := h.polled
  cases hreader : s.reader with
  | accept =>
    simp only [read_action]
    refine poller_acceptorInv h rfl rfl (.inl rfl) ?_
    refine hpolled.read rfl rfl rfl rfl rfl ?_
    intro hs
    -- the flow is open, so the acceptor is not stopped
    split at hs
    · next hopen =>
      rw [Bool.and_eq_true] at hopen
      cases k with
      | tcp =>
        refine ⟨rfl, ?_⟩
        intro hstopped
        have hflow := (hpolled.shut hstopped).1
        rw [hopen.1] at hflow
        cases hflow
      | tls => cases hs
    · cases hs
  | create_transport =>
    simp only [read_action]
    refine poller_acceptorInv h rfl rfl (.inl rfl) ?_
    refine hpolled.read rfl rfl rfl rfl rfl ?_
    exact fun _ => hpolled.accepted (by simp [hreader, Accepted])
  | accepted_cb =>
    have haccepted := hpolled.accepted (by simp [hreader, Accepted])
    have hnone : AcceptorCall.stopped_cb ∉ s.calls :=
      fun hmem => haccepted.2 (hpolled.stopped (.inr hmem))
    simp only [read_action]
    refine poller_acceptorInv h rfl rfl (.inl rfl) ?_
    refine ⟨hpolled.posted, hpolled.interrupt, hpolled.shut, nofun, ?_, ?_, ?_⟩
    · intro _ hmem
      rcases List.mem_append.mp hmem with hmem | hmem
      · exact hnone hmem
      · simp at hmem
    · intro hs
      apply hpolled.stopped
      simpa using hs
    · exact quiet_concat hpolled.quiet fun _ => hnone
  | create_handshaker =>
    simp only [read_action]
    split
    · refine poller_acceptorInv h rfl rfl (.inl rfl) ?_
      exact hpolled.read rfl rfl rfl rfl rfl nofun
    · refine poller_acceptorInv h rfl rfl (.inl rfl) ?_
      exact hpolled.read rfl rfl rfl rfl rfl nofun
  | wait =>
    simp only [read_action]
    refine poller_acceptorInv h rfl rfl (.inl rfl) ?_
    refine hpolled.read rfl rfl rfl rfl rfl ?_
    simp only
    split <;> exact nofun
  | init_handshaker _ | start_handshaker _ =>
    simp only [read_action]
    refine poller_acceptorInv h rfl rfl (.inl rfl) ?_
    refine hpolled.read rfl rfl rfl rfl rfl ?_
    simp only
    split <;> exact nofun
  | _ =>
    refine poller_acceptorInv h rfl rfl (.inl rfl) ?_
    exact hpolled.read rfl rfl rfl rfl rfl nofun

/-- The send poller stops a TCP acceptor while the read poller has accepted a
    connection and not called back yet. -/
def Overtakes (k : AcceptorKind) (s : Acceptor ι) : AcceptorLabel ι → Prop
  | .send_step _ => k = .tcp ∧ s.sender = .interrupt ∧ s.state = state_stopping ∧ Accepted s.reader
  | _ => False

instance (k : AcceptorKind) (s : Acceptor ι) : DecidablePred (Overtakes k s) := fun l => by
  cases l <;> unfold Overtakes <;> infer_instance

omit [DecidableEq ι] in
/-- A step of the send poller that does not call back. -/
theorem Polled.send {k : AcceptorKind} {s s' : Acceptor ι} (h : Polled k s)
    (hstate : s'.state = s.state) (hflow : s'.flow = s.flow) (hposted : s'.posted ≤ s.posted)
    (hreader : s'.reader = s.reader) (hcalls : s'.calls = s.calls)
    (hinterrupt : s'.sender = .interrupt → s.Shut)
    (hhandshaked : Handshaked s'.sender → .stopped_cb ∉ s.calls)
    (hsender : s'.sender ≠ .stopped_cb) : Polled k s' := by
  have hkeep : s.Shut → s'.Shut := by
    unfold Shut Begun
    rw [hflow, hstate]
    exact id
  refine ⟨fun hs => hkeep (h.posted (hs.trans_le hposted)), fun hs => hkeep (hinterrupt hs), ?_, ?_,
    ?_, ?_, ?_⟩
  · rw [hstate]
    exact fun hs => hkeep (h.shut hs)
  · rw [hreader, hstate]
    exact h.accepted
  · rw [hcalls]
    exact hhandshaked
  · rw [hcalls, hstate]
    exact fun hs => h.stopped (hs.imp (fun hs => absurd hs hsender) id)
  · rw [hcalls]
    exact h.quiet

omit [DecidableEq ι] in
/-- **Step lemma for the send poller.** -/
theorem send_acceptorInv {k : AcceptorKind} {s : Acceptor ι} (h : AcceptorInv k s) (ok : Bool)
    (hok : ¬Overtakes k s (.send_step ok)) :
    AcceptorInv k { (s.send_action ok s.sender).2 with
      sender := (s.send_action ok s.sender).1 } := by
  have hpolled := h.polled
  cases hsender : s.sender with
  | interrupt =>
    have hshut := hpolled.interrupt hsender
    simp only [send_action, set_state]
    by_cases hstate : s.state = state_stopping
    · simp only [if_pos hstate]
      -- else the reader would have been overtaken
      have hnot : ¬Accepted s.reader := fun hs =>
        hok ⟨(hpolled.accepted hs).1, hsender, hstate, hs⟩
      have hshut' : ({ s with state := state_stopped, sender := .stopped_cb } :
          Acceptor ι).Shut := ⟨hshut.1, by simp, by simp⟩
      refine poller_acceptorInv h rfl rfl (.inr ⟨hstate, rfl⟩) ?_
      exact ⟨fun _ => hshut', nofun, fun _ => hshut', fun hs => absurd hs hnot, nofun,
        fun _ => rfl, hpolled.quiet⟩
    · simp only [if_neg hstate]
      refine poller_acceptorInv h rfl rfl (.inl rfl) ?_
      exact hpolled.send rfl rfl (le_refl _) rfl rfl nofun nofun nofun
  | stopped_cb =>
    have hstopped := hpolled.stopped (.inl hsender)
    simp only [send_action]
    refine poller_acceptorInv h rfl rfl (.inl rfl) ?_
    exact ⟨hpolled.posted, nofun, hpolled.shut, hpolled.accepted, nofun, fun _ => hstopped,
      quiet_concat hpolled.quiet nofun⟩
  | handshaked hs success =>
    -- the handshaker has called back
    simp only [send_action]
    refine poller_acceptorInv h rfl rfl (.inl rfl) ?_
    refine hpolled.send rfl rfl (le_refl _) rfl rfl ?_ ?_ ?_
    all_goals
      simp only
      split <;> exact nofun
  | check_started =>
    simp only [send_action]
    refine poller_acceptorInv h rfl rfl (.inl rfl) ?_
    refine hpolled.send rfl rfl (le_refl _) rfl rfl ?_ ?_ ?_
    · simp only
      split <;> exact nofun
    · intro hs hmem
      have hstopped := hpolled.stopped (.inr hmem)
      rw [hstopped] at hs
      cases hs
    · simp only
      split <;> exact nofun
  | create_transport =>
    have hnone := hpolled.handshaked (by simp [hsender, Handshaked])
    simp only [send_action]
    refine poller_acceptorInv h rfl rfl (.inl rfl) ?_
    refine hpolled.send rfl rfl (le_refl _) rfl rfl ?_ (fun _ => hnone) ?_
    · simp only
      split <;> exact nofun
    · simp only
      split <;> exact nofun
  | accepted_cb =>
    have hnone := hpolled.handshaked (by simp [hsender, Handshaked])
    simp only [send_action]
    refine poller_acceptorInv h rfl rfl (.inl rfl) ?_
    refine ⟨hpolled.posted, nofun, hpolled.shut, hpolled.accepted, nofun, ?_,
      quiet_concat hpolled.quiet fun _ => hnone⟩
    intro hs
    apply hpolled.stopped
    right
    simpa using hs
  | _ =>
    refine poller_acceptorInv h rfl rfl (.inl rfl) ?_
    exact hpolled.send rfl rfl (le_refl _) rfl rfl nofun nofun nofun

/-! ## Section 5: Runs -/

omit [DecidableEq ι] in
/-- The send poller begins with an event. -/
theorem send_enter_acceptorInv {k : AcceptorKind} {s s' : Acceptor ι} {posted : Nat}
    {pc : AcceptorSendPc}
    (hs : ({ s with posted := posted } : Acceptor ι).send_enter pc = some s')
    (h : AcceptorInv k s) (hposted : posted ≤ s.posted) (hpc : pc = .interrupt → s.Shut)
    (hpc' : ¬Handshaked pc ∧ pc ≠ .stopped_cb) : AcceptorInv k s' := by
  unfold send_enter at hs
  split at hs
  · cases hs
    refine poller_acceptorInv h rfl rfl (.inl rfl) ?_
    exact h.polled.send rfl rfl hposted rfl rfl hpc (fun hh => absurd hh hpc'.1) hpc'.2
  · cases hs

/-- A thread begins with `start` or `stop`. -/
theorem enter_acceptorInv {k : AcceptorKind} {s s' : Acceptor ι} {i : ι} {pc : AcceptorPc}
    (hs : s.enter i pc = some s') (h : AcceptorInv k s) (hpc : s.Relies pc)
    (hstarting : ¬Starting pc) : AcceptorInv k s' := by
  unfold enter at hs
  split at hs
  · cases hs
    exact aside_acceptorInv h rfl rfl id hpc (fun hh => absurd hh hstarting) h.polled
  · cases hs

theorem step_acceptorInv {k : AcceptorKind} {s s' : Acceptor ι} {l : AcceptorLabel ι}
    (h : AcceptorInv k s) (hok : ¬Overtakes k s l) (hs : s.step k l = some s') :
    AcceptorInv k s' := by
  cases l with
  | start i sv cbs xcred =>
    simp only [step] at hs
    split at hs
    · exact enter_acceptorInv hs h ⟨nofun, nofun, by simp⟩ nofun
    · exact enter_acceptorInv hs h ⟨nofun, nofun, by simp⟩ nofun
  | stop i =>
    simp only [step] at hs
    exact enter_acceptorInv hs h ⟨nofun, nofun, by simp⟩ nofun
  | step i ok =>
    cases hs
    exact action_acceptorInv h i ok
  | read_event =>
    simp only [step] at hs
    split at hs
    · cases hs
      refine poller_acceptorInv h rfl rfl (.inl rfl) ?_
      exact h.polled.read rfl rfl rfl rfl rfl nofun
    · cases hs
  | read_step ok =>
    cases hs
    exact read_acceptorInv h ok
  | channel_event =>
    simp only [step] at hs
    split at hs
    · next hposted =>
      exact send_enter_acceptorInv hs h (Nat.sub_le _ _) (fun _ => h.polled.posted hposted)
        ⟨nofun, nofun⟩
    · cases hs
  | handshaked n success =>
    simp only [step] at hs
    split at hs
    · exact send_enter_acceptorInv hs h (le_refl _) nofun ⟨nofun, nofun⟩
    · cases hs
  | handshake_stopped n =>
    simp only [step] at hs
    split at hs
    · exact send_enter_acceptorInv hs h (le_refl _) nofun ⟨nofun, nofun⟩
    · cases hs
  | send_step ok =>
    cases hs
    exact send_acceptorInv h ok hok

/-- **Accepting ends with stopped_cb**: where the send poller does not stop a
    TCP acceptor between an accept and its callback, no `accepted_cb` comes
    after `stopped_cb`, in a run of any threads. A TLS acceptor calls back on
    the send poller alone, and needs no condition. -/
theorem run_quiet {k : AcceptorKind} {s : Acceptor ι}
    (h : Reachable (step k) (fun s l => ¬Overtakes k s l) new s) : Quiet s.calls := by
  have hinv : AcceptorInv k s := by
    apply h.invariant
    · exact new_acceptorInv k
    · intro _ _ _ hinv hok hs
      exact step_acceptorInv hinv hok hs
  exact hinv.polled.quiet

/-- A thread starts the acceptor, and the read poller accepts a connection. -/
def accepting_labels : List (AcceptorLabel Bool) :=
  AcceptorLabel.start true true true true :: List.replicate 5 (.step true true) ++
    [AcceptorLabel.read_event, .read_step true, .read_step true]

/-- Another thread stops it, and the send poller takes the channel event. -/
def stopping_labels : List (AcceptorLabel Bool) :=
  AcceptorLabel.stop false :: List.replicate 3 (.step false true) ++
    [AcceptorLabel.channel_event, .send_step true, .send_step true]

/-- The read poller calls back before the acceptor is stopped. -/
theorem run_quiet_tcp :
    ∃ s : Acceptor Bool, s.calls = [.accepted_cb, .stopped_cb] ∧ Quiet s.calls := by
  have hexec : (exec (step .tcp) new (accepting_labels ++ [.read_step true, .read_step true] ++
      stopping_labels)).map calls = some [.accepted_cb, .stopped_cb] := by decide
  obtain ⟨s, hs, heq⟩ := Option.map_eq_some_iff.mp hexec
  exact ⟨s, heq, run_quiet (Reachable.of_exec hs (by decide))⟩

/-- A connection that was accepted before the stop turns up after it. -/
theorem not_run_quiet :
    ∃ s : Acceptor Bool, Reachable (step .tcp) AnyStep new s ∧
      s.calls = [.stopped_cb, .accepted_cb] ∧ ¬Quiet s.calls := by
  have hexec : (exec (step .tcp) new (accepting_labels ++ stopping_labels ++
      [.read_step true, .read_step true])).map calls = some [.stopped_cb, .accepted_cb] := by
    decide
  obtain ⟨s, hs, heq⟩ := Option.map_eq_some_iff.mp hexec
  refine ⟨s, Reachable.of_exec hs (meets_anyStep _ _ _), heq, ?_⟩
  rw [heq]
  intro hquiet
  rw [Quiet, List.pairwise_pair] at hquiet
  exact hquiet rfl rfl

end Acceptor

end Pump
