import Pump.Lts
import Pump.Transport.Types

/-! # Descriptors

    Who owns a socket that has been handed to `tls_handshaker::init` or to
    `tcp_transport::init`, and which calls of `net::close` it sees until the
    objects are gone. A flow closes its descriptor when it is destroyed. The
    flow of a handshaker can be moved to a `tls_transport`; a `tcp_transport`
    opens its flow in `start`. What does not bear on the flows is left out of
    the labels. -/

namespace Pump

open TransportState

/-! ## Section 1: Model -/

/-- `flow_tcp` and `flow_tls` as far as their descriptor goes; `shut` is a call
    of `net::shutdown`. -/
structure FlowBase where
  fd : Int
  session : Bool
  shut : Bool
  deriving DecidableEq, Repr

/-- A new flow. -/
def FlowBase.new : FlowBase := ⟨-1, false, false⟩

namespace FlowBase

def shutdown (f : FlowBase) : FlowBase := if f.fd > 0 then { f with shut := true } else f

/-- The calls of `net::close` in `close`, which is the destructor, too. -/
def close (f : FlowBase) : List Int := if f.fd > 0 then [f.fd] else []

end FlowBase

/-- A handshaker or a transport: the descriptor of the channel, its state and
    its `flow_`. -/
structure FlowHolder where
  fd : Int
  state : TransportState
  flow : Option FlowBase
  deriving DecidableEq, Repr

inductive HolderType where
  | tls_handshaker
  | tls_transport
  | tcp_transport
  deriving DecidableEq, Repr

open HolderType

/-- The objects around one descriptor, each while it exists. `unlocked` is what
    `unlock_flow` has returned, and `closed` are the calls of `net::close`. -/
structure Descriptors where
  handed : Bool
  handshaker : Option FlowHolder
  unlocked : Option FlowBase
  tls : Option FlowHolder
  tcp : Option FlowHolder
  closed : List Int
  deriving DecidableEq, Repr

inductive DescriptorLabel where
  /-- The descriptor is handed to a new handshaker; the flags are whether the
      flow object and the TLS session can be created. -/
  | tls_handshaker_init (created session : Bool)
  /-- It is handed to a new `tcp_transport`. -/
  | tcp_transport_init
  /-- A call of `start`: whether the checks of its parameters pass, whether a
      flow object can be created, and whether the rest succeeds. -/
  | start (type : HolderType) (valid created ok : Bool)
  | stop (type : HolderType)
  /-- An event, timeout or failure ends it in that state. -/
  | ends (type : HolderType) (state : TransportState)
  | unlock_flow
  /-- A new `tls_transport` gets the unlocked flow. -/
  | tls_transport_init
  | drop_unlocked
  | destroy (type : HolderType)
  deriving DecidableEq, Repr

namespace FlowHolder

def shutdown_flow (h : FlowHolder) : FlowHolder :=
  { h with flow := h.flow.map FlowBase.shutdown }

/-- `tls_handshaker::__open_flow` with its calls of `net::close`. -/
def open_flow (h : FlowHolder) (fd : Int) (created session : Bool) :
    Bool × FlowHolder × List Int :=
  if created then
    if fd < 0 ∨ session = false then (false, { h with flow := some FlowBase.new }, [fd])
    else (true, { h with fd := fd, flow := some ⟨fd, true, false⟩ }, [])
  else (false, { h with flow := none }, [])

/-- `tls_handshaker::init`. -/
def handshaker_init (fd : Int) (created session : Bool) : FlowHolder × List Int :=
  let r := (⟨-1, state_none, none⟩ : FlowHolder).open_flow fd created session
  (r.2.1, if r.1 then r.2.2 else r.2.2 ++ [fd])

/-- `tcp_transport::__open_transport_flow` with its calls of `net::close`. -/
def open_transport_flow (h : FlowHolder) (created : Bool) : Bool × FlowHolder × List Int :=
  if created then
    if h.fd < 0 then (false, { h with flow := some FlowBase.new }, [h.fd])
    else (true, { h with flow := some ⟨h.fd, false, false⟩ }, [])
  else (false, { h with flow := none }, [])

/-- The rest of `start`, from `state_starting`. -/
def finish_start (h : FlowHolder) (ok : Bool) : FlowHolder :=
  { h with state := if ok then state_started else state_error }

/-- `start`, with its calls of `net::close`. A handshaker whose flow has no
    session cannot get to its handshake. -/
def start (h : FlowHolder) (type : HolderType) (valid created ok : Bool) :
    Option (FlowHolder × List Int) :=
  if valid then
    match type with
    | tcp_transport =>
      if h.flow = none ∧ h.state = state_none then
        let r := h.open_transport_flow created
        some (r.2.1.finish_start (r.1 && ok), r.2.2)
      else some (h, [])
    | tls_handshaker | tls_transport =>
      match h.flow with
      | none => some (h, [])
      | some f =>
        if h.state = state_none then
          if f.session then some (h.finish_start ok, []) else none
        else some (h, [])
  else some (h, [])

/-- `stop` and `force_stop`. -/
def stop (h : FlowHolder) (type : HolderType) : FlowHolder :=
  if h.state = state_started then
    match type with
    | tls_handshaker => { h with state := state_stopping }
    | _ => { h.shutdown_flow with state := state_stopping }
  else if h.state = state_disconnecting ∨ type = tls_handshaker ∧ h.state = state_timeouting then
    { h with state := state_stopping }
  else h

/-- A handshaker or transport that has been started comes to another state. -/
def ends (h : FlowHolder) (type : HolderType) (state : TransportState) : FlowHolder :=
  match type with
  | tls_handshaker => { h with state := state }
  | _ => { h.shutdown_flow with state := state }

/-- The calls of `net::close` when it is destroyed. -/
def destroy (h : FlowHolder) : List Int :=
  match h.flow with
  | none => []
  | some f => f.close

end FlowHolder

namespace Descriptors

def new : Descriptors := ⟨false, none, none, none, none, []⟩

def get (s : Descriptors) : HolderType → Option FlowHolder
  | tls_handshaker => s.handshaker
  | tls_transport => s.tls
  | tcp_transport => s.tcp

def set (s : Descriptors) (h : Option FlowHolder) : HolderType → Descriptors
  | tls_handshaker => { s with handshaker := h }
  | tls_transport => { s with tls := h }
  | tcp_transport => { s with tcp := h }

def close (s : Descriptors) (fds : List Int) : Descriptors := { s with closed := s.closed ++ fds }

def step (fd : Int) (s : Descriptors) : DescriptorLabel → Option Descriptors
  | .tls_handshaker_init created session =>
    if s.handed then none
    else
      let r := FlowHolder.handshaker_init fd created session
      some ({ s with handed := true, handshaker := some r.1 }.close r.2)
  | .tcp_transport_init =>
    if s.handed then none
    else some { s with handed := true, tcp := some ⟨fd, state_none, none⟩ }
  | .start type valid created ok => do
    let h ← s.get type
    let r ← h.start type valid created ok
    some ((s.set (some r.1) type).close r.2)
  | .stop type => do
    let h ← s.get type
    some (s.set (some (h.stop type)) type)
  | .ends type state => do
    let h ← s.get type
    if h.state = state_none ∨ state = state_none then none
    else some (s.set (some (h.ends type state)) type)
  | .unlock_flow => do
    let h ← s.handshaker
    if s.unlocked = none then
      some { s with unlocked := h.flow, handshaker := some { h with flow := none } }
    else none
  | .tls_transport_init => do
    let f ← s.unlocked
    if s.tls = none then
      some { s with unlocked := none, tls := some ⟨f.fd, state_none, some f⟩ }
    else none
  | .drop_unlocked => do
    let f ← s.unlocked
    some ({ s with unlocked := none }.close f.close)
  | .destroy type => do
    let h ← s.get type
    some ((s.set none type).close h.destroy)

end Descriptors

/-! ## Section 2: Calls that are due -/

/-- How often the destructor of the flow will close the descriptor. -/
def FlowBase.owed (fd : Int) (f : FlowBase) : Nat := f.close.count fd

def FlowHolder.owed (fd : Int) (h : FlowHolder) : Nat := h.destroy.count fd

/-- The same for what may be gone already. -/
def owed {α : Type} (f : α → Nat) : Option α → Nat
  | none => 0
  | some a => f a

theorem FlowBase.owed_shutdown (fd : Int) (f : FlowBase) : f.shutdown.owed fd = f.owed fd := by
  unfold shutdown
  split <;> rfl

namespace FlowHolder

variable {fd : Int} {h h' : FlowHolder} {type : HolderType}

theorem owed_eq (fd : Int) (h : FlowHolder) : h.owed fd = Pump.owed (FlowBase.owed fd) h.flow := by
  unfold owed destroy
  rcases h.flow with _ | f
  · rfl
  · rfl

theorem owed_shutdown_flow (fd : Int) (h : FlowHolder) : h.shutdown_flow.owed fd = h.owed fd := by
  rw [owed_eq, owed_eq]
  unfold shutdown_flow
  rcases h.flow with _ | f
  · rfl
  · exact f.owed_shutdown fd

theorem owed_stop (fd : Int) (h : FlowHolder) (type : HolderType) :
    (h.stop type).owed fd = h.owed fd := by
  have hshut := owed_shutdown_flow fd h
  unfold stop
  split
  · cases type with
    | tls_handshaker => rfl
    | _ => exact hshut
  · split <;> rfl

theorem owed_ends (fd : Int) (h : FlowHolder) (type : HolderType) (state : TransportState) :
    (h.ends type state).owed fd = h.owed fd := by
  have hshut := owed_shutdown_flow fd h
  cases type with
  | tls_handshaker => rfl
  | _ => exact hshut

/-- A stopped or ended object stays what it was to `start`. -/
theorem state_stop (h : FlowHolder) (type : HolderType) :
    (h.stop type).state = state_none ↔ h.state = state_none := by
  unfold stop
  split
  · next hs =>
    rw [hs]
    cases type <;> exact iff_of_false nofun nofun
  · split
    · next hs =>
      refine iff_of_false nofun fun hn => ?_
      rw [hn] at hs
      rcases hs with hs | ⟨-, hs⟩ <;> cases hs
    · exact Iff.rfl

theorem finish_start_state (h : FlowHolder) (ok : Bool) :
    (h.finish_start ok).state ≠ state_none := by
  cases ok <;> nofun

/-- `start` of an object that opens no flow closes nothing. -/
theorem owed_start {valid created ok : Bool} {r : FlowHolder × List Int}
    (hstate : type = tcp_transport → h.state ≠ state_none ∨ valid = false)
    (hs : h.start type valid created ok = some r) :
    r.1.owed fd = h.owed fd ∧ r.2 = [] ∧ (h.state ≠ state_none → r.1.state ≠ state_none) := by
  unfold start at hs
  cases valid with
  | false =>
    cases hs
    exact ⟨rfl, rfl, id⟩
  | true =>
    rw [if_pos rfl] at hs
    have hrest : ∀ f, h.flow = some f → (if h.state = state_none then
        if f.session then some (h.finish_start ok, []) else none else some (h, [])) = some r →
        r.1.owed fd = h.owed fd ∧ r.2 = [] ∧ (h.state ≠ state_none → r.1.state ≠ state_none) := by
      intro f _ hr
      split at hr
      · next hnone =>
        split at hr
        · cases hr
          exact ⟨rfl, rfl, fun hn => absurd hnone hn⟩
        · cases hr
      · cases hr
        exact ⟨rfl, rfl, id⟩
    cases type with
    | tcp_transport =>
      have hnot : h.state ≠ state_none := (hstate rfl).resolve_right nofun
      simp only [hnot, and_false, if_false] at hs
      cases hs
      exact ⟨rfl, rfl, id⟩
    | tls_handshaker | tls_transport =>
      rcases hf : h.flow with _ | f
      · rw [hf] at hs
        cases hs
        exact ⟨rfl, rfl, id⟩
      · rw [hf] at hs
        exact hrest f hf hs

end FlowHolder

namespace Descriptors

variable {fd : Int} {s s' : Descriptors} {l : DescriptorLabel}

/-- The calls of `net::close` for the descriptor, made and to come. -/
def due (fd : Int) (s : Descriptors) : Nat :=
  s.closed.count fd + (owed (FlowHolder.owed fd) s.handshaker + owed (FlowBase.owed fd) s.unlocked +
    owed (FlowHolder.owed fd) s.tls + owed (FlowHolder.owed fd) s.tcp)

theorem due_close (fd : Int) (s : Descriptors) (fds : List Int) :
    (s.close fds).due fd = s.due fd + fds.count fd := by
  simp only [due, close, List.count_append]
  omega

theorem due_set (fd : Int) (s : Descriptors) (h : Option FlowHolder) (type : HolderType) :
    (s.set h type).due fd + owed (FlowHolder.owed fd) (s.get type) =
      s.due fd + owed (FlowHolder.owed fd) h := by
  cases type <;> simp only [due, set, get] <;> omega

/-- The descriptor has been handed out, and there is no `tcp_transport` that
    could still open a flow. -/
structure Settled (s : Descriptors) : Prop where
  handed : s.handed = true
  tcp : ∀ h, s.tcp = some h → h.state ≠ state_none

/-- An object of a settled state is replaced by one that owes the same. -/
theorem Settled.set (hs : s.Settled) {type : HolderType} {h h' : FlowHolder}
    (hget : s.get type = some h) (howed : h'.owed fd = h.owed fd)
    (hstate : h.state ≠ state_none → h'.state ≠ state_none) :
    (s.set (some h') type).Settled ∧ (s.set (some h') type).due fd = s.due fd := by
  have hdue := due_set fd s (some h') type
  rw [hget] at hdue
  simp only [owed, howed] at hdue
  refine ⟨?_, by omega⟩
  cases type with
  | tcp_transport =>
    refine ⟨hs.handed, ?_⟩
    intro h₁ h₂
    cases h₂
    exact hstate (hs.tcp h hget)
  | _ => exact ⟨hs.handed, hs.tcp⟩

/-- In a settled state, what is due stays due. -/
theorem settled_step (hs : s.Settled) (hstep : s.step fd l = some s') :
    s'.Settled ∧ s'.due fd = s.due fd := by
  cases l with
  | tls_handshaker_init created session | tcp_transport_init =>
    simp only [step, hs.handed, if_true] at hstep
    cases hstep
  | start type valid created ok =>
    -- a `tcp_transport` has been started, and is not started again
    obtain ⟨h, hget, hstep⟩ := Option.bind_eq_some_iff.mp hstep
    obtain ⟨r, hstart, hstep⟩ := Option.bind_eq_some_iff.mp hstep
    cases hstep
    have hstate : type = tcp_transport → h.state ≠ state_none ∨ valid = false := by
      rintro rfl
      exact Or.inl (hs.tcp h hget)
    obtain ⟨howed, hclosed, hkeep⟩ : r.1.owed fd = h.owed fd ∧ r.2 = [] ∧
        (h.state ≠ state_none → r.1.state ≠ state_none) := FlowHolder.owed_start hstate hstart
    obtain ⟨hsettled, hdue⟩ := hs.set hget howed hkeep
    rw [hclosed]
    refine ⟨⟨hsettled.handed, hsettled.tcp⟩, ?_⟩
    rw [due_close, hdue]
    rfl
  | stop type =>
    obtain ⟨h, hget, hstep⟩ := Option.bind_eq_some_iff.mp hstep
    cases hstep
    exact hs.set hget (h.owed_stop fd type) (mt (h.state_stop type).mp)
  | ends type state =>
    obtain ⟨h, hget, hstep⟩ := Option.bind_eq_some_iff.mp hstep
    split at hstep
    · cases hstep
    · next hnot =>
      cases hstep
      refine hs.set hget (h.owed_ends fd type state) fun _ => ?_
      have hstate : (h.ends type state).state = state := by cases type <;> rfl
      rw [hstate]
      exact fun hn => hnot (Or.inr hn)
  | unlock_flow =>
    -- the descriptor goes with the flow to whoever unlocked it
    obtain ⟨h, hget, hstep⟩ := Option.bind_eq_some_iff.mp hstep
    split at hstep
    · next hnone =>
      cases hstep
      refine ⟨⟨hs.handed, hs.tcp⟩, ?_⟩
      simp only [due, hget, hnone, owed, FlowHolder.owed_eq]
      omega
    · cases hstep
  | tls_transport_init =>
    obtain ⟨f, hget, hstep⟩ := Option.bind_eq_some_iff.mp hstep
    split at hstep
    · next hnone =>
      cases hstep
      refine ⟨⟨hs.handed, hs.tcp⟩, ?_⟩
      simp only [due, hget, hnone, owed, FlowHolder.owed_eq]
      omega
    · cases hstep
  | drop_unlocked =>
    -- the flow is destroyed, and its descriptor closed
    obtain ⟨f, hget, hstep⟩ := Option.bind_eq_some_iff.mp hstep
    cases hstep
    refine ⟨⟨hs.handed, hs.tcp⟩, ?_⟩
    rw [due_close]
    simp only [due, hget, owed, FlowBase.owed]
    omega
  | destroy type =>
    obtain ⟨h, hget, hstep⟩ := Option.bind_eq_some_iff.mp hstep
    cases hstep
    have hdue := due_set fd s none type
    rw [hget] at hdue
    simp only [owed, FlowHolder.owed] at hdue
    refine ⟨?_, ?_⟩
    · cases type with
      | tcp_transport => exact ⟨hs.handed, fun _ hn => by cases hn⟩
      | _ => exact ⟨hs.handed, hs.tcp⟩
    · rw [due_close]
      exact hdue

/-! ## Section 3: Runs -/

theorem settled_run (hs : s.Settled) {ls : List DescriptorLabel}
    (h : exec (step fd) s ls = some s') : s'.due fd = s.due fd := by
  induction ls generalizing s with
  | nil =>
    cases h
    rfl
  | cons l ls ih =>
    obtain ⟨mid, hstep, hrest⟩ := Option.bind_eq_some_iff.mp h
    obtain ⟨hmid, hdue⟩ := settled_step hs hstep
    rw [ih hmid hrest, hdue]

/-- All objects are gone. -/
structure Over (s : Descriptors) : Prop where
  handed : s.handed = true
  handshaker : s.handshaker = none
  unlocked : s.unlocked = none
  tls : s.tls = none
  tcp : s.tcp = none

theorem Over.due (h : s.Over) : s.due fd = s.closed.count fd := by
  simp [Descriptors.due, h.handshaker, h.unlocked, h.tls, h.tcp, owed]

/-- The first call of `start` with valid arguments finds memory for its flow. -/
def Opens : List DescriptorLabel → Prop
  | [] => False
  | .start tcp_transport true created _ :: _ => created = true
  | _ :: ls => Opens ls

/-- The descriptor is handed to a handshaker that gets its session, or not even
    a flow, or to a `tcp_transport` that opens its flow; and it is not zero
    where a flow is to close it. -/
def ClosesOnce (fd : Int) : List DescriptorLabel → Prop
  | .tls_handshaker_init created session :: _ => created = false ∨ (session = true ∧ 0 < fd)
  | .tcp_transport_init :: ls => 0 < fd ∧ Opens ls
  | _ => False

/-- What is due after `tls_handshaker::init`. -/
theorem due_handshaker_init (hfd : 0 ≤ fd) (created session : Bool) :
    (FlowHolder.handshaker_init fd created session).1.owed fd +
        (FlowHolder.handshaker_init fd created session).2.count fd =
      if created = false then 1 else if session = false then 2 else if 0 < fd then 1 else 0 := by
  have hneg : ¬ fd < 0 := by omega
  cases created with
  | false => simp [FlowHolder.handshaker_init, FlowHolder.open_flow, FlowHolder.owed,
      FlowHolder.destroy]
  | true =>
    cases session with
    | false =>
      -- `__open_flow` closes the descriptor, and `init` closes it again
      simp [FlowHolder.handshaker_init, FlowHolder.open_flow, FlowHolder.owed, FlowHolder.destroy,
        FlowBase.close, FlowBase.new]
    | true =>
      by_cases hpos : 0 < fd
      · simp [FlowHolder.handshaker_init, FlowHolder.open_flow, FlowHolder.owed,
          FlowHolder.destroy, FlowBase.close, hneg, hpos]
      · simp [FlowHolder.handshaker_init, FlowHolder.open_flow, FlowHolder.owed,
          FlowHolder.destroy, FlowBase.close, hneg, hpos]

theorem handshaker_step (hfd : 0 ≤ fd) {created session : Bool}
    (hstep : new.step fd (.tls_handshaker_init created session) = some s') :
    s'.Settled ∧ s'.due fd =
      if created = false then 1 else if session = false then 2 else if 0 < fd then 1 else 0 := by
  cases hstep
  refine ⟨⟨rfl, fun _ hn => by cases hn⟩, ?_⟩
  rw [← due_handshaker_init hfd, due_close]
  simp [due, owed, new]

/-- A `tcp_transport` that has not opened its flow. -/
def waiting (fd : Int) : Descriptors := ⟨true, none, none, none, some ⟨fd, state_none, none⟩, []⟩

/-- One that was destroyed before that. -/
def gone : Descriptors := ⟨true, none, none, none, none, []⟩

theorem gone_step (fd : Int) (l : DescriptorLabel) : gone.step fd l = none := by
  rcases l with _ | _ | ⟨type, -, -, -⟩ | type | ⟨type, -⟩ | _ | _ | _ | type
  all_goals
    first
    | rfl
    | cases type <;> rfl

/-- What a step does to it: nothing, or it is destroyed, or it opens its
    flow. -/
theorem waiting_step (hstep : (waiting fd).step fd l = some s') :
    (s' = waiting fd ∧ ∀ ls, Opens (l :: ls) ↔ Opens ls) ∨ (s' = gone ∧ ¬ Opens [l]) ∨
      ∃ created ok, l = .start tcp_transport true created ok := by
  cases l with
  | start type valid created ok =>
    cases type with
    | tcp_transport =>
      cases valid with
      | true => exact Or.inr (Or.inr ⟨created, ok, rfl⟩)
      | false =>
        cases hstep
        exact Or.inl ⟨rfl, fun _ => Iff.rfl⟩
    | tls_handshaker | tls_transport => cases hstep
  | stop type =>
    cases type with
    | tcp_transport =>
      cases hstep
      exact Or.inl ⟨rfl, fun _ => Iff.rfl⟩
    | tls_handshaker | tls_transport => cases hstep
  | ends type state => cases type <;> cases hstep
  | destroy type =>
    cases type with
    | tcp_transport =>
      cases hstep
      exact Or.inr (Or.inl ⟨rfl, id⟩)
    | tls_handshaker | tls_transport => cases hstep
  | _ => cases hstep

/-- What is due after it has started. -/
theorem waiting_start (hfd : 0 ≤ fd) {created ok : Bool}
    (hstep : (waiting fd).step fd (.start tcp_transport true created ok) = some s') :
    s'.Settled ∧ s'.due fd = if 0 < fd ∧ created = true then 1 else 0 := by
  have hneg : ¬ fd < 0 := by omega
  cases created with
  | false =>
    cases hstep
    refine ⟨⟨rfl, ?_⟩, ?_⟩
    · intro h hh
      cases hh
      exact FlowHolder.finish_start_state _ _
    · rw [if_neg fun hn => Bool.false_ne_true hn.2]
      rfl
  | true =>
    simp only [step, get, waiting, Option.bind_eq_bind, Option.bind_some, FlowHolder.start,
      FlowHolder.open_transport_flow, if_true, and_self, hneg, if_false] at hstep
    cases hstep
    refine ⟨⟨rfl, ?_⟩, ?_⟩
    · intro h hh
      cases hh
      exact FlowHolder.finish_start_state _ _
    · by_cases hpos : 0 < fd
      · simp [due, close, set, owed, FlowHolder.owed, FlowHolder.destroy, FlowHolder.finish_start,
          FlowBase.close, hpos]
      · simp [due, close, set, owed, FlowHolder.owed, FlowHolder.destroy, FlowHolder.finish_start,
          FlowBase.close, hpos]

theorem waiting_run (hfd : 0 ≤ fd) {ls : List DescriptorLabel}
    (h : exec (step fd) (waiting fd) ls = some s') (hover : s'.Over) :
    s'.closed.count fd = 1 ↔ 0 < fd ∧ Opens ls := by
  induction ls with
  | nil =>
    cases h
    cases hover.tcp
  | cons l ls ih =>
    obtain ⟨mid, hstep, hrest⟩ := Option.bind_eq_some_iff.mp h
    rcases waiting_step hstep with ⟨rfl, hopens⟩ | ⟨rfl, hnot⟩ | ⟨created, ok, rfl⟩
    · rw [hopens]
      exact ih hrest
    · -- nothing is left to take a step
      rcases ls with _ | ⟨l', ls⟩
      · cases hrest
        exact iff_of_false (by rintro ⟨⟩) fun ho => hnot ho.2
      · rw [exec, gone_step] at hrest
        cases hrest
    · obtain ⟨hsettled, hdue⟩ := waiting_start hfd hstep
      rw [← hover.due, settled_run hsettled hrest, hdue]
      show _ ↔ 0 < fd ∧ created = true
      split
      · next hopen => exact iff_of_true rfl hopen
      · next hopen => exact iff_of_false (by simp) hopen

/-- **Descriptors are closed exactly once** by the time all objects are gone,
    for the outcomes that `ClosesOnce` says, whatever is done with them. -/
theorem closed_once_iff {ls : List DescriptorLabel} (hfd : 0 ≤ fd)
    (h : exec (step fd) new ls = some s) (hover : s.Over) :
    s.closed.count fd = 1 ↔ ClosesOnce fd ls := by
  rcases ls with _ | ⟨l, ls⟩
  · cases h
    cases hover.handed
  · obtain ⟨mid, hstep, hrest⟩ := Option.bind_eq_some_iff.mp h
    cases l with
    | tls_handshaker_init created session =>
      obtain ⟨hsettled, hdue⟩ := handshaker_step hfd hstep
      rw [← hover.due, settled_run hsettled hrest, hdue]
      show _ ↔ created = false ∨ (session = true ∧ 0 < fd)
      cases created <;> cases session <;> simp
    | tcp_transport_init =>
      cases hstep
      exact waiting_run hfd hrest hover
    | start type | stop type | ends type | destroy type => cases type <;> cases hstep
    | _ => cases hstep

/-- A descriptor goes through the handshake to a `tls_transport`, which is
    started and stopped. -/
def handshaken : List DescriptorLabel :=
  [.tls_handshaker_init true true, .start tls_handshaker true true true,
    .ends tls_handshaker state_finished, .unlock_flow, .tls_transport_init,
    .destroy tls_handshaker, .start tls_transport true true true, .stop tls_transport,
    .destroy tls_transport]

theorem closed_once_handshaken :
    ∃ s, exec (step 5) new handshaken = some s ∧ s.closed.count 5 = 1 := by
  have hexec : exec (step 5) new handshaken = some ⟨true, none, none, none, none, [5]⟩ := by decide
  have honce := closed_once_iff (by decide) hexec ⟨rfl, rfl, rfl, rfl, rfl⟩
  exact ⟨_, hexec, honce.mpr (Or.inr ⟨rfl, by decide⟩)⟩

/-- Without a session, `__open_flow` and `init` both close the descriptor. A
    `tcp_transport` that is dropped before its start closes it never. -/
theorem not_closed_once :
    (∃ s, exec (step 5) new [.tls_handshaker_init true false, .destroy tls_handshaker] = some s ∧
      s.Over ∧ s.closed = [5, 5]) ∧
    ∃ s, exec (step 5) new [.tcp_transport_init, .destroy tcp_transport] = some s ∧
      s.Over ∧ s.closed = [] :=
  ⟨⟨_, rfl, ⟨rfl, rfl, rfl, rfl, rfl⟩, rfl⟩, ⟨_, rfl, ⟨rfl, rfl, rfl, rfl, rfl⟩, rfl⟩⟩

end Descriptors

end Pump
