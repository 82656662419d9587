import Pump.Transport.Types

/-! # A call of async_read

    `async_read` of the transports, without other threads: the exchange of the
    read state, and the start of the read tracker in its poller, which may be
    refused by the tracker and may fail in the system. -/

namespace Pump

open TransportState ErrorCode ReadMode ReadState

/-- The transports that read. -/
inductive TransportType where
  | transport_udp
  | transport_tcp
  | transport_tls
  deriving DecidableEq, Repr

open TransportType

/-! ## Section 1: Model -/

/-- What `async_read` uses of a transport: its states, whether its read
    tracker has a poller and is tracking, whether its flow has unread data,
    and the number of posted `channel_event_read`. -/
structure Reader where
  type : TransportType
  state : TransportState
  rmode : ReadMode
  rstate : ReadState
  pending_opt_cnt : Int
  has_poller : Bool
  tracking : Bool
  has_unread_data : Bool
  posted : Nat
  deriving DecidableEq, Repr

namespace Reader

/-- `__change_read_state`. -/
def change_read_state (s : Reader) (expected desired : ReadState) : Bool × Reader :=
  if s.rstate = expected then (true, { s with rstate := desired }) else (false, s)

/-- `channel_tracker::track`. -/
def track (s : Reader) : Bool × Reader :=
  if s.tracking then (false, s) else (true, { s with tracking := true })

/-- `poller::start_channel_tracker`; `ok` is the outcome of
    `__start_channel_tracker`. -/
def start_channel_tracker (s : Reader) (ok : Bool) : Bool × Reader :=
  if s.track.1 then (ok, s.track.2) else (false, s.track.2)

/-- `__start_read_tracker`. -/
def start_read_tracker (s : Reader) (ok : Bool) : Bool × Reader :=
  if s.has_poller then s.start_channel_tracker ok else (false, s)

def error_of (ok : Bool) : ErrorCode := if ok then error_none else error_fault

/-- The two branches of `tcp_transport`, and others that are the same. -/
def arm (s : Reader) (ok : Bool) : ErrorCode × Reader :=
  let r := s.change_read_state read_none read_pending
  if !r.1 then (error_fault, r.2)
  else
    let t := r.2.start_read_tracker ok
    (error_of t.1, t.2)

/-- `tcp_transport::async_read`. -/
def tcp_async_read (s : Reader) (ok : Bool) : ErrorCode × Reader :=
  if s.state ≠ state_started then (error_unstart, s)
  else
    let s := { s with pending_opt_cnt := s.pending_opt_cnt + 1 }
    let r :=
      if s.state ≠ state_started then (error_unstart, s)
      else if s.rmode = read_mode_loop then s.arm ok
      else s.arm ok
    (r.1, { r.2 with pending_opt_cnt := r.2.pending_opt_cnt - 1 })

/-- `tls_transport::async_read`; `posted` is the outcome of the post, which it
    does not look at. -/
def tls_async_read (s : Reader) (ok posted : Bool) : ErrorCode × Reader :=
  if s.state ≠ state_started then (error_unstart, s)
  else
    let s := { s with pending_opt_cnt := s.pending_opt_cnt + 1 }
    let r :=
      if s.rmode = read_mode_loop then s.arm ok
      else if s.state ≠ state_started then (error_unstart, s)
      else
        let c := s.change_read_state read_none read_pending
        if !c.1 then (error_fault, c.2)
        else if c.2.has_unread_data then
          (error_none, if posted then { c.2 with posted := c.2.posted + 1 } else c.2)
        else
          let t := c.2.start_read_tracker ok
          (error_of t.1, t.2)
    (r.1, { r.2 with pending_opt_cnt := r.2.pending_opt_cnt - 1 })

/-- `udp_transport::async_read`. -/
def udp_async_read (s : Reader) (ok : Bool) : ErrorCode × Reader :=
  if s.state ≠ state_started then (error_unstart, s)
  else if s.rmode = read_mode_loop then
    -- the tracker is started even if the read state was refused
    let c := s.change_read_state read_none read_pending
    let t := c.2.start_read_tracker ok
    (error_of (c.1 && t.1), t.2)
  else s.arm ok

/-- `async_read` of each transport. -/
def async_read (s : Reader) (ok posted : Bool) : ErrorCode × Reader :=
  match s.type with
  | transport_udp => s.udp_async_read ok
  | transport_tcp => s.tcp_async_read ok
  | transport_tls => s.tls_async_read ok posted

/-! ## Section 2: When a read is armed -/

/-- The tracker starts: it has a poller, is idle, and the system takes it. -/
def Starts (s : Reader) (ok : Bool) : Prop :=
  s.has_poller = true ∧ s.tracking = false ∧ ok = true

/-- `tls_transport` reads once, and from what it has decrypted already. -/
def ReadsAhead (s : Reader) : Prop :=
  s.type = transport_tls ∧ s.rmode ≠ read_mode_loop ∧ s.has_unread_data = true

instance (s : Reader) (ok : Bool) : Decidable (Starts s ok) :=
  inferInstanceAs (Decidable (_ ∧ _))

instance (s : Reader) : Decidable (ReadsAhead s) := inferInstanceAs (Decidable (_ ∧ _))

theorem start_read_tracker_fst (s : Reader) (ok : Bool) :
    (s.start_read_tracker ok).1 = true ↔ s.Starts ok := by
  unfold start_read_tracker start_channel_tracker track Starts
  rcases s.has_poller <;> rcases s.tracking <;> simp

/-- Nothing but the tracker is changed, and it only where it has a poller. -/
theorem start_read_tracker_snd (s : Reader) (ok : Bool) :
    (s.start_read_tracker ok).2 = if s.has_poller then { s with tracking := true } else s := by
  unfold start_read_tracker start_channel_tracker track
  rcases s with ⟨type, state, rmode, rstate, cnt, has_poller, tracking, unread, posted⟩
  rcases has_poller <;> rcases tracking <;> rfl

theorem arm_pending {s : Reader} (h : s.rstate ≠ read_none) (ok : Bool) :
    s.arm ok = (error_fault, s) := by
  simp [arm, change_read_state, h]

theorem arm_none {s : Reader} (h : s.rstate = read_none) (ok : Bool) :
    s.arm ok = (error_of (({ s with rstate := read_pending } : Reader).start_read_tracker ok).1,
      (({ s with rstate := read_pending } : Reader).start_read_tracker ok).2) := by
  simp [arm, change_read_state, h]

theorem error_of_eq (ok : Bool) : error_of ok = error_none ↔ ok = true := by
  rcases ok <;> simp [error_of]

/-- The call arms a read. -/
def Accepts (s : Reader) (ok : Bool) : Prop :=
  s.state = state_started ∧ s.rstate = read_none ∧ (s.ReadsAhead ∨ s.Starts ok)

/-- Reads by one of the branches that arm the tracker: what is left where. -/
theorem arm_spec (s : Reader) (ok : Bool) :
    ((s.arm ok).1 = error_none ↔ s.rstate = read_none ∧ s.Starts ok) ∧
      (s.arm ok).2.rstate = (if s.rstate = read_none then read_pending else s.rstate) ∧
      (s.arm ok).2.tracking =
        (s.tracking || (decide (s.rstate = read_none) && s.has_poller)) := by
  by_cases h : s.rstate = read_none
  · rw [arm_none h, start_read_tracker_snd, error_of_eq, start_read_tracker_fst, if_pos h]
    refine ⟨?_, ?_, ?_⟩
    · constructor
      · exact fun hs => ⟨h, hs⟩
      · exact fun hs => hs.2
    · split <;> rfl
    · rcases s.has_poller <;> simp [h]
  · rw [arm_pending h, if_neg h]
    simp [h]

/-- The tracker is started: for a new read that does not read ahead, and by
    `udp_transport` in `read_mode_loop` for any call. -/
def Tracks (s : Reader) : Prop :=
  s.state = state_started ∧ s.has_poller = true ∧
    (s.rstate = read_none ∧ ¬ s.ReadsAhead ∨ s.type = transport_udp ∧ s.rmode = read_mode_loop)

instance (s : Reader) : Decidable (Tracks s) := inferInstanceAs (Decidable (_ ∧ _ ∧ _))

/-- What a call does to the read state and to the tracker, and when it arms a
    read. -/
structure Outcome (s : Reader) (ok : Bool) (r : ErrorCode × Reader) : Prop where
  accepted : r.1 = error_none ↔ s.Accepts ok
  rstate : r.2.rstate =
    if s.state = state_started ∧ s.rstate = read_none then read_pending else s.rstate
  tracking : r.2.tracking = (s.tracking || decide s.Tracks)

/-- A transport that is not started refuses. -/
theorem outcome_unstart {s : Reader} (h : s.state ≠ state_started) (ok : Bool) :
    Outcome s ok (error_unstart, s) := by
  refine ⟨iff_of_false nofun fun ha => h ha.1, ?_, ?_⟩
  · rw [if_neg fun hs => h hs.1]
  · have hnot : ¬ s.Tracks := fun ht => h ht.1
    simp [hnot]

theorem outcome_arm {s : Reader} (h : s.state = state_started) (hahead : ¬ s.ReadsAhead)
    (hudp : ¬ (s.type = transport_udp ∧ s.rmode = read_mode_loop)) (ok : Bool) :
    Outcome s ok (s.arm ok) := by
  obtain ⟨hfirst, hrstate, htracking⟩ := s.arm_spec ok
  refine ⟨?_, ?_, ?_⟩
  · rw [hfirst]
    simp [Accepts, h, hahead]
  · rw [hrstate]
    simp [h]
  · rw [htracking]
    congr 1
    rcases hp : s.has_poller <;> simp [Tracks, h, hp, hahead, hudp]

theorem Outcome.counted {s : Reader} {ok : Bool} {r : ErrorCode × Reader} (h : Outcome s ok r)
    (cnt : Int) : Outcome s ok (r.1, { r.2 with pending_opt_cnt := cnt }) :=
  ⟨h.accepted, h.rstate, h.tracking⟩

theorem Outcome.of_counted {s : Reader} {ok : Bool} {r : ErrorCode × Reader} {n : Int}
    (h : Outcome { s with pending_opt_cnt := n } ok r) : Outcome s ok r :=
  ⟨h.accepted, h.rstate, h.tracking⟩

theorem tcp_outcome {s : Reader} (ht : s.type = transport_tcp) (ok : Bool) :
    Outcome s ok (s.tcp_async_read ok) := by
  unfold tcp_async_read
  by_cases h : s.state = state_started
  · rw [if_neg (not_not.mpr h)]
    apply Outcome.counted
    apply Outcome.of_counted (n := s.pending_opt_cnt + 1)
    obtain ⟨s', hs'⟩ : ∃ s', s' = { s with pending_opt_cnt := s.pending_opt_cnt + 1 } := ⟨_, rfl⟩
    have h' : s'.state = state_started := by rw [hs']; exact h
    have ht' : s'.type = transport_tcp := by rw [hs']; exact ht
    rw [← hs', if_neg (not_not.mpr h'), ite_self]
    apply outcome_arm h'
    · rintro ⟨htls, -⟩
      rw [ht'] at htls
      cases htls
    · rintro ⟨hudp, -⟩
      rw [ht'] at hudp
      cases hudp
  · rw [if_pos h]
    exact outcome_unstart h ok

theorem udp_outcome {s : Reader} (ht : s.type = transport_udp) (ok : Bool) :
    Outcome s ok (s.udp_async_read ok) := by
  have hahead : ¬ s.ReadsAhead := by
    rintro ⟨htls, -⟩
    rw [ht] at htls
    cases htls
  unfold udp_async_read
  by_cases h : s.state = state_started
  · rw [if_neg (not_not.mpr h)]
    by_cases hloop : s.rmode = read_mode_loop
    · rw [if_pos hloop]
      -- both the exchange and the tracker, whatever the other gives
      have hbool : ∀ s' : Reader, s'.has_poller = s.has_poller → s'.tracking = s.tracking →
          ((s'.start_read_tracker ok).1 = true ↔ s.Starts ok) ∧
            (s'.start_read_tracker ok).2.rstate = s'.rstate ∧
            (s'.start_read_tracker ok).2.tracking = (s.tracking || s.has_poller) := by
        intro s' hp htr
        rw [start_read_tracker_fst, start_read_tracker_snd]
        refine ⟨?_, ?_, ?_⟩
        · unfold Starts
          rw [hp, htr]
        · split <;> rfl
        · rw [hp]
          rcases s.has_poller
          · simp [htr]
          · simp
      have htracks : decide s.Tracks = s.has_poller := by
        rcases hp : s.has_poller <;> simp [Tracks, h, hp, ht, hloop]
      by_cases hnone : s.rstate = read_none
      · have hchange : s.change_read_state read_none read_pending =
            (true, { s with rstate := read_pending }) := if_pos hnone
        obtain ⟨hfst, hrstate, htracking⟩ := hbool { s with rstate := read_pending } rfl rfl
        simp only [hchange]
        refine ⟨?_, ?_, ?_⟩
        · rw [error_of_eq, Bool.true_and, hfst]
          simp [Accepts, h, hnone, hahead]
        · rw [hrstate, if_pos ⟨h, hnone⟩]
        · rw [htracking, htracks]
      · have hchange : s.change_read_state read_none read_pending = (false, s) := if_neg hnone
        obtain ⟨-, hrstate, htracking⟩ := hbool s rfl rfl
        simp only [hchange]
        refine ⟨?_, ?_, ?_⟩
        · simp [error_of, Accepts, hnone]
        · rw [hrstate, if_neg fun hs => hnone hs.2]
        · rw [htracking, htracks]
    · rw [if_neg hloop]
      exact outcome_arm h hahead (fun hudp => hloop hudp.2) ok
  · rw [if_pos h]
    exact outcome_unstart h ok

theorem tls_outcome {s : Reader} (ht : s.type = transport_tls) (ok posted : Bool) :
    Outcome s ok (s.tls_async_read ok posted) := by
  have hudp : ¬ (s.type = transport_udp ∧ s.rmode = read_mode_loop) := by
    rintro ⟨hudp, -⟩
    rw [ht] at hudp
    cases hudp
  unfold tls_async_read
  by_cases h : s.state = state_started
  · rw [if_neg (not_not.mpr h)]
    apply Outcome.counted
    apply Outcome.of_counted (n := s.pending_opt_cnt + 1)
    obtain ⟨s', hs'⟩ : ∃ s', s' = { s with pending_opt_cnt := s.pending_opt_cnt + 1 } := ⟨_, rfl⟩
    have h' : s'.state = state_started := by rw [hs']; exact h
    have hudp' : ¬ (s'.type = transport_udp ∧ s'.rmode = read_mode_loop) := by rw [hs']; exact hudp
    have ht' : s'.type = transport_tls := by rw [hs']; exact ht
    rw [← hs']
    by_cases hloop : s'.rmode = read_mode_loop
    · rw [if_pos hloop]
      exact outcome_arm h' (fun ha => ha.2.1 hloop) hudp' ok
    · rw [if_neg hloop, if_neg (not_not.mpr h')]
      by_cases hnone : s'.rstate = read_none
      · have hchange : s'.change_read_state read_none read_pending =
            (true, { s' with rstate := read_pending }) := if_pos hnone
        simp only [hchange, Bool.not_true, Bool.false_eq_true, if_false]
        by_cases hunread : s'.has_unread_data = true
        · -- no tracker: what is decrypted is read
          have hahead : s'.ReadsAhead := ⟨ht', hloop, hunread⟩
          have hnot : ¬ s'.Tracks := by
            rintro ⟨-, -, ⟨-, hno⟩ | hu⟩
            · exact hno hahead
            · exact hudp' hu
          rw [if_pos hunread]
          have hsame : s'.tracking = (s'.tracking || decide s'.Tracks) := by
            rw [decide_eq_false hnot, Bool.or_false]
          have haccepts : s'.Accepts ok := ⟨h', hnone, Or.inl hahead⟩
          rcases posted
          · exact ⟨iff_of_true rfl haccepts, (if_pos ⟨h', hnone⟩).symm, hsame⟩
          · exact ⟨iff_of_true rfl haccepts, (if_pos ⟨h', hnone⟩).symm, hsame⟩
        · have hahead : ¬ s'.ReadsAhead := fun ha => hunread ha.2.2
          rw [if_neg hunread]
          have harm := outcome_arm h' hahead hudp' ok
          rwa [arm_none hnone] at harm
      · have hchange : s'.change_read_state read_none read_pending = (false, s') := if_neg hnone
        simp only [hchange, Bool.not_false, if_true]
        have hnot : ¬ s'.Tracks := by
          rintro ⟨-, -, ⟨hn, -⟩ | hu⟩
          · exact hnone hn
          · exact hudp' hu
        refine ⟨iff_of_false nofun fun ha => hnone ha.2.1, ?_, ?_⟩
        · rw [if_neg fun hs => hnone hs.2]
        · rw [decide_eq_false hnot, Bool.or_false]
  · rw [if_pos h]
    exact outcome_unstart h ok

theorem async_read_outcome (s : Reader) (ok posted : Bool) :
    Outcome s ok (s.async_read ok posted) := by
  unfold async_read
  split
  · next ht => exact udp_outcome ht ok
  · next ht => exact tcp_outcome ht ok
  · next ht => exact tls_outcome ht ok posted

/-! ## Section 3: A call that fails -/

/-- If the call gives an error code, the read state and the tracker are as they
    were. -/
def Undone (s : Reader) (ok posted : Bool) : Prop :=
  (s.async_read ok posted).1 ≠ error_none →
    (s.async_read ok posted).2.rstate = s.rstate ∧
      (s.async_read ok posted).2.tracking = s.tracking

/-- The transport is not started, or no read is pending and one can be armed,
    or one is pending and no tracker is started for nothing. -/
def Harmless (s : Reader) (ok : Bool) : Prop :=
  s.state ≠ state_started ∨ (s.rstate = read_none ∧ (s.ReadsAhead ∨ s.Starts ok)) ∨
    (s.rstate ≠ read_none ∧
      (s.type = transport_udp → s.rmode = read_mode_loop → s.has_poller = true → s.tracking = true))

instance (s : Reader) (ok : Bool) : Decidable (Harmless s ok) :=
  inferInstanceAs (Decidable (_ ∨ _ ∨ _))

/-- **A failed async_read** leaves everything as it was exactly if it did not
    take the read state and then fail to start the tracker, and did not start
    the tracker of a read that is refused. -/
theorem undone_iff (s : Reader) (ok posted : Bool) : s.Undone ok posted ↔ s.Harmless ok := by
  obtain ⟨haccepted, hrstate, htracking⟩ := s.async_read_outcome ok posted
  unfold Undone
  rw [ne_eq, haccepted, hrstate, htracking]
  by_cases hstate : s.state = state_started
  swap
  · -- refused at once
    have hnot : ¬ s.Tracks := fun ht => hstate ht.1
    refine iff_of_true (fun _ => ⟨if_neg fun hs => hstate hs.1, ?_⟩) (Or.inl hstate)
    rw [decide_eq_false hnot, Bool.or_false]
  by_cases hnone : s.rstate = read_none
  · -- the read state is taken, so the call must succeed
    rw [if_pos ⟨hstate, hnone⟩]
    constructor
    · intro hundone
      by_contra hharm
      have hrefused : ¬ s.Accepts ok := fun ha => hharm (Or.inr (Or.inl ha.2))
      have hsame := (hundone hrefused).1
      rw [hnone] at hsame
      cases hsame
    · rintro (hunstart | ⟨-, harms⟩ | ⟨hpending, -⟩) hrefused
      · exact absurd hstate hunstart
      · exact absurd ⟨hstate, hnone, harms⟩ hrefused
      · exact absurd hnone hpending
  · rw [if_neg fun hs => hnone hs.2]
    -- the read is refused, but over UDP the tracker may be started all the same
    have hrefused : ¬ s.Accepts ok := fun ha => hnone ha.2.1
    constructor
    · intro hundone
      refine Or.inr (Or.inr ⟨hnone, ?_⟩)
      intro hudp hloop hpoller
      have hsame := (hundone hrefused).2
      have htracks : s.Tracks := ⟨hstate, hpoller, Or.inr ⟨hudp, hloop⟩⟩
      rw [decide_eq_true htracks, Bool.or_true] at hsame
      exact hsame.symm
    · rintro (hunstart | ⟨hfree, -⟩ | ⟨-, hidle⟩) -
      · exact absurd hstate hunstart
      · exact absurd hfree hnone
      · refine ⟨rfl, ?_⟩
        by_cases htracks : s.Tracks
        · rcases htracks.2.2 with ⟨hfree, -⟩ | ⟨hudp, hloop⟩
          · exact absurd hfree hnone
          · rw [hidle hudp hloop htracks.2.1, Bool.true_or]
        · rw [decide_eq_false htracks, Bool.or_false]

/-- A transport that has been started and has not read yet. -/
def started (type : TransportType) (mode : ReadMode) : Reader :=
  ⟨type, state_started, mode, read_none, 0, true, false, false, 0⟩

/-- When the system refuses the tracker, the read stays pending and the tracker
    stays tracking, so that the next call is refused, too. -/
theorem not_undone :
    (∀ type mode, ¬ (started type mode).Undone false true) ∧
      ∀ type mode ok posted,
        (((started type mode).async_read false true).2.async_read ok posted).1 ≠ error_none := by
  constructor
  · intro type mode
    rw [undone_iff]
    rintro (hunstart | ⟨-, ⟨-, -, hunread⟩ | ⟨-, -, hok⟩⟩ | ⟨hpending, -⟩)
    · exact hunstart rfl
    · cases hunread
    · cases hok
    · exact hpending rfl
  · intro type mode ok posted
    obtain ⟨-, hrstate, -⟩ := (started type mode).async_read_outcome false true
    rw [if_pos ⟨rfl, rfl⟩] at hrstate
    intro hnext
    have haccepts := (((started type mode).async_read false true).2.async_read_outcome ok
      posted).accepted.mp hnext
    rw [haccepts.2.1] at hrstate
    cases hrstate

end Reader

end Pump
