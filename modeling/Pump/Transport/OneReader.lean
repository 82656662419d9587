import Pump.Total
import Pump.Transport.Terminal

/-! # One reader

    While a read is pending, the read tracker is armed, or a read is posted,
    or one thread reads or is about to arm or post. At most one of these is
    so: a transport is read by one thread at a time. -/

namespace Pump

open TransportState ErrorCode ChannelEvent Tracker ReadMode ReadState

/-! ## Section 1: What a step does about reading -/

namespace TransportPc

/-- The thread reads, or is about to arm the read tracker. -/
def reader : TransportPc → ℤ
  | .read_unread | .read_post | .read_start | .data_wait | .data_read | .data_change _
  | .data_start _ => 1
  | _ => 0

/-- The thread is on its way through `async_read`. -/
def asks : TransportPc → Prop
  | .read_opt | .read_started | .read_change => True
  | _ => False

/-- The thread does something about reading. -/
def about_reading : TransportPc → Prop
  | .read_check | .read_opt | .read_started | .read_change | .read_unread | .read_post
  | .read_start | .data_wait | .data_read | .data_change _ | .data_start _ => True
  | _ => False

/-- The thread arms the read tracker next. -/
def arming : TransportPc → Prop
  | .read_start | .data_start _ => True
  | _ => False

/-- The thread is about to post that there is something to read. -/
def posting : TransportPc → Prop
  | .read_unread | .read_post => True
  | _ => False

theorem reader_nonneg (pc : TransportPc) : 0 ≤ pc.reader := by
  unfold reader
  split
  all_goals decide

theorem reader_eq_zero {pc : TransportPc} (h : ¬ pc.about_reading) : pc.reader = 0 := by
  cases pc with
  | read_check | read_opt | read_started | read_change | read_unread | read_post
  | read_start | data_wait | data_read | data_change | data_start => exact absurd trivial h
  | _ => rfl

theorem reader_of_arming {pc : TransportPc} (h : pc.arming) : pc.reader = 1 := by
  cases pc with
  | read_start | data_start => rfl
  | _ => exact h.elim

theorem reader_of_posting {pc : TransportPc} (h : pc.posting) : pc.reader = 1 := by
  cases pc with
  | read_unread | read_post => rfl
  | _ => exact h.elim

theorem not_asks {pc : TransportPc} (h : ¬ pc.about_reading) : ¬ pc.asks := by
  cases pc with
  | read_opt | read_started | read_change => exact absurd trivial h
  | _ => exact id

end TransportPc

namespace BaseTransport

variable {ι : Type} {k : TransportKind}

/-- What is about reading is as it was. -/
structure SameRead (s s' : BaseTransport ι) : Prop where
  r_tracker : s'.r_tracker = s.r_tracker
  rstate : s'.rstate = s.rstate
  reads : s'.posted.count channel_event_read = s.posted.count channel_event_read

variable (k) in
/-- A step of a thread that does nothing about reading. -/
theorem sameRead_of_action (s : BaseTransport ι) (ok : Bool) (n : Int) {pc : TransportPc}
    (h : ¬ pc.about_reading) : SameRead s (s.action k ok n pc).2 := by
  have hset := s.set_state_frame (P := SameRead s) fun _ => ⟨rfl, rfl, rfl⟩
  have hpost : ∀ ev, ev ≠ channel_event_read → SameRead s (s.post_channel_event ok ev) := by
    intro ev hev
    unfold post_channel_event
    split
    · refine ⟨rfl, rfl, ?_⟩
      show (s.posted ++ [ev]).count channel_event_read = _
      rw [List.count_append, List.count_singleton, if_neg, Nat.add_zero]
      simpa using hev
    · exact ⟨rfl, rfl, rfl⟩
  have hflow := s.flow_send_frame (P := SameRead s) (fun _ _ => ⟨rfl, rfl, rfl⟩) n
  have hqueue := s.sendlist_step_frame (P := SameRead s) (fun _ _ => ⟨rfl, rfl, rfl⟩) ok
  cases pc with
  | read_check | read_opt | read_started | read_change | read_unread | read_post
  | read_start | data_wait | data_read | data_change | data_start => exact absurd trivial h
  | start_stages rest =>
    rcases rest with _ | ⟨st, rest⟩
    · exact ⟨rfl, rfl, rfl⟩
    · exact ⟨rfl, rfl, rfl⟩
  | start_state mode sent_cb =>
    simp only [action]
    split
    · obtain ⟨st, hst⟩ := s.set_state_eq state_none state_starting
      rw [hst]
      exact ⟨rfl, rfl, rfl⟩
    · exact hset _ _
  | once_size | once_want =>
    simp only [action]
    split
    · exact ⟨rfl, rfl, rfl⟩
    · exact ⟨rfl, rfl, rfl⟩
  | flow_send w =>
    simp only [action]
    split
    · exact ⟨rfl, rfl, rfl⟩
    · exact hflow _
  | handle_sent w =>
    simp only [action]
    split
    · exact ⟨rfl, rfl, rfl⟩
    · split
      · exact hpost _ (by simp)
      · exact ⟨rfl, rfl, rfl⟩
  | stop_post | send_post => exact hpost _ (by simp)
  | send_push iob op | once_pop w op => exact hqueue op
  | start_started | start_error | stop_started | stop_disconnecting | send_disconnecting
  | event_disconnecting | event_disconnected | event_stopped | data_disconnecting
  | data_disconnected | channel_disconnected | channel_stopped => exact hset _ _
  | _ => exact ⟨rfl, rfl, rfl⟩

variable (k) in
/-- Such a thread goes on to nothing about reading. -/
theorem not_about_reading_of_action (s : BaseTransport ι) (ok : Bool) (n : Int)
    {pc : TransportPc} (h : ¬ pc.about_reading) : ¬ (s.action k ok n pc).1.about_reading := by
  cases pc with
  | read_check | read_opt | read_started | read_change | read_unread | read_post
  | read_start | data_wait | data_read | data_change | data_start => exact absurd trivial h
  | start_stages rest =>
    rcases rest with _ | ⟨st, rest⟩
    · exact id
    · simp only [action]
      split
      · exact id
      · exact id
  | once_want w | flow_send w | sub_compare w old size | start_tracker w =>
    rcases w with iob | _ | _
    all_goals
      simp only [action, send_failed, send_more, send_done]
      repeat' split
      all_goals exact id
  | _ =>
    simp only [action]
    repeat' split
    all_goals exact id

/-- The read tracker is armed. -/
def armed (s : BaseTransport ι) : ℤ := if s.r_tracker = tracker_tracking then 1 else 0

/-- A read is pending. -/
def due (s : BaseTransport ι) : ℤ := if s.rstate = read_pending then 1 else 0

/-- The reads that are posted. -/
def reads (s : BaseTransport ι) : ℤ := s.posted.count channel_event_read

theorem armed_cases (s : BaseTransport ι) : s.armed = 0 ∨ s.armed = 1 := by
  unfold armed
  split
  · exact Or.inr rfl
  · exact Or.inl rfl

theorem due_le_one (s : BaseTransport ι) : s.due ≤ 1 := by
  unfold due
  split
  · exact le_refl _
  · exact zero_le_one

theorem reads_nonneg (s : BaseTransport ι) : 0 ≤ s.reads := Int.natCast_nonneg _

theorem SameRead.armed {s s' : BaseTransport ι} (h : SameRead s s') : s'.armed = s.armed := by
  unfold BaseTransport.armed
  rw [h.r_tracker]

theorem SameRead.due {s s' : BaseTransport ι} (h : SameRead s s') : s'.due = s.due := by
  unfold BaseTransport.due
  rw [h.rstate]

theorem SameRead.reads_eq {s s' : BaseTransport ι} (h : SameRead s s') : s'.reads = s.reads := by
  unfold BaseTransport.reads
  rw [h.reads]

/-- Who reads and what makes someone read are, less a pending read. -/
def excess (s : BaseTransport ι) : ℤ := s.armed + s.reads - s.due

theorem armed_start_read_tracker (s : BaseTransport ι) (ok : Bool) :
    (s.start_read_tracker ok).2.armed ≤ s.armed + 1 := by
  have h := (s.start_read_tracker ok).2.armed_cases
  have h' := s.armed_cases
  omega

theorem reads_post_channel_event (s : BaseTransport ι) (ok : Bool) (ev : ChannelEvent) :
    (s.post_channel_event ok ev).reads ≤ s.reads + 1 := by
  unfold reads post_channel_event
  split
  · show ((s.posted ++ [ev]).count channel_event_read : ℤ) ≤ _
    rw [List.count_append, List.count_singleton]
    split
    · omega
    · omega
  · omega

theorem change_read_state_none {s : BaseTransport ι} (h : s.rstate = read_none) :
    s.change_read_state read_none read_pending = (true, { s with rstate := read_pending }) :=
  if_pos h

theorem change_read_state_some {s : BaseTransport ι} (h : s.rstate ≠ read_none) :
    s.change_read_state read_none read_pending = (false, s) :=
  if_neg h

variable (k) in
/-- A thread does not begin to read unless a read becomes pending. -/
theorem excess_of_action (s : BaseTransport ι) (ok : Bool) (n : Int) (pc : TransportPc) :
    (s.action k ok n pc).1.reader + (s.action k ok n pc).2.excess ≤ pc.reader + s.excess := by
  -- only a thread that is about to read changes what is counted
  by_cases habout : pc.about_reading
  · cases pc with
    | read_check | read_opt | read_started | read_unread | data_wait | data_read =>
      simp only [action]
      repeat' split
      all_goals
        simp only [TransportPc.reader]
        show _ + s.excess ≤ _ + s.excess
        omega
    | read_change =>
      by_cases hnone : s.rstate = read_none
      · -- the read becomes pending
        have hdue : s.due = 0 := by
          unfold due
          rw [hnone]
          rfl
        have hexcess : ({ s with rstate := read_pending } : BaseTransport ι).excess =
            s.excess - 1 := by
          show s.armed + s.reads - 1 = s.armed + s.reads - s.due - 1
          omega
        simp only [action, change_read_state_none hnone, hexcess]
        repeat' split
        all_goals
          simp only [TransportPc.reader]
          omega
      · simp only [action, change_read_state_some hnone]
        exact le_refl _
    | read_post =>
      have hreads := s.reads_post_channel_event ok channel_event_read
      obtain ⟨posted, hposted⟩ := s.post_channel_event_eq ok channel_event_read
      simp only [action, TransportPc.reader]
      unfold excess
      have harmed : (s.post_channel_event ok channel_event_read).armed = s.armed := by
        rw [hposted]
        rfl
      have hdue : (s.post_channel_event ok channel_event_read).due = s.due := by
        rw [hposted]
        rfl
      omega
    | read_start =>
      have harmed := s.armed_start_read_tracker ok
      simp only [action, TransportPc.reader]
      show 0 + ((s.start_read_tracker ok).2.armed + s.reads - s.due) ≤ 1 + (s.armed + s.reads - s.due)
      omega
    | data_start size =>
      have harmed := s.armed_start_read_tracker ok
      simp only [action]
      repeat' split
      all_goals
        simp only [TransportPc.reader]
        show 0 + ((s.start_read_tracker ok).2.armed + s.reads - s.due) ≤
          1 + (s.armed + s.reads - s.due)
        omega
    | data_change size =>
      have hdue := s.due_le_one
      have hnonneg : 0 ≤ (s.change_read_state read_pending read_none).2.due := by
        unfold due
        split
        · exact zero_le_one
        · exact le_refl _
      obtain ⟨rstate, hr⟩ := s.change_read_state_eq read_pending read_none
      simp only [action, TransportPc.reader]
      unfold excess
      have harmed : (s.change_read_state read_pending read_none).2.armed = s.armed := by
        rw [hr]
        rfl
      have hreads : (s.change_read_state read_pending read_none).2.reads = s.reads := by
        rw [hr]
        rfl
      omega
    | _ => exact habout.elim
  · have hsame := sameRead_of_action k s ok n habout
    rw [TransportPc.reader_eq_zero habout,
      TransportPc.reader_eq_zero (not_about_reading_of_action k s ok n habout)]
    unfold excess
    rw [hsame.armed, hsame.due, hsame.reads_eq]

variable (k) in
/-- A thread asks for a read in a transport that is started. -/
theorem asks_of_action (s : BaseTransport ι) (ok : Bool) (n : Int) (pc : TransportPc)
    (h : (s.action k ok n pc).1.asks) : pc.asks ∨ s.state = state_started := by
  by_cases habout : pc.about_reading
  · cases pc with
    | read_opt | read_started | read_change => exact Or.inl trivial
    | read_check =>
      simp only [action] at h
      split at h
      · next hst => exact Or.inr hst
      · exact h.elim
    | read_unread | read_post | read_start | data_wait | data_read | data_change | data_start =>
      simp only [action] at h
      repeat' split at h
      all_goals exact h.elim
    | _ => exact habout.elim
  · exact absurd h (TransportPc.not_asks (not_about_reading_of_action k s ok n habout))

variable (k) in
/-- A read becomes pending where a thread asks for it. -/
theorem rstate_of_action (s : BaseTransport ι) (ok : Bool) (n : Int) (pc : TransportPc)
    (h : (s.action k ok n pc).2.rstate ≠ read_none) : pc.asks ∨ s.rstate ≠ read_none := by
  by_cases habout : pc.about_reading
  · cases pc with
    | read_change => exact Or.inl trivial
    | data_change size =>
      right
      intro hnone
      apply h
      simp only [action, change_read_state]
      rw [if_neg]
      · exact hnone
      · rw [hnone]
        simp
    | read_post =>
      obtain ⟨posted, hposted⟩ := s.post_channel_event_eq ok channel_event_read
      simp only [action, hposted] at h
      exact Or.inr h
    | read_check | read_opt | read_started | read_unread | read_start | data_wait | data_read
    | data_start => exact Or.inr h
    | _ => exact habout.elim
  · rw [(sameRead_of_action k s ok n habout).rstate] at h
    exact Or.inr h

variable (k) in
theorem rmode_of_action (s : BaseTransport ι) (ok : Bool) (n : Int) (pc : TransportPc) :
    (s.action k ok n pc).2.rmode = s.rmode ∨ s.state = state_none := by
  have hset := s.set_state_frame (P := fun s' => s'.rmode = s.rmode) fun _ => rfl
  have hread := s.change_read_state_frame (P := fun s' => s'.rmode = s.rmode) fun _ => rfl
  have hpost := s.post_channel_event_frame (P := fun s' => s'.rmode = s.rmode)
    (fun _ => rfl) ok
  have hflow := s.flow_send_frame (P := fun s' => s'.rmode = s.rmode) (fun _ _ => rfl) n
  have hqueue := s.sendlist_step_frame (P := fun s' => s'.rmode = s.rmode)
    (fun _ _ => rfl) ok
  cases pc with
  | start_state mode sent_cb =>
    by_cases hst : s.state = state_none
    · exact Or.inr hst
    · left
      simp [action, set_state, hst]
  | start_stages rest =>
    left
    rcases rest with _ | ⟨st, rest⟩
    · rfl
    · rfl
  | once_size | once_want | flow_send | handle_sent =>
    left
    simp only [action]
    repeat' split
    all_goals
      first
      | rfl
      | exact hflow _
      | exact hpost _
  | _ =>
    left
    simp only [action, hset, hread, hpost, hqueue]
    try rfl

variable (k) in
theorem armed_of_action (s : BaseTransport ι) (ok : Bool) (n : Int) (pc : TransportPc)
    (h : (s.action k ok n pc).2.armed = 1) : s.armed = 1 ∨ pc.arming := by
  by_cases habout : pc.about_reading
  · cases pc with
    | read_start | data_start => exact Or.inr trivial
    | read_check | read_opt | read_started | read_unread | data_wait | data_read =>
      exact Or.inl h
    | read_post =>
      obtain ⟨posted, hposted⟩ := s.post_channel_event_eq ok channel_event_read
      simp only [action, hposted] at h
      exact Or.inl h
    | read_change =>
      obtain ⟨r, hr⟩ := s.change_read_state_eq read_none read_pending
      simp only [action, hr] at h
      exact Or.inl h
    | data_change size =>
      obtain ⟨r, hr⟩ := s.change_read_state_eq read_pending read_none
      simp only [action, hr] at h
      exact Or.inl h
    | _ => exact habout.elim
  · rw [(sameRead_of_action k s ok n habout).armed] at h
    exact Or.inl h

variable (k) in
theorem reads_of_action (s : BaseTransport ι) (ok : Bool) (n : Int) (pc : TransportPc) :
    (s.action k ok n pc).2.reads = s.reads ∨ pc.posting := by
  by_cases habout : pc.about_reading
  · cases pc with
    | read_unread | read_post => exact Or.inr trivial
    | read_check | read_opt | read_started | read_start | data_start | data_wait | data_read =>
      exact Or.inl rfl
    | read_change =>
      obtain ⟨r, hr⟩ := s.change_read_state_eq read_none read_pending
      simp only [action, hr]
      exact Or.inl rfl
    | data_change size =>
      obtain ⟨r, hr⟩ := s.change_read_state_eq read_pending read_none
      simp only [action, hr]
      exact Or.inl rfl
    | _ => exact habout.elim
  · exact Or.inl (sameRead_of_action k s ok n habout).reads_eq

/-- How a thread of a `tls_transport` comes to arm the read tracker. -/
theorem arming_of_action (s : BaseTransport ι) (ok : Bool) (n : Int) (pc : TransportPc)
    (h : (s.action .tls ok n pc).1.arming) :
    (pc = .read_unread ∧ ok = false) ∨ (pc = .read_change ∧ s.rmode = read_mode_loop) ∨
      (pc = .data_read ∧ (n < 0 ∨ s.rmode ≠ read_mode_once)) := by
  by_cases habout : pc.about_reading
  · cases pc with
    | read_unread =>
      left
      cases ok
      · exact ⟨rfl, rfl⟩
      · exact h.elim
    | read_change =>
      right
      left
      simp only [action, true_and] at h
      split at h
      · exact h.elim
      · split at h
        · exact h.elim
        · next hloop => exact ⟨rfl, not_not.mp hloop⟩
    | data_read =>
      right
      right
      simp only [action] at h
      split at h
      · split at h
        · exact h.elim
        · next honce => exact ⟨rfl, Or.inr honce⟩
      · split at h
        · next hagain => exact ⟨rfl, Or.inl hagain.1⟩
        · exact h.elim
    | read_check | read_opt | read_started | read_post | read_start | data_wait | data_change
    | data_start =>
      simp only [action] at h
      repeat' split at h
      all_goals exact h.elim
    | _ => exact habout.elim
  · have hnot := not_about_reading_of_action .tls s ok n habout
    have hreader := TransportPc.reader_of_arming h
    rw [TransportPc.reader_eq_zero hnot] at hreader
    cases hreader

/-- How it comes to ask whether there is unread data. -/
theorem posting_of_action (s : BaseTransport ι) (ok : Bool) (n : Int) (pc : TransportPc)
    (h : (s.action .tls ok n pc).1.posting) :
    pc.posting ∨ (pc = .read_change ∧ s.rmode ≠ read_mode_loop) := by
  by_cases habout : pc.about_reading
  · cases pc with
    | read_unread | read_post => exact Or.inl trivial
    | read_change =>
      right
      simp only [action, true_and] at h
      split at h
      · exact h.elim
      · split at h
        · next hloop => exact ⟨rfl, hloop⟩
        · exact h.elim
    | read_check | read_opt | read_started | read_start | data_wait | data_read | data_change
    | data_start =>
      simp only [action] at h
      repeat' split at h
      all_goals exact h.elim
    | _ => exact habout.elim
  · have hnot := not_about_reading_of_action .tls s ok n habout
    have hreader := TransportPc.reader_of_posting h
    rw [TransportPc.reader_eq_zero hnot] at hreader
    cases hreader

variable (k) in
theorem reader_of_action (s : BaseTransport ι) (ok : Bool) (n : Int) (pc : TransportPc)
    (h : (s.action k ok n pc).1.reader = 1) : pc.reader = 1 ∨ pc = .read_change := by
  by_cases habout : pc.about_reading
  · cases pc with
    | read_unread | read_post | read_start | data_wait | data_read | data_change | data_start =>
      exact Or.inl rfl
    | read_change => exact Or.inr rfl
    | read_check | read_started =>
      simp only [action] at h
      split at h
      · cases h
      · cases h
    | read_opt =>
      simp only [action] at h
      split at h
      · cases h
      · cases h
    | _ => exact habout.elim
  · rw [TransportPc.reader_eq_zero (not_about_reading_of_action k s ok n habout)] at h
    cases h

/-- A new transport does not come back. -/
theorem Move.not_none {pc pc' : TransportPc} {st st' : TransportState} (h : Move k pc st st' pc') :
    st' ≠ state_none := by
  cases h <;> exact nofun

theorem state_none_of_action {s : BaseTransport ι} {ok : Bool} {n : Int} {pc : TransportPc}
    (h : (s.action k ok n pc).2.state = state_none) : s.state = state_none := by
  rcases action_state k s ok n pc with ⟨hstate, -⟩ | hmove
  · exact hstate.symm.trans h
  · exact absurd h hmove.not_none

/-! ## Section 2: The invariant -/

/-- At most one thread reads, or is made to, and only while a read is pending. -/
structure ReaderInv (s : BaseTransport ι) : Prop where
  one : ∃ w, Total (fun i => (s.pcs i).reader) w ∧ w + s.excess ≤ 0
  fresh : s.state = state_none → s.rstate = read_none ∧ ∀ i, ¬ (s.pcs i).asks

theorem new_readerInv : ReaderInv (new : BaseTransport ι) :=
  ⟨⟨0, Total.start fun _ => rfl, le_refl _⟩, fun _ => ⟨rfl, fun _ h => h⟩⟩

variable [DecidableEq ι]

/-- The thread that reads is the only one, and nobody else is made to. -/
theorem ReaderInv.apart {s : BaseTransport ι} (h : ReaderInv s) {i : ι}
    (hi : (s.pcs i).reader = 1) :
    s.armed = 0 ∧ s.reads = 0 ∧ ∀ j, j ≠ i → (s.pcs j).reader = 0 := by
  obtain ⟨w, htotal, hle⟩ := h.one
  have hnonneg : ∀ j, 0 ≤ (s.pcs j).reader := fun j => (s.pcs j).reader_nonneg
  have hone := htotal.le hnonneg i
  have hdue := s.due_le_one
  have hreads := s.reads_nonneg
  have harmed := s.armed_cases
  have hexcess : s.excess = s.armed + s.reads - s.due := rfl
  -- one read is due at most, and the thread has it
  refine ⟨by omega, by omega, ?_⟩
  intro j hji
  have htwo := htotal.add_le hnonneg hji
  have hj := hnonneg j
  omega

/-- Nobody reads before the transport is started. -/
theorem ReaderInv.quiet {s : BaseTransport ι} (h : ReaderInv s) (hst : s.state = state_none) :
    s.armed = 0 ∧ s.reads = 0 ∧ ∀ j, (s.pcs j).reader = 0 := by
  obtain ⟨w, htotal, hle⟩ := h.one
  have hnonneg : ∀ j, 0 ≤ (s.pcs j).reader := fun j => (s.pcs j).reader_nonneg
  have hdue : s.due = 0 := by
    unfold due
    rw [(h.fresh hst).1]
    rfl
  have hreads := s.reads_nonneg
  have harmed := s.armed_cases
  have hexcess : s.excess = s.armed + s.reads - s.due := rfl
  have hsum : 0 ≤ w := by
    obtain ⟨is, -, rfl⟩ := htotal
    exact Finset.sum_nonneg fun j _ => hnonneg j
  refine ⟨by omega, by omega, ?_⟩
  intro j
  have hj := htotal.le hnonneg j
  have hj' := hnonneg j
  omega

/-- A step of thread `i` to `pc`. -/
theorem ReaderInv.keep {s s' : BaseTransport ι} {i : ι} {p : TransportPc} (h : ReaderInv s)
    (hpcs : s'.pcs = Function.update s.pcs i p)
    (hexcess : p.reader + s'.excess ≤ (s.pcs i).reader + s.excess)
    (hstate : s'.state = state_none → s.state = state_none)
    (hrstate : s'.rstate ≠ read_none → (s.pcs i).asks ∨ s.rstate ≠ read_none)
    (hasks : p.asks → (s.pcs i).asks ∨ s.state ≠ state_none) : ReaderInv s' := by
  refine ⟨?_, ?_⟩
  · obtain ⟨w, htotal, hle⟩ := h.one
    refine ⟨w - (s.pcs i).reader + p.reader, ?_, by omega⟩
    rw [hpcs]
    exact htotal.move i p
  · -- the transport is still new, so it was new before the step
    intro hst
    obtain ⟨hnone, hnot⟩ := h.fresh (hstate hst)
    constructor
    · by_contra hne
      rcases hrstate hne with hask | hne'
      · exact hnot i hask
      · exact hne' hnone
    · intro j hj
      rw [hpcs] at hj
      by_cases hji : j = i
      · rw [hji, Function.update_self] at hj
        rcases hasks hj with hask | hne
        · exact hnot i hask
        · exact hne (hstate hst)
      · rw [Function.update_of_ne hji] at hj
        exact hnot j hj

/-- A function was entered: a thread reads where it was made to. -/
structure EnteredReading (s : BaseTransport ι) (i : ι) (pc : TransportPc)
    (s' : BaseTransport ι) : Prop where
  idle : s.pcs i = .idle
  pcs : s'.pcs = Function.update s.pcs i pc
  state : s'.state = s.state
  rmode : s'.rmode = s.rmode
  rstate : s'.rstate = s.rstate
  excess : pc.reader + s'.excess ≤ s.excess
  armed : s'.armed ≤ s.armed
  reads : s'.reads ≤ s.reads
  made : pc.reader = 1 → s.armed = 1 ∨ 0 < s.reads
  outside : ¬ pc.asks ∧ ¬ pc.arming ∧ ¬ pc.posting

/-- The function has nothing to do with reading. -/
theorem enteredReading {s s₀ s' : BaseTransport ι} {i : ι} {pc : TransportPc}
    (h : s₀.enter i pc = some s') (hpcs : s₀.pcs = s.pcs) (hstate : s₀.state = s.state)
    (hrmode : s₀.rmode = s.rmode) (hsame : SameRead s s₀) (hreader : pc.reader = 0)
    (houtside : ¬ pc.asks ∧ ¬ pc.arming ∧ ¬ pc.posting) : EnteredReading s i pc s' := by
  obtain ⟨hidle, rfl⟩ := enter_eq h
  rw [hpcs] at hidle
  have harmed : (s₀.goto i pc).armed = s.armed := hsame.armed
  have hreads : (s₀.goto i pc).reads = s.reads := hsame.reads_eq
  have hdue : (s₀.goto i pc).due = s.due := hsame.due
  have hexcess : (s₀.goto i pc).excess = s.excess := by
    unfold excess
    rw [harmed, hreads, hdue]
  refine ⟨hidle, ?_, hstate, hrmode, hsame.rstate, ?_, harmed.le, hreads.le, ?_, houtside⟩
  · rw [← hpcs]
    rfl
  · rw [hreader, hexcess]
    omega
  · rw [hreader]
    exact nofun

/-- **The steps.** -/
theorem step_reading {s s' : BaseTransport ι} {l : TransportLabel ι} (h : step .tls s l = some s') :
    (∃ i pc, (∀ j ok n, l ≠ .step j ok n) ∧ EnteredReading s i pc s') ∨
      ∃ i ok n, l = .step i ok n ∧
        s' = (s.action .tls ok n (s.pcs i)).2.goto i (s.action .tls ok n (s.pcs i)).1 := by
  have hself : SameRead s s := ⟨rfl, rfl, rfl⟩
  have hout : ¬ TransportPc.asks .idle ∧ ¬ TransportPc.arming .idle ∧ ¬ TransportPc.posting .idle :=
    ⟨id, id, id⟩
  cases l with
  | start i valid mode sent_cb =>
    left
    cases valid
    · exact ⟨i, _, by simp, enteredReading h rfl rfl rfl hself rfl hout⟩
    · exact ⟨i, _, by simp, enteredReading h rfl rfl rfl hself rfl hout⟩
  | stop i => exact Or.inl ⟨i, _, by simp, enteredReading h rfl rfl rfl hself rfl hout⟩
  | force_stop i => exact Or.inl ⟨i, _, by simp, enteredReading h rfl rfl rfl hself rfl hout⟩
  | async_read i => exact Or.inl ⟨i, _, by simp, enteredReading h rfl rfl rfl hself rfl hout⟩
  | send i size copied =>
    left
    simp only [step] at h
    split at h
    · split at h
      · exact ⟨i, _, by simp, enteredReading h rfl rfl rfl ⟨rfl, rfl, rfl⟩ rfl hout⟩
      · exact ⟨i, _, by simp, enteredReading h rfl rfl rfl ⟨rfl, rfl, rfl⟩ rfl hout⟩
    · cases h
  | read_event i =>
    left
    simp only [step] at h
    split at h
    · next harmed =>
      -- the tracker is idle again, and the thread reads in its place
      obtain ⟨hidle, rfl⟩ := enter_eq h
      have hone : s.armed = 1 := if_pos harmed
      have hzero : (({ s with r_tracker := tracker_idle } : BaseTransport ι).goto i
          .data_wait).armed = 0 := rfl
      refine ⟨i, _, by simp, hidle, rfl, rfl, rfl, rfl, ?_, ?_, le_refl _, fun _ => Or.inl hone, hout⟩
      · show 1 + (0 + s.reads - s.due) ≤ s.armed + s.reads - s.due
        omega
      · rw [hzero, hone]
        exact zero_le_one
    · cases h
  | send_event i =>
    left
    simp only [step] at h
    split at h
    · exact ⟨i, _, by simp, enteredReading h rfl rfl rfl ⟨rfl, rfl, rfl⟩ rfl hout⟩
    · cases h
  | channel_event i ev =>
    left
    simp only [step] at h
    split at h
    · next hmem =>
      by_cases hev : ev = channel_event_read
      · -- one of the posted reads is taken
        rw [hev] at h hmem
        simp only [if_true] at h
        obtain ⟨hidle, rfl⟩ := enter_eq h
        have hcount : (s.posted.erase channel_event_read).count channel_event_read =
            s.posted.count channel_event_read - 1 := List.count_erase_self
        have hpos := List.count_pos_iff.mpr hmem
        have hreads : (({ s with posted := s.posted.erase channel_event_read } :
            BaseTransport ι).goto i .data_wait).reads = s.reads - 1 := by
          show ((s.posted.erase channel_event_read).count channel_event_read : ℤ) =
            s.posted.count channel_event_read - 1
          rw [hcount]
          omega
        refine ⟨i, _, by simp, hidle, rfl, rfl, rfl, rfl, ?_, le_refl _, ?_, fun _ => Or.inr ?_, hout⟩
        · show 1 + (s.armed + _ - s.due) ≤ s.armed + s.reads - s.due
          rw [hreads]
          omega
        · rw [hreads]
          omega
        · show (0 : ℤ) < s.posted.count channel_event_read
          omega
      · have hcount : (s.posted.erase ev).count channel_event_read =
            s.posted.count channel_event_read := List.count_erase_of_ne (Ne.symm hev)
        cases ev with
        | channel_event_disconnected =>
          exact ⟨i, _, by simp, enteredReading h rfl rfl rfl ⟨rfl, rfl, hcount⟩ rfl hout⟩
        | channel_event_buffer_sent iob =>
          exact ⟨i, _, by simp, enteredReading h rfl rfl rfl ⟨rfl, rfl, hcount⟩ rfl hout⟩
        | channel_event_read => exact absurd rfl hev
    · cases h
  | step i ok n =>
    cases h
    exact Or.inr ⟨i, ok, n, rfl, rfl⟩

theorem readerInv_step {s s' : BaseTransport ι} {l : TransportLabel ι} (hinv : ReaderInv s)
    (h : step .tls s l = some s') : ReaderInv s' := by
  rcases step_reading h with ⟨i, pc, -, he⟩ | ⟨i, ok, n, -, rfl⟩
  · apply hinv.keep he.pcs
    · rw [he.idle]
      show _ ≤ 0 + s.excess
      rw [zero_add]
      exact he.excess
    · rw [he.state]
      exact id
    · rw [he.rstate]
      exact Or.inr
    · intro hasks
      exact absurd hasks he.outside.1
  · apply hinv.keep (i := i) (p := (s.action .tls ok n (s.pcs i)).1)
    · show Function.update (s.action .tls ok n (s.pcs i)).2.pcs i _ = _
      rw [(action_recorded .tls s ok n (s.pcs i)).pcs]
    · exact excess_of_action .tls s ok n (s.pcs i)
    · exact state_none_of_action
    · exact rstate_of_action .tls s ok n (s.pcs i)
    · intro hasks
      rcases asks_of_action .tls s ok n (s.pcs i) hasks with hask | hst
      · exact Or.inl hask
      · right
        rw [hst]
        exact nofun

end BaseTransport

end Pump
