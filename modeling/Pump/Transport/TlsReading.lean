import Pump.Transport.OneReader

/-! # What TLS has decrypted

    `SSL_read` takes a record off the socket as a whole, and hands out what it
    has decrypted in pieces of the size that is asked for. The poller only
    looks at the socket. So what is decrypted has to be read before the read
    tracker is armed: `async_read` asks for it in read mode once.

    A `tls_transport` is the transport with its TLS session, which decides
    what `tls_read` and `tls_has_unread_data` return. -/

namespace Pump

open TransportState ErrorCode ChannelEvent Tracker ReadMode ReadState

/-! ## Section 1: Model -/

/-- What there is on the socket when `SSL_read` looks: a record of a size, not
    a whole record, or the end. -/
inductive Incoming where
  | record (size : Nat)
  | again
  | closed
  deriving DecidableEq, Repr

/-- `max_tcp_buffer_size`. -/
def max_tcp_buffer_size : Nat := 4096

/-- `tls_has_unread_data`, with `unread` decrypted bytes. -/
def tls_has_unread_data (unread : Nat) : Bool := 0 < unread

/-- The bytes that `SSL_read` can hand out. -/
def decrypted (unread : Nat) : Incoming → Nat
  | .record size => if unread = 0 then size else unread
  | _ => unread

/-- `tls_read` of up to `size` bytes: what it returns, and the decrypted bytes
    that are left. -/
def tls_read (unread : Nat) (incoming : Incoming) (size : Nat) : Int × Nat :=
  if 0 < decrypted unread incoming then
    (min (decrypted unread incoming) size, decrypted unread incoming - size)
  else (if incoming = .closed then 0 else -1, 0)

/-- A `tls_transport` with the decrypted bytes of its session. -/
structure TlsTransport (ι : Type) where
  base : BaseTransport ι
  unread : Nat

namespace TlsTransport

variable {ι : Type} [DecidableEq ι]

/-- A new transport with what its handshake has decrypted. -/
def new (unread : Nat) : TlsTransport ι := ⟨.new, unread⟩

/-- The outcomes that the session decides. -/
def outcome (s : TlsTransport ι) (incoming : Incoming) : TransportLabel ι → TransportLabel ι
  | .step i ok n =>
    match s.base.pcs i with
    | .read_unread => .step i (tls_has_unread_data s.unread) n
    | .data_read => .step i ok (tls_read s.unread incoming max_tcp_buffer_size).1
    | _ => .step i ok n
  | l => l

/-- The decrypted bytes after a step. -/
def left (s : TlsTransport ι) (incoming : Incoming) : TransportLabel ι → Nat
  | .step i _ _ =>
    if s.base.pcs i = .data_read then (tls_read s.unread incoming max_tcp_buffer_size).2
    else s.unread
  | _ => s.unread

/-- A step of the transport, with what there is on the socket. -/
def step (s : TlsTransport ι) (l : TransportLabel ι × Incoming) : Option (TlsTransport ι) :=
  (s.base.step .tls (s.outcome l.2 l.1)).map fun base => ⟨base, s.left l.2 l.1⟩

end TlsTransport

namespace TlsTransport

variable {ι : Type}

/-! ## Section 2: Nothing is left unread -/

/-- The read tracker is not armed over decrypted data, unless a read is posted. -/
def NeverStalls (s : TlsTransport ι) : Prop :=
  s.base.r_tracker = tracker_tracking → channel_event_read ∉ s.base.posted → s.unread = 0

/-- The condition on a step: reading by loop, a record fits into the buffer,
    and there is nothing unread where `async_read` arms the tracker. -/
def RecordsFit (s : TlsTransport ι) (l : TransportLabel ι × Incoming) : Prop :=
  match l.1 with
  | .step i _ _ =>
    s.base.rmode = read_mode_loop →
      (s.base.pcs i = .data_read →
        ∀ size, l.2 = .record size → size ≤ max_tcp_buffer_size) ∧
      (s.base.pcs i = .read_change → s.unread = 0)
  | _ => True

/-- Nothing is unread where the tracker is armed, or is to be; and never while
    a thread reads by loop. -/
structure StallInv (s : TlsTransport ι) : Prop where
  reader : s.base.ReaderInv
  armed : s.base.rmode ≠ read_mode_none → s.base.armed = 1 → s.unread = 0
  arming : s.base.rmode ≠ read_mode_none → ∀ i, (s.base.pcs i).arming → s.unread = 0
  loop : s.base.rmode = read_mode_loop → s.base.reads = 0 ∧
    ∀ i, ¬ (s.base.pcs i).posting ∧ ((s.base.pcs i).reader = 1 → s.unread = 0)

theorem tls_read_again {unread : Nat} {incoming : Incoming} {size : Nat}
    (h : (tls_read unread incoming size).1 < 0) : (tls_read unread incoming size).2 = 0 := by
  unfold tls_read at h ⊢
  split
  · next hpos =>
    rw [if_pos hpos] at h
    simp only at h
    omega
  · rfl

theorem tls_read_whole {incoming : Incoming}
    (h : ∀ size, incoming = .record size → size ≤ max_tcp_buffer_size) :
    (tls_read 0 incoming max_tcp_buffer_size).2 = 0 := by
  unfold tls_read
  split
  · cases incoming with
    | record size =>
      have hle := h size rfl
      simp only [decrypted, if_true]
      omega
    | again | closed => rfl
  · rfl

theorem new_stallInv (unread : Nat) : StallInv (new unread : TlsTransport ι) := by
  refine ⟨BaseTransport.new_readerInv, ?_, ?_, ?_⟩
  · exact fun h => absurd rfl h
  · exact fun h => absurd rfl h
  · exact nofun

variable [DecidableEq ι]

/-- A function was entered. -/
theorem StallInv.enter {s : TlsTransport ι} {base : BaseTransport ι} {i : ι} {pc : TransportPc}
    (h : StallInv s) (he : BaseTransport.EnteredReading s.base i pc base)
    (hreader : base.ReaderInv) : StallInv ⟨base, s.unread⟩ := by
  -- only the thread that enters is at another place
  have hcases : ∀ j, (j = i ∧ base.pcs j = pc) ∨ base.pcs j = s.base.pcs j := by
    intro j
    rw [he.pcs]
    by_cases hji : j = i
    · left
      rw [hji, Function.update_self]
      exact ⟨rfl, rfl⟩
    · right
      rw [Function.update_of_ne hji]
  refine ⟨hreader, ?_, ?_, ?_⟩
  · intro hmode harmed
    apply h.armed (he.rmode ▸ hmode)
    have hle := he.armed
    have hcases := s.base.armed_cases
    simp only at harmed
    omega
  · intro hmode j hj
    rcases hcases j with ⟨-, hpc⟩ | hpc
    · simp only [hpc] at hj
      exact absurd hj he.outside.2.1
    · simp only [hpc] at hj
      exact h.arming (he.rmode ▸ hmode) j hj
  · intro hmode
    obtain ⟨hreads, hall⟩ := h.loop (he.rmode ▸ hmode)
    constructor
    · have hle := he.reads
      have hnonneg := base.reads_nonneg
      simp only
      omega
    · intro j
      rcases hcases j with ⟨-, hpc⟩ | hpc
      · simp only [hpc]
        refine ⟨he.outside.2.2, ?_⟩
        intro hread
        rcases he.made hread with harmed | hposted
        · apply h.armed _ harmed
          rw [← he.rmode]
          simp only at hmode
          rw [hmode]
          exact nofun
        · omega
      · simp only [hpc]
        exact hall j

/-- A step of a thread that does not call `tls_read`. -/
theorem StallInv.others {s : TlsTransport ι} {i : ι} {ok : Bool} {n : Int} (h : StallInv s)
    (hpc : s.base.pcs i ≠ .data_read)
    (hunread : s.base.pcs i = .read_unread → ok = tls_has_unread_data s.unread)
    (hfits : s.base.rmode = read_mode_loop → s.base.pcs i = .read_change → s.unread = 0)
    (hreader : ((s.base.action .tls ok n (s.base.pcs i)).2.goto i
      (s.base.action .tls ok n (s.base.pcs i)).1).ReaderInv) :
    StallInv ⟨(s.base.action .tls ok n (s.base.pcs i)).2.goto i
      (s.base.action .tls ok n (s.base.pcs i)).1, s.unread⟩ := by
  obtain ⟨pc, hpc'⟩ : ∃ pc, pc = s.base.pcs i := ⟨_, rfl⟩
  obtain ⟨r, hr⟩ : ∃ r, r = s.base.action .tls ok n pc := ⟨_, rfl⟩
  have hpcs : r.2.pcs = s.base.pcs := by
    rw [hr]
    exact (BaseTransport.action_recorded .tls s.base ok n pc).pcs
  have harmed := BaseTransport.armed_of_action .tls s.base ok n pc
  have hreads := BaseTransport.reads_of_action .tls s.base ok n pc
  have harming := BaseTransport.arming_of_action s.base ok n pc
  have hposting := BaseTransport.posting_of_action s.base ok n pc
  have hread := BaseTransport.reader_of_action .tls s.base ok n pc
  have hrmode := BaseTransport.rmode_of_action .tls s.base ok n pc
  rw [← hpc'] at hpc hunread hfits hreader ⊢
  rw [← hr] at hreader harmed hreads harming hposting hread hrmode ⊢
  have hcases : ∀ j, (j = i ∧ (r.2.goto i r.1).pcs j = r.1) ∨
      (r.2.goto i r.1).pcs j = s.base.pcs j := by
    intro j
    show (j = i ∧ Function.update r.2.pcs i r.1 j = r.1) ∨ Function.update r.2.pcs i r.1 j = _
    rw [hpcs]
    by_cases hji : j = i
    · left
      rw [hji, Function.update_self]
      exact ⟨rfl, rfl⟩
    · right
      rw [Function.update_of_ne hji]
  -- what arms the tracker next knows that nothing is unread
  have hown : s.base.rmode ≠ read_mode_none → r.1.arming → s.unread = 0 := by
    intro _ hj
    rcases harming hj with ⟨hp, hok⟩ | ⟨hp, hloop⟩ | ⟨hp, -⟩
    · have hzero := hunread hp
      rw [hok] at hzero
      simpa [tls_has_unread_data] using hzero.symm
    · exact hfits hloop hp
    · exact absurd hp hpc
  rcases Decidable.eq_or_ne s.base.state state_none with hst | hst
  · -- nobody reads yet
    obtain ⟨hno_arm, hno_reads, hno_reader⟩ := h.reader.quiet hst
    have hno_asks := (h.reader.fresh hst).2
    have hpc_reader : pc.reader = 0 := by
      rw [hpc']
      exact hno_reader i
    have hnot_arming : ¬ pc.arming := by
      intro ha
      rw [TransportPc.reader_of_arming ha] at hpc_reader
      cases hpc_reader
    have hnot_posting : ¬ pc.posting := by
      intro ha
      rw [TransportPc.reader_of_posting ha] at hpc_reader
      cases hpc_reader
    have hnot_change : pc ≠ .read_change := by
      intro hp
      apply hno_asks i
      rw [← hpc', hp]
      trivial
    have hown_reader : r.1.reader ≠ 1 := by
      intro hone
      rcases hread hone with hone | hp
      · omega
      · exact hnot_change hp
    refine ⟨hreader, ?_, ?_, ?_⟩
    · intro _ ha
      rcases harmed ha with ha | ha
      · omega
      · exact absurd ha hnot_arming
    · intro _ j hj
      rcases hcases j with ⟨-, hp⟩ | hp
      · simp only [hp] at hj
        exact absurd (TransportPc.reader_of_arming hj) hown_reader
      · simp only [hp] at hj
        have hone := TransportPc.reader_of_arming hj
        have hzero := hno_reader j
        omega
    · intro _
      constructor
      · rcases hreads with hreads | hp
        · show r.2.reads = 0
          rw [hreads]
          exact hno_reads
        · exact absurd hp hnot_posting
      · intro j
        rcases hcases j with ⟨-, hp⟩ | hp
        · simp only [hp]
          refine ⟨?_, fun hone => absurd hone hown_reader⟩
          intro hj
          exact hown_reader (TransportPc.reader_of_posting hj)
        · simp only [hp]
          have hzero := hno_reader j
          refine ⟨?_, fun hone => by omega⟩
          intro hj
          have hone := TransportPc.reader_of_posting hj
          omega
  · have hmode : r.2.rmode = s.base.rmode := hrmode.resolve_right hst
    refine ⟨hreader, ?_, ?_, ?_⟩
    · intro hm ha
      have hm' : s.base.rmode ≠ read_mode_none := hmode ▸ hm
      rcases harmed ha with ha | ha
      · exact h.armed hm' ha
      · exact h.arming hm' i (hpc' ▸ ha)
    · intro hm j hj
      have hm' : s.base.rmode ≠ read_mode_none := hmode ▸ hm
      rcases hcases j with ⟨-, hp⟩ | hp
      · simp only [hp] at hj
        exact hown hm' hj
      · simp only [hp] at hj
        exact h.arming hm' j hj
    · intro hm
      have hm' : s.base.rmode = read_mode_loop := hmode ▸ hm
      obtain ⟨hzero, hall⟩ := h.loop hm'
      obtain ⟨hnot_posting, hreader_zero⟩ := hall i
      rw [← hpc'] at hnot_posting hreader_zero
      constructor
      · show r.2.reads = 0
        rw [hreads.resolve_right hnot_posting]
        exact hzero
      · intro j
        rcases hcases j with ⟨-, hp⟩ | hp
        · simp only [hp]
          constructor
          · intro hj
            rcases hposting hj with hj | ⟨-, hne⟩
            · exact hnot_posting hj
            · exact hne hm'
          · intro hone
            rcases hread hone with hone | hp
            · exact hreader_zero hone
            · exact hfits hm' hp
        · simp only [hp]
          exact hall j

/-- A thread calls `tls_read`. Nobody else reads, and nothing else makes
    someone read. -/
theorem StallInv.data_read {s : TlsTransport ι} {i : ι} {ok : Bool} {incoming : Incoming}
    (h : StallInv s) (hpc : s.base.pcs i = .data_read)
    (hfits : s.base.rmode = read_mode_loop →
      ∀ size, incoming = .record size → size ≤ max_tcp_buffer_size)
    (hreader : ((s.base.action .tls ok (tls_read s.unread incoming max_tcp_buffer_size).1
      (s.base.pcs i)).2.goto i (s.base.action .tls ok
        (tls_read s.unread incoming max_tcp_buffer_size).1 (s.base.pcs i)).1).ReaderInv) :
    StallInv ⟨(s.base.action .tls ok (tls_read s.unread incoming max_tcp_buffer_size).1
      (s.base.pcs i)).2.goto i (s.base.action .tls ok
        (tls_read s.unread incoming max_tcp_buffer_size).1 (s.base.pcs i)).1,
      (tls_read s.unread incoming max_tcp_buffer_size).2⟩ := by
  obtain ⟨n, hn⟩ : ∃ n, n = (tls_read s.unread incoming max_tcp_buffer_size).1 := ⟨_, rfl⟩
  obtain ⟨pc, hp⟩ : ∃ pc, pc = (s.base.action .tls ok n .data_read).1 := ⟨_, rfl⟩
  have harming := BaseTransport.arming_of_action s.base ok n .data_read
  have hposting := BaseTransport.posting_of_action s.base ok n .data_read
  rw [← hn, hpc] at hreader ⊢
  rw [← hp] at harming hposting
  -- the transport itself is as it was
  have hbase : (s.base.action .tls ok n .data_read).2 = s.base := rfl
  rw [hbase, ← hp] at hreader ⊢
  obtain ⟨hno_arm, hno_reads, hothers⟩ := h.reader.apart (i := i) (by rw [hpc]; rfl)
  have hleft : s.base.rmode = read_mode_loop →
      (tls_read s.unread incoming max_tcp_buffer_size).2 = 0 := by
    intro hm
    have hzero : s.unread = 0 := by
      apply ((h.loop hm).2 i).2
      rw [hpc]
      rfl
    rw [hzero]
    exact tls_read_whole (hfits hm)
  have hcases : ∀ j, (j = i ∧ (s.base.goto i pc).pcs j = pc) ∨
      (j ≠ i ∧ (s.base.goto i pc).pcs j = s.base.pcs j) := by
    intro j
    show (j = i ∧ Function.update s.base.pcs i pc j = pc) ∨
      (j ≠ i ∧ Function.update s.base.pcs i pc j = _)
    by_cases hji : j = i
    · left
      rw [hji, Function.update_self]
      exact ⟨rfl, rfl⟩
    · right
      rw [Function.update_of_ne hji]
      exact ⟨hji, rfl⟩
  refine ⟨hreader, ?_, ?_, ?_⟩
  · intro _ ha
    have ha' : s.base.armed = 1 := ha
    omega
  · intro hm j hj
    rcases hcases j with ⟨-, hpj⟩ | ⟨hji, hpj⟩
    · simp only [hpj] at hj
      rcases harming hj with ⟨hno, -⟩ | ⟨hno, -⟩ | ⟨-, hneg | honce⟩
      · cases hno
      · cases hno
      · rw [hn] at hneg
        exact tls_read_again hneg
      · apply hleft
        have hm' : s.base.rmode ≠ read_mode_none := hm
        cases hmode : s.base.rmode with
        | read_mode_none => exact absurd hmode hm'
        | read_mode_once => exact absurd hmode honce
        | read_mode_loop => rfl
    · simp only [hpj] at hj
      have hone := TransportPc.reader_of_arming hj
      have hzero := hothers j hji
      omega
  · intro hm
    refine ⟨hno_reads, ?_⟩
    intro j
    rcases hcases j with ⟨-, hpj⟩ | ⟨hji, hpj⟩
    · simp only [hpj]
      refine ⟨?_, fun _ => hleft hm⟩
      intro hj
      rcases hposting hj with hno | ⟨hno, -⟩
      · exact hno
      · cases hno
    · simp only [hpj]
      have hzero := hothers j hji
      refine ⟨?_, fun hone => by omega⟩
      intro hj
      have hone := TransportPc.reader_of_posting hj
      omega

theorem stallInv_step {s s' : TlsTransport ι} {l : TransportLabel ι × Incoming} (h : StallInv s)
    (hok : RecordsFit s l) (hstep : step s l = some s') : StallInv s' := by
  obtain ⟨l, incoming⟩ := l
  obtain ⟨base, hbase, rfl⟩ := Option.map_eq_some_iff.mp hstep
  have hreader := BaseTransport.readerInv_step h.reader hbase
  cases l with
  | step i ok n =>
    have hfits : s.base.rmode = read_mode_loop →
        (s.base.pcs i = .data_read →
          ∀ size, incoming = .record size → size ≤ max_tcp_buffer_size) ∧
        (s.base.pcs i = .read_change → s.unread = 0) := hok
    rcases Decidable.eq_or_ne (s.base.pcs i) .data_read with hpc | hpc
    · have hleft : s.left incoming (.step i ok n) =
          (tls_read s.unread incoming max_tcp_buffer_size).2 := if_pos hpc
      have hout : s.outcome incoming (.step i ok n) =
          .step i ok (tls_read s.unread incoming max_tcp_buffer_size).1 := by
        simp only [outcome, hpc]
      rw [hout] at hbase
      rw [hleft]
      cases hbase
      exact h.data_read hpc (fun hm => (hfits hm).1 hpc) hreader
    · have hleft : s.left incoming (.step i ok n) = s.unread := if_neg hpc
      rw [hleft]
      -- the session only decides what `tls_has_unread_data` returns
      obtain ⟨ok', hout, hunread⟩ : ∃ ok', s.outcome incoming (.step i ok n) = .step i ok' n ∧
          (s.base.pcs i = .read_unread → ok' = tls_has_unread_data s.unread) := by
        simp only [outcome]
        split
        · exact ⟨_, rfl, fun _ => rfl⟩
        · next hp => exact absurd hp hpc
        · next hp _ => exact ⟨ok, rfl, fun h => absurd h hp⟩
      rw [hout] at hbase
      cases hbase
      exact h.others hpc hunread (fun hm hp => (hfits hm).2 hp) hreader
  | _ =>
    rcases BaseTransport.step_reading hbase with ⟨i, pc, -, he⟩ | ⟨i, ok, n, hl, -⟩
    · exact h.enter he hreader
    · cases hl

/-- **Reads do not stall.** In read mode once or loop nothing decrypted waits
    for the socket, in every run in which the records fit that are read by
    loop. -/
theorem run_neverStalls {unread : Nat} {s : TlsTransport ι}
    (h : Reachable step RecordsFit (new unread) s)
    (hmode : s.base.rmode = read_mode_once ∨ s.base.rmode = read_mode_loop) : NeverStalls s := by
  have hinv : StallInv s := by
    apply h.invariant
    · exact new_stallInv unread
    · intro s l s' hinv hok hstep
      exact stallInv_step hinv hok hstep
  intro harmed _
  apply hinv.armed
  · rcases hmode with hm | hm
    · rw [hm]
      exact nofun
    · rw [hm]
      exact nofun
  · exact if_pos harmed

instance (s : TlsTransport ι) : DecidablePred (RecordsFit s) := fun l => by
  unfold RecordsFit
  cases l.1 with
  | step i ok n =>
    simp only
    have : Decidable (∀ size, l.2 = .record size → size ≤ max_tcp_buffer_size) := by
      cases hl : l.2 with
      | record size =>
        apply decidable_of_iff (size ≤ max_tcp_buffer_size)
        constructor
        · intro hle size' heq
          cases heq
          exact hle
        · exact fun hall => hall size rfl
      | again | closed => exact isTrue nofun
    infer_instance
  | _ => exact isTrue trivial

/-- Thread 0 starts the transport and reads, and the read poller finds a record
    of `size` bytes. -/
def record_labels (mode : ReadMode) (size : Nat) : List (TransportLabel (Fin 2) × Incoming) :=
  (BaseTransport.started_labels 0 .tls mode false).map (·, .again) ++
    (TransportLabel.async_read 0, Incoming.again) ::
      List.replicate 8 (TransportLabel.step 0 true 0, Incoming.again) ++
    (TransportLabel.read_event 1, Incoming.again) ::
      List.replicate 4 (TransportLabel.step 1 true 0, Incoming.record size)

theorem run_neverStalls_record :
    ∃ s : TlsTransport (Fin 2), exec step (new 0) (record_labels read_mode_loop 4096) = some s ∧
      s.base.r_tracker = tracker_tracking ∧ s.base.calls = [.read_cb 4096] ∧ NeverStalls s := by
  have hrun : (exec step (new 0 : TlsTransport (Fin 2)) (record_labels read_mode_loop 4096)).map
      (fun s => (s.base.r_tracker, s.base.calls, s.base.rmode)) =
        some (tracker_tracking, [.read_cb 4096], read_mode_loop) := by
    decide
  obtain ⟨s, hexec, hs⟩ := Option.map_eq_some_iff.mp hrun
  simp only [Prod.mk.injEq] at hs
  refine ⟨s, hexec, hs.1, hs.2.1, run_neverStalls (.of_exec hexec ?_) (Or.inr hs.2.2)⟩
  decide

/-- A record that is larger than the buffer. -/
theorem not_run_neverStalls :
    ¬ ∀ (unread : Nat) (s : TlsTransport (Fin 2)), Reachable step AnyStep (new unread) s →
      (s.base.rmode = read_mode_once ∨ s.base.rmode = read_mode_loop) → NeverStalls s := by
  intro hall
  have hrun : (exec step (new 0 : TlsTransport (Fin 2)) (record_labels read_mode_loop 4097)).map
      (fun s => (s.base.r_tracker, s.base.posted, s.base.rmode, s.unread)) =
        some (tracker_tracking, [], read_mode_loop, 1) := by
    decide
  obtain ⟨s, hexec, hs⟩ := Option.map_eq_some_iff.mp hrun
  simp only [Prod.mk.injEq] at hs
  obtain ⟨harmed, hposted, hmode, hunread⟩ := hs
  have hzero := hall 0 s (.of_exec hexec (meets_anyStep _ _ _)) (Or.inr hmode) harmed
    (by rw [hposted]; exact nofun)
  rw [hunread] at hzero
  cases hzero

end TlsTransport

end Pump
