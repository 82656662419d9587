import Pump.Toolkit.Semaphore

/-! # Waiting with a timeout

    `semaphore::wait_with_timeout` and the clock. The deadline is computed
    from the time of day, and `sem_timedwait` refuses one that is no time.
    `TimedSemaphore` is the light semaphore with a clock, which does not go
    back: a wait for the kernel gives up behind its deadline, or at once when
    the deadline is refused. -/

namespace Pump

/-! ## Section 1: The deadline -/

/-- `struct timespec`. -/
structure Timespec where
  tv_sec : Int
  tv_nsec : Int
  deriving DecidableEq

namespace Timespec

/-- The nanoseconds are less than a second. -/
def Valid (ts : Timespec) : Prop := 0 ≤ ts.tv_nsec ∧ ts.tv_nsec < 1000000000

instance (ts : Timespec) : Decidable ts.Valid := inferInstanceAs (Decidable (_ ∧ _))

/-- In nanoseconds. -/
def ns (ts : Timespec) : Int := ts.tv_sec * 1000000000 + ts.tv_nsec

end Timespec

/-- The `ts` that `semaphore::wait_with_timeout` passes to `sem_timedwait`. -/
def wait_deadline (now : Timespec) (timeout_ns : Nat) : Timespec :=
  { tv_sec := (now.tv_sec + (timeout_ns / 1000000000 : Nat)).bmod (2 ^ 64)
    tv_nsec := now.tv_nsec + (timeout_ns % 1000000000 : Nat) }

/-- A valid time, `timeout_ns` from now. -/
def DeadlineRight (now : Timespec) (timeout_ns : Nat) : Prop :=
  (wait_deadline now timeout_ns).Valid ∧
    (wait_deadline now timeout_ns).ns = now.ns + timeout_ns

/-- The nanoseconds have no carry, and the seconds fit in a `time_t`. -/
def NoCarry (now : Timespec) (timeout_ns : Nat) : Prop :=
  now.tv_nsec + (timeout_ns % 1000000000 : Nat) < 1000000000 ∧
    now.tv_sec + (timeout_ns / 1000000000 : Nat) < 2 ^ 63

instance (now : Timespec) (timeout_ns : Nat) : Decidable (NoCarry now timeout_ns) :=
  inferInstanceAs (Decidable (_ ∧ _))

/-- A time that a clock can show. -/
structure Timespec.Shown (now : Timespec) : Prop where
  valid : now.Valid
  low : -2 ^ 63 ≤ now.tv_sec
  high : now.tv_sec < 2 ^ 63

/-- **The deadline.** There is no carry from the nanoseconds. -/
theorem deadline_right_iff {now : Timespec} (hnow : now.Shown) {timeout_ns : Nat}
    (htimeout : timeout_ns < 2 ^ 64) : DeadlineRight now timeout_ns ↔ NoCarry now timeout_ns := by
  obtain ⟨⟨hpos, hlt⟩, hlow, hhigh⟩ := hnow
  have hsplit := Nat.div_add_mod timeout_ns 1000000000
  obtain ⟨q, hq⟩ : ∃ q, q = timeout_ns / 1000000000 := ⟨_, rfl⟩
  obtain ⟨m, hm⟩ : ∃ m, m = timeout_ns % 1000000000 := ⟨_, rfl⟩
  -- far less than `2^63`, so that the sum wraps at most once
  have hqlt : q < 2 ^ 35 := by omega
  rw [← hq, ← hm] at hsplit
  have hbmod : (now.tv_sec + q).bmod (2 ^ 64) =
      if now.tv_sec + q < 2 ^ 63 then now.tv_sec + q else now.tv_sec + q - 2 ^ 64 := by
    rw [Int.bmod_def]
    split
    · split
      · omega
      · omega
    · split
      · omega
      · omega
  unfold DeadlineRight NoCarry wait_deadline Timespec.Valid Timespec.ns
  simp only [← hq, ← hm, hbmod]
  by_cases hfits : now.tv_sec + q < 2 ^ 63
  · rw [if_pos hfits]
    omega
  · -- the seconds wrap, and the deadline lies in the past
    rw [if_neg hfits]
    omega

/-! ## Section 2: The light semaphore with a clock -/

/-- What `clock_gettime` gives, the clock counting nanoseconds. -/
def clock_gettime (clock : Nat) : Timespec :=
  ⟨(clock / 1000000000 : Nat), (clock % 1000000000 : Nat)⟩

theorem clock_gettime_ns (clock : Nat) : (clock_gettime clock).ns = clock := by
  show ((clock / 1000000000 : Nat) : Int) * 1000000000 + (clock % 1000000000 : Nat) = clock
  omega

/-- A deadline without a carry. -/
theorem deadline_of_clock {clock timeout_ns : Nat} (h : NoCarry (clock_gettime clock) timeout_ns)
    (htimeout : timeout_ns < 2 ^ 64) :
    (wait_deadline (clock_gettime clock) timeout_ns).Valid ∧
      (wait_deadline (clock_gettime clock) timeout_ns).ns = clock + timeout_ns := by
  have hshown : (clock_gettime clock).Shown := by
    have hsec : ((clock / 1000000000 : Nat) : Int) + (timeout_ns / 1000000000 : Nat) < 2 ^ 63 := h.2
    refine ⟨⟨Int.natCast_nonneg _, ?_⟩, ?_, ?_⟩
    · show ((clock % 1000000000 : Nat) : Int) < 1000000000
      omega
    · show -2 ^ 63 ≤ ((clock / 1000000000 : Nat) : Int)
      omega
    · show ((clock / 1000000000 : Nat) : Int) < 2 ^ 63
      omega
  have hright := (deadline_right_iff hshown htimeout).mpr h
  rwa [DeadlineRight, clock_gettime_ns] at hright

namespace TimedSemaphore

open LightSemaphore (Pc)

/-- A call of `wait` with a timeout: when it was made, its argument, and the
    `ts` of its wait for the kernel when there is one. -/
structure Call where
  started : Nat
  timeout_ns : Int
  ts : Option Timespec
  deriving DecidableEq

structure State (ι : Type) where
  sem : LightSemaphore.State ι
  clock : Nat
  calls : ι → Option Call

inductive Label (ι : Type) where
  /-- Time passes. -/
  | pass (ns : Nat)
  | act (l : LightSemaphore.Label ι)

variable {ι : Type}

def State.new (max_spin : Int) (init_count clock : Nat) : State ι :=
  ⟨.new max_spin init_count, clock, fun _ => none⟩

variable [DecidableEq ι]

def State.set_call (s : State ι) (i : ι) (call : Option Call) : State ι :=
  { s with calls := Function.update s.calls i call }

/-- A step of the semaphore without the clock. -/
def State.act (s : State ι) (l : LightSemaphore.Label ι) : Option (State ι) :=
  (LightSemaphore.step s.sem l).map fun sem => { s with sem := sem }

/-- How `sem_timedwait` may go on: it gives up at once when the deadline is no
    time, and else behind it only. -/
def MayGo (clock : Nat) (ts : Timespec) (ok : Bool) : Prop :=
  if ts.Valid then ok = true ∨ ts.ns ≤ clock else ok = false

instance (clock : Nat) (ts : Timespec) (ok : Bool) : Decidable (MayGo clock ts ok) := by
  unfold MayGo
  infer_instance

/-- The steps in `semaphore::wait_with_timeout`: the deadline is computed, and
    `sem_timedwait` called with it, again after every interrupt. -/
def timedwait (s : State ι) (i : ι) (ok : Bool) : Option (State ι) :=
  (s.calls i).bind fun call =>
    match call.ts with
    | none =>
      let ts := wait_deadline (clock_gettime s.clock) call.timeout_ns.toNat
      some (s.set_call i (some { call with ts := some ts }))
    | some ts => if MayGo s.clock ts ok then s.act (.step i ok) else none

def step (s : State ι) : Label ι → Option (State ι)
  | .pass ns => some { s with clock := s.clock + ns }
  | .act (.try_wait i) => (s.set_call i none).act (.try_wait i)
  | .act (.wait i) => (s.set_call i none).act (.wait i)
  | .act (.wait_with_timeout i timeout_ns) =>
    -- the timeout is an `int64_t`
    if timeout_ns < 2 ^ 63 then
      (s.set_call i (some ⟨s.clock, timeout_ns, none⟩)).act (.wait_with_timeout i timeout_ns)
    else none
  | .act (.signal i count) => s.act (.signal i count)
  | .act (.step i ok) =>
    if s.sem.pcs i = .kernel_wait_with_timeout then timedwait s i ok else s.act (.step i ok)

/-- The condition on a run: the clock is right for every deadline that is
    computed. -/
def Carryless (s : State ι) : Label ι → Prop
  | .act (.step i _) => s.sem.pcs i = .kernel_wait_with_timeout →
      ∀ call ∈ s.calls i, call.ts = none →
        NoCarry (clock_gettime s.clock) call.timeout_ns.toNat
  | _ => True

instance (s : State ι) : DecidablePred (Carryless s) := fun l => by
  rcases l with _ | l
  · unfold Carryless
    infer_instance
  · apply LightSemaphore.Label.casesOn (motive := fun l => Decidable (Carryless s (.act l))) l <;>
      intros <;> unfold Carryless <;> infer_instance

/-- A step at which a timed wait gives up is not too early: the timeout is
    over, and the counter has no token. -/
def NotShort (s s' : State ι) : Prop :=
  ∀ i call, s.calls i = some call → s.sem.pcs i ≠ .returns false →
    s'.sem.pcs i = .returns false →
      call.started + call.timeout_ns ≤ s.clock ∧ s.sem.count < 0

/-! ## Section 3: What a timed wait has behind it -/

/-- The timeout with which a thread goes on, where its program counter has one. -/
def timeout_of : Pc → Option (Option Int)
  | .try_load timeout | .try_exchange timeout _ => some timeout
  | .spin_load timeout _ | .spin_exchange timeout _ _ | .fetch_sub timeout => some (some timeout)
  | _ => none

/-- The wait for the kernel has failed. -/
def GaveUp : Pc → Prop
  | .adjust_load | .adjust_try_wait _ | .adjust_exchange _ => True
  | _ => False

/-- Invariant of a thread in a timed wait. -/
structure Waiting (clock : Nat) (pc : Pc) (call : Call) : Prop where
  started : call.started ≤ clock
  small : call.timeout_ns < 2 ^ 63
  timeout : ∀ t, timeout_of pc = some t → t = some call.timeout_ns
  kernel : pc = .kernel_wait_with_timeout → 0 ≤ call.timeout_ns
  deadline : ∀ ts, call.ts = some ts → ts.Valid ∧ call.started + call.timeout_ns ≤ ts.ns
  gave_up : GaveUp pc → call.started + call.timeout_ns ≤ clock
  negative : ∀ old_count, pc = .adjust_exchange old_count → old_count < 0

/-- Invariant: of every timed wait. -/
def AllWaiting (s : State ι) : Prop :=
  ∀ i call, s.calls i = some call → Waiting s.clock (s.sem.pcs i) call

/-- A step to a place outside the kernel's wait and of what follows it. -/
theorem Waiting.on {clock : Nat} {pc pc' : Pc} {call : Call} (h : Waiting clock pc call)
    (htimeout : ∀ t, timeout_of pc' = some t → timeout_of pc = some t)
    (hkernel : pc' ≠ .kernel_wait_with_timeout) (hgave : ¬ GaveUp pc') : Waiting clock pc' call := by
  refine ⟨h.started, h.small, fun t ht => h.timeout t (htimeout t ht), fun hpc => absurd hpc hkernel,
    h.deadline, fun hpc => absurd hpc hgave, ?_⟩
  rintro old_count rfl
  exact absurd trivial hgave

theorem spin_next_waits (timeout spin : Int) :
    (∀ t, timeout_of (LightSemaphore.spin_next timeout spin) = some t → some (some timeout) = some t) ∧
      LightSemaphore.spin_next timeout spin ≠ .kernel_wait_with_timeout ∧
      ¬ GaveUp (LightSemaphore.spin_next timeout spin) := by
  unfold LightSemaphore.spin_next
  split
  · exact ⟨fun t ht => ht, nofun, id⟩
  · exact ⟨fun t ht => ht, nofun, id⟩

theorem try_next_waits (max_spin : Int) (timeout : Option Int) (old_count : Int) :
    (∀ t, timeout_of (LightSemaphore.try_next max_spin timeout old_count) = some t →
        some timeout = some t) ∧
      LightSemaphore.try_next max_spin timeout old_count ≠ .kernel_wait_with_timeout ∧
      ¬ GaveUp (LightSemaphore.try_next max_spin timeout old_count) := by
  unfold LightSemaphore.try_next
  split
  · exact ⟨fun t ht => ht, nofun, id⟩
  · rcases timeout with _ | timeout
    · exact ⟨nofun, nofun, id⟩
    · exact spin_next_waits timeout max_spin

omit [DecidableEq ι] in
/-- A step of the thread itself. A wait for the kernel may only fail when the
    timeout is over. -/
theorem action_waiting {clock : Nat} {sem : LightSemaphore.State ι} {pc : Pc} {call : Call}
    {ok : Bool} (h : Waiting clock pc call)
    (hfail : pc = .kernel_wait_with_timeout → ok = false →
      call.started + call.timeout_ns ≤ clock) :
    Waiting clock (LightSemaphore.action sem ok pc).1 call := by
  cases pc with
  | idle => exact h
  | try_load timeout =>
    obtain ⟨htimeout, hkernel, hgave⟩ := try_next_waits sem.max_spin timeout sem.count
    exact h.on htimeout hkernel hgave
  | try_exchange timeout old_count =>
    obtain ⟨htimeout, hkernel, hgave⟩ := try_next_waits sem.max_spin timeout sem.count
    simp only [LightSemaphore.action]
    split
    · exact h.on (by rintro _ ⟨⟩) (by simp) id
    · exact h.on htimeout hkernel hgave
  | spin_load timeout spin =>
    obtain ⟨htimeout, hkernel, hgave⟩ := spin_next_waits timeout spin
    simp only [LightSemaphore.action]
    split
    · exact h.on (fun t ht => ht) (by simp) id
    · exact h.on htimeout hkernel hgave
  | spin_exchange timeout spin old_count =>
    obtain ⟨htimeout, hkernel, hgave⟩ := spin_next_waits timeout spin
    simp only [LightSemaphore.action]
    split
    · exact h.on (by rintro _ ⟨⟩) (by simp) id
    · exact h.on htimeout hkernel hgave
  | fetch_sub timeout =>
    simp only [LightSemaphore.action]
    split
    · exact h.on (by rintro _ ⟨⟩) (by simp) id
    · split
      · exact h.on (by rintro _ ⟨⟩) (by simp) id
      · -- the only way to the kernel's wait
        next hneg =>
        have htimeout := Option.some.inj (h.timeout (some timeout) rfl)
        exact ⟨h.started, h.small, by rintro _ ⟨⟩, fun _ => by omega, h.deadline, by rintro ⟨⟩, by simp⟩
  | kernel_wait =>
    simp only [LightSemaphore.action]
    split
    · exact h.on (by rintro _ ⟨⟩) (by simp) id
    · exact h
  | kernel_wait_with_timeout =>
    simp only [LightSemaphore.action]
    split
    · next hok =>
      have hover := hfail rfl (by simpa using hok)
      exact ⟨h.started, h.small, by rintro _ ⟨⟩, by simp, h.deadline, fun _ => hover, by simp⟩
    · split
      · exact h.on (by rintro _ ⟨⟩) (by simp) id
      · exact h
  | adjust_load =>
    have hover := h.gave_up trivial
    simp only [LightSemaphore.action]
    split
    · exact ⟨h.started, h.small, by rintro _ ⟨⟩, by simp, h.deadline, fun _ => hover, by simp⟩
    · next hneg =>
      refine ⟨h.started, h.small, by rintro _ ⟨⟩, by simp, h.deadline, fun _ => hover, ?_⟩
      -- the exchange is only tried on a negative counter
      intro old_count heq
      cases heq
      exact not_le.mp hneg
  | adjust_try_wait old_count =>
    have hover := h.gave_up trivial
    simp only [LightSemaphore.action]
    split
    · exact h.on (by rintro _ ⟨⟩) (by simp) id
    · exact ⟨h.started, h.small, by rintro _ ⟨⟩, by simp, h.deadline, fun _ => hover, by simp⟩
  | adjust_exchange old_count =>
    have hover := h.gave_up trivial
    simp only [LightSemaphore.action]
    split
    · exact h.on (by rintro _ ⟨⟩) (by simp) id
    · exact ⟨h.started, h.small, by rintro _ ⟨⟩, by simp, h.deadline, fun _ => hover, by simp⟩
  | returns success => exact h.on (by rintro _ ⟨⟩) (by rintro ⟨⟩) id
  | fetch_add count =>
    simp only [LightSemaphore.action]
    split
    · exact h.on (by rintro _ ⟨⟩) (by simp) id
    · exact h.on (by rintro _ ⟨⟩) (by simp) id
  | post count =>
    simp only [LightSemaphore.action]
    split
    · split
      · exact h.on (by rintro _ ⟨⟩) (by simp) id
      · exact h.on (by rintro _ ⟨⟩) (by simp) id
    · exact h

omit [DecidableEq ι] in
theorem action_pcs (sem : LightSemaphore.State ι) (ok : Bool) (pc : Pc) :
    (LightSemaphore.action sem ok pc).2.pcs = sem.pcs := by
  cases pc with
  | idle | try_load | spin_load | fetch_sub | adjust_load | returns | fetch_add => rfl
  | _ =>
    simp only [LightSemaphore.action]
    split_ifs <;> rfl

/-- Where the threads are behind a step of one of them. -/
theorem step_pcs {sem sem' : LightSemaphore.State ι} {i : ι} {ok : Bool}
    (h : LightSemaphore.step sem (.step i ok) = some sem') :
    sem'.pcs = Function.update sem.pcs i (LightSemaphore.action sem ok (sem.pcs i)).1 := by
  cases h
  show Function.update (LightSemaphore.action sem ok (sem.pcs i)).2.pcs i _ = _
  rw [action_pcs]

theorem enter_pcs {sem sem' : LightSemaphore.State ι} {i : ι} {pc : Pc}
    (h : sem.enter i pc = some sem') : sem'.pcs = Function.update sem.pcs i pc := by
  unfold LightSemaphore.State.enter at h
  split at h
  · cases h
    rfl
  · cases h

theorem act_some {s s' : State ι} {l : LightSemaphore.Label ι} (h : s.act l = some s') :
    LightSemaphore.step s.sem l = some s'.sem ∧ s'.clock = s.clock ∧ s'.calls = s.calls := by
  unfold State.act at h
  obtain ⟨sem, hstep, rfl⟩ := Option.map_eq_some_iff.mp h
  exact ⟨hstep, rfl, rfl⟩

/-! ## Section 4: Every run -/

/-- A step of thread `i`, whose call may change. -/
theorem AllWaiting.moved {s s' : State ι} {i : ι} {pc : Pc} (h : AllWaiting s)
    (hclock : s'.clock = s.clock) (hpcs : s'.sem.pcs = Function.update s.sem.pcs i pc)
    (hcalls : ∀ j, j ≠ i → s'.calls j = s.calls j)
    (hself : ∀ call, s'.calls i = some call → Waiting s.clock pc call) : AllWaiting s' := by
  intro j call hcall
  rw [hclock, hpcs]
  by_cases hj : j = i
  · subst hj
    rw [Function.update_self]
    exact hself call hcall
  · rw [Function.update_of_ne hj]
    rw [hcalls j hj] at hcall
    exact h j call hcall

theorem set_call_self (s : State ι) (i : ι) (call : Option Call) :
    (s.set_call i call).calls i = call := by
  show Function.update s.calls i call i = call
  rw [Function.update_self]

theorem set_call_ne (s : State ι) {i j : ι} (call : Option Call) (h : j ≠ i) :
    (s.set_call i call).calls j = s.calls j := by
  show Function.update s.calls i call j = s.calls j
  rw [Function.update_of_ne h]

/-- A call that is no timed wait. -/
theorem AllWaiting.enter {s s' : State ι} {i : ι} {pc : Pc} {l : LightSemaphore.Label ι}
    (h : AllWaiting s) (hact : (s.set_call i none).act l = some s')
    (hl : LightSemaphore.step s.sem l = s.sem.enter i pc) : AllWaiting s' := by
  obtain ⟨hstep, hclock, hcalls⟩ := act_some hact
  have henter : s.sem.enter i pc = some s'.sem := hl.symm.trans hstep
  apply h.moved hclock (enter_pcs henter)
  · intro j hj
    rw [hcalls]
    exact set_call_ne s none hj
  · intro call hcall
    rw [hcalls, set_call_self] at hcall
    cases hcall

theorem allWaiting_step {s s' : State ι} {l : Label ι} (h : AllWaiting s) (hok : Carryless s l)
    (hstep : step s l = some s') : AllWaiting s' := by
  cases l with
  | pass ns =>
    cases hstep
    intro i call hcall
    obtain ⟨hstarted, hsmall, htimeout, hkernel, hdeadline, hgave, hneg⟩ := h i call hcall
    refine ⟨?_, hsmall, htimeout, hkernel, hdeadline, ?_, hneg⟩
    · show call.started ≤ s.clock + ns
      omega
    · intro hpc
      have := hgave hpc
      show call.started + call.timeout_ns ≤ (s.clock + ns : Nat)
      omega
  | act l =>
    cases l with
    | try_wait i => exact h.enter hstep rfl
    | wait i => exact h.enter hstep rfl
    | wait_with_timeout i timeout_ns =>
      simp only [step] at hstep
      split at hstep
      · next hsmall =>
        obtain ⟨henter, hclock, hcalls⟩ := act_some hstep
        apply h.moved hclock (enter_pcs henter)
        · intro j hj
          rw [hcalls]
          exact set_call_ne s _ hj
        · intro call hcall
          rw [hcalls, set_call_self] at hcall
          cases hcall
          exact ⟨Nat.le_refl _, hsmall, fun t ht => (Option.some.inj ht).symm, by simp, by simp, by rintro ⟨⟩,
            by simp⟩
      · cases hstep
    | signal i count =>
      -- the thread keeps the call it last made, which has ended
      obtain ⟨henter, hclock, hcalls⟩ := act_some hstep
      simp only [LightSemaphore.step] at henter
      split at henter
      · apply h.moved hclock (enter_pcs henter) fun j _ => by rw [hcalls]
        intro call hcall
        rw [hcalls] at hcall
        exact (h i call hcall).on (by rintro _ ⟨⟩) (by simp) id
      · cases henter
    | step i ok =>
      simp only [step] at hstep
      split at hstep
      · next hpc =>
        obtain ⟨call, hcall, hstep⟩ := Option.bind_eq_some_iff.mp hstep
        have hwait := h i call hcall
        have hnonneg := hwait.kernel hpc
        have hsmall := hwait.small
        rcases hts : call.ts with _ | ts
        · -- the deadline is computed
          rw [hts] at hstep
          cases hstep
          have hcarry := hok hpc call hcall hts
          obtain ⟨hvalid, hns⟩ := deadline_of_clock hcarry (by omega)
          have hstarted := hwait.started
          have hsame : Function.update s.sem.pcs i (s.sem.pcs i) = s.sem.pcs :=
            Function.update_eq_self i s.sem.pcs
          refine h.moved rfl hsame.symm (fun j hj => set_call_ne s _ hj) ?_
          intro call' hcall'
          rw [set_call_self] at hcall'
          cases hcall'
          refine ⟨hstarted, hsmall, hwait.timeout, hwait.kernel, ?_, hwait.gave_up, hwait.negative⟩
          intro ts hts'
          rw [← Option.some.inj hts', hns]
          refine ⟨hvalid, ?_⟩
          show (call.started : Int) + call.timeout_ns ≤ _
          omega
        · rw [hts] at hstep
          simp only at hstep
          split at hstep
          · -- `sem_timedwait` may go on, and fails only behind a valid deadline
            next hgo =>
            obtain ⟨hvalid, hdeadline⟩ := hwait.deadline ts hts
            obtain ⟨hsem, hclock, hcalls⟩ := act_some hstep
            apply h.moved hclock (step_pcs hsem) fun j _ => by rw [hcalls]
            intro call' hcall'
            rw [hcalls, hcall] at hcall'
            cases hcall'
            apply action_waiting hwait
            intro _ hfail
            unfold MayGo at hgo
            rw [if_pos hvalid, hfail] at hgo
            have hover := hgo.resolve_left (by simp)
            omega
          · cases hstep
      · -- a step outside the kernel's wait
        next hpc =>
        obtain ⟨hsem, hclock, hcalls⟩ := act_some hstep
        apply h.moved hclock (step_pcs hsem) fun j _ => by rw [hcalls]
        intro call hcall
        rw [hcalls] at hcall
        exact action_waiting (h i call hcall) fun heq => absurd heq hpc

omit [DecidableEq ι] in
theorem new_allWaiting (max_spin : Int) (init clock : Nat) :
    AllWaiting (State.new max_spin init clock : State ι) := nofun

omit [DecidableEq ι] in
/-- A timed wait comes to return `false` from the exchange that takes its
    decrement back. -/
theorem action_false {clock : Nat} {sem : LightSemaphore.State ι} {pc : Pc} {call : Call} {ok : Bool}
    (h : Waiting clock pc call) (hpc : pc ≠ .returns false)
    (hfalse : (LightSemaphore.action sem ok pc).1 = .returns false) :
    ∃ old_count, pc = .adjust_exchange old_count ∧ sem.count = old_count := by
  have hspin : ∀ timeout spin, LightSemaphore.spin_next timeout spin ≠ .returns false := by
    intro timeout spin
    unfold LightSemaphore.spin_next
    split
    · simp
    · simp
  -- only a try without a timeout returns at once
  have htry : ∀ max_spin timeout old_count, timeout = some call.timeout_ns →
      LightSemaphore.try_next max_spin timeout old_count ≠ .returns false := by
    rintro max_spin timeout old_count rfl
    unfold LightSemaphore.try_next
    split
    · simp
    · exact hspin _ _
  cases pc with
  | try_load timeout => exact absurd hfalse (htry _ _ _ (h.timeout timeout rfl))
  | try_exchange timeout old_count =>
    simp only [LightSemaphore.action] at hfalse
    split at hfalse
    · cases hfalse
    · exact absurd hfalse (htry _ _ _ (h.timeout timeout rfl))
  | spin_load timeout spin =>
    simp only [LightSemaphore.action] at hfalse
    split at hfalse
    · cases hfalse
    · exact absurd hfalse (hspin _ _)
  | spin_exchange timeout spin old_count =>
    simp only [LightSemaphore.action] at hfalse
    split at hfalse
    · cases hfalse
    · exact absurd hfalse (hspin _ _)
  | adjust_exchange old_count =>
    simp only [LightSemaphore.action] at hfalse
    split at hfalse
    · next heq => exact ⟨old_count, rfl, heq⟩
    · cases hfalse
  | returns success => exact absurd hfalse (by rintro ⟨⟩)
  | idle => cases hfalse
  | _ =>
    simp only [LightSemaphore.action] at hfalse
    split_ifs at hfalse <;> cases hfalse

/-- How a thread may come to return `false`. -/
theorem sem_returns_false {sem sem' : LightSemaphore.State ι} {l : LightSemaphore.Label ι} {i : ι}
    (h : LightSemaphore.step sem l = some sem') (hpc : sem.pcs i ≠ .returns false)
    (hfalse : sem'.pcs i = .returns false) :
    ∃ ok, (LightSemaphore.action sem ok (sem.pcs i)).1 = .returns false := by
  -- no call begins at its return
  have henter : ∀ j pc, pc ≠ .returns false → sem.enter j pc = some sem' → False := by
    intro j pc hne henter
    rw [enter_pcs henter] at hfalse
    by_cases hij : i = j
    · subst hij
      rw [Function.update_self] at hfalse
      exact hne hfalse
    · rw [Function.update_of_ne hij] at hfalse
      exact hpc hfalse
  cases l with
  | try_wait j => exact (henter j (.try_load none) (by simp) h).elim
  | wait j => exact (henter j (.try_load (some (-1))) (by simp) h).elim
  | wait_with_timeout j timeout_ns => exact (henter j (.try_load (some timeout_ns)) (by simp) h).elim
  | signal j count =>
    simp only [LightSemaphore.step] at h
    split at h
    · exact (henter j (.fetch_add count) (by simp) h).elim
    · cases h
  | step j ok =>
    rw [step_pcs h] at hfalse
    by_cases hij : i = j
    · subst hij
      rw [Function.update_self] at hfalse
      exact ⟨ok, hfalse⟩
    · rw [Function.update_of_ne hij] at hfalse
      exact absurd hfalse hpc

theorem returns_false {s s' : State ι} {l : Label ι} {i : ι} (h : step s l = some s')
    (hpc : s.sem.pcs i ≠ .returns false) (hfalse : s'.sem.pcs i = .returns false) :
    ∃ ok, (LightSemaphore.action s.sem ok (s.sem.pcs i)).1 = .returns false := by
  cases l with
  | pass ns =>
    cases h
    exact absurd hfalse hpc
  | act l =>
    cases l with
    | try_wait j => exact sem_returns_false (act_some h).1 hpc hfalse
    | wait j => exact sem_returns_false (act_some h).1 hpc hfalse
    | wait_with_timeout j timeout_ns =>
      simp only [step] at h
      split at h
      · exact sem_returns_false (act_some h).1 hpc hfalse
      · cases h
    | signal j count => exact sem_returns_false (act_some h).1 hpc hfalse
    | step j ok =>
      simp only [step] at h
      split at h
      · obtain ⟨call, -, h⟩ := Option.bind_eq_some_iff.mp h
        rcases hts : call.ts with _ | ts
        · rw [hts] at h
          cases h
          exact absurd hfalse hpc
        · rw [hts] at h
          simp only at h
          split at h
          · exact sem_returns_false (act_some h).1 hpc hfalse
          · cases h
      · exact sem_returns_false (act_some h).1 hpc hfalse

theorem notShort_step {s s' : State ι} {l : Label ι} (h : AllWaiting s)
    (hstep : step s l = some s') : NotShort s s' := by
  intro i call hcall hpc hfalse
  have hwait := h i call hcall
  obtain ⟨ok, haction⟩ := returns_false hstep hpc hfalse
  obtain ⟨old_count, hold, hcount⟩ := action_false hwait hpc haction
  have hover := hwait.gave_up (by rw [hold]; trivial)
  have hneg := hwait.negative old_count hold
  exact ⟨hover, by omega⟩

/-- **Timed waits.** A deadline is right if and only if there is no carry; and
    in every run whose deadlines have none, no timed wait gives up before its
    timeout is over. -/
theorem never_short_iff {now : Timespec} (hnow : now.Shown) {timeout_ns : Nat}
    (htimeout : timeout_ns < 2 ^ 64) {max_spin : Int} {init clock : Nat} {s s' : State ι}
    {l : Label ι} (h : Reachable step Carryless (State.new max_spin init clock) s)
    (_ : Carryless s l) (hstep : step s l = some s') :
    (DeadlineRight now timeout_ns ↔ NoCarry now timeout_ns) ∧ NotShort s s' := by
  have hinv : AllWaiting s := by
    apply h.invariant
    · exact new_allWaiting max_spin init clock
    · intro s l s' h hok hstep
      exact allWaiting_step h hok hstep
  exact ⟨deadline_right_iff hnow htimeout, notShort_step hinv hstep⟩

/-- Thread 0 waits for `timeout_ns`, the clock advances by as much, and it is
    about to return. -/
def waits_alone (timeout_ns : Int) : List (Label (Fin 1)) :=
  .act (.wait_with_timeout 0 timeout_ns) :: List.replicate 4 (.act (.step 0 true)) ++
    [.pass timeout_ns.toNat, .act (.step 0 false), .act (.step 0 true)]

theorem never_short_five :
    ∃ s s' : State (Fin 1), exec step (State.new 1 0 7) (waits_alone 5) = some s ∧
      step s (.act (.step 0 true)) = some s' ∧ s'.sem.pcs 0 = .returns false ∧
      (DeadlineRight ⟨1, 5⟩ 1000000000 ↔ NoCarry ⟨1, 5⟩ 1000000000) ∧ NotShort s s' := by
  have hrun : ((exec step (State.new 1 0 7 : State (Fin 1)) (waits_alone 5)).bind fun s =>
      (step s (.act (.step 0 true))).map fun s' => (s.sem.pcs 0, s'.sem.pcs 0)) =
        some (.adjust_exchange (-1), .returns false) := by
    decide
  obtain ⟨s, hexec, hrun⟩ := Option.bind_eq_some_iff.mp hrun
  obtain ⟨s', hstep, hpcs⟩ := Option.map_eq_some_iff.mp hrun
  obtain ⟨hpc, hpc'⟩ := Prod.mk.inj hpcs
  have hmeets : Meets step Carryless (State.new 1 0 7) (waits_alone 5) := by decide
  have hok : Carryless s (.act (.step 0 true)) := by
    intro hkernel
    rw [hpc] at hkernel
    cases hkernel
  exact ⟨s, s', hexec, hstep, hpc', never_short_iff ⟨by decide, by decide, by decide⟩ (by decide)
    (.of_exec hexec hmeets) hok hstep⟩

/-- The clock is at the last nanosecond of a second, and thread 0 waits for
    one: the deadline is refused, and the wait gives up without time passing. -/
theorem not_never_short :
    ¬ DeadlineRight (clock_gettime 999999999) 1 ∧
      ∃ s s' : State (Fin 1),
        exec step (State.new 1 0 999999999) (.act (.wait_with_timeout 0 1) ::
          List.replicate 4 (.act (.step 0 true)) ++
            [.act (.step 0 false), .act (.step 0 true)]) = some s ∧
        step s (.act (.step 0 true)) = some s' ∧ ¬ NotShort s s' := by
  constructor
  · intro hright
    exact absurd hright.1 (by decide)
  · have hrun : ((exec step (State.new 1 0 999999999 : State (Fin 1))
        (.act (.wait_with_timeout 0 1) :: List.replicate 4 (.act (.step 0 true)) ++
          [.act (.step 0 false), .act (.step 0 true)])).bind fun s =>
        (step s (.act (.step 0 true))).map fun s' =>
          (s.sem.pcs 0, s'.sem.pcs 0, s.clock, (s.calls 0).map fun c => (c.started, c.timeout_ns))) =
          some (.adjust_exchange (-1), .returns false, 999999999, some (999999999, 1)) := by
      decide
    obtain ⟨s, hexec, hrun⟩ := Option.bind_eq_some_iff.mp hrun
    obtain ⟨s', hstep, hpcs⟩ := Option.map_eq_some_iff.mp hrun
    simp only [Prod.mk.injEq] at hpcs
    obtain ⟨hpc, hpc', hclock, hcall⟩ := hpcs
    obtain ⟨call, hcall, htimes⟩ := Option.map_eq_some_iff.mp hcall
    obtain ⟨hstarted, htimeout⟩ := Prod.mk.inj htimes
    refine ⟨s, s', hexec, hstep, ?_⟩
    intro hshort
    obtain ⟨hover, -⟩ := hshort 0 call hcall (by rw [hpc]; exact nofun) hpc'
    rw [hstarted, htimeout, hclock] at hover
    omega

end TimedSemaphore

end Pump
