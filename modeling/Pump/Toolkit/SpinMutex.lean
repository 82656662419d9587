import Pump.Lts

/-! # spin_mutex

    `toolkit/spin_mutex.h` and `spin_mutex.cpp`, used by any number of threads.
    A step is one access to `locked_`. `lock` leaves its loop where the
    exchange fails, and not where it succeeds. -/

namespace Pump

/-! ## Section 1: Model -/

/-- Where a thread is. -/
inductive SpinPc where
  | out
  /-- In the loop of `lock`. -/
  | lock (exp : Bool) (loop : Int)
  /-- Behind a `lock` or a `try_lock` that returned `true`. -/
  | held
  deriving DecidableEq, Repr

/-- A mutex and the threads `ι`. The last two fields are a record of the run:
    the exchanges that have succeeded, and the calls of `unlock`. -/
structure SpinMutex (ι : Type) where
  locked : Bool
  pcs : ι → SpinPc
  exchanges : Nat
  unlocks : Nat

inductive SpinLabel (ι : Type) where
  | lock (i : ι)
  | try_lock (i : ι)
  /-- By a thread that has come out of `lock` or `try_lock`. -/
  | unlock (i : ι)
  /-- The next turn of the loop of `lock`. -/
  | turn (i : ι)

namespace SpinMutex

variable {ι : Type}

def new : SpinMutex ι := ⟨false, fun _ => .out, 0, 0⟩

/-- `compare_exchange_strong(exp, true)`: whether it succeeds, and `exp` afterwards. -/
def exchange (s : SpinMutex ι) (exp : Bool) : Bool × Bool × SpinMutex ι :=
  if s.locked = exp then (true, exp, { s with locked := true, exchanges := s.exchanges + 1 })
  else (false, s.locked, s)

variable [DecidableEq ι]

/-- Thread `i` goes to `pc`. -/
def goto (s : SpinMutex ι) (i : ι) (pc : SpinPc) : SpinMutex ι :=
  { s with pcs := Function.update s.pcs i pc }

def step (per_loop : Int) (s : SpinMutex ι) : SpinLabel ι → Option (SpinMutex ι)
  | .lock i => if s.pcs i = .out then some (s.goto i (.lock false 0)) else none
  | .try_lock i =>
    if s.pcs i = .out then
      let r := s.exchange false
      some (r.2.2.goto i (if r.1 then .held else .out))
    else none
  | .unlock i =>
    if s.pcs i = .held then
      some (({ s with locked := false, unlocks := s.unlocks + 1 } : SpinMutex ι).goto i .out)
    else none
  | .turn i =>
    match s.pcs i with
    | .lock exp loop =>
      let r := s.exchange exp
      some (r.2.2.goto i
        (if !r.1 then .held
          -- with `pump_sched_yield`
          else if loop > per_loop then .lock r.2.1 0
          else .lock r.2.1 (loop + 1)))
    | _ => none

variable {per_loop : Int} {s s' : SpinMutex ι} {i j : ι}

theorem goto_self (s : SpinMutex ι) (i : ι) (pc : SpinPc) : (s.goto i pc).pcs i = pc :=
  Function.update_self _ _ _

theorem goto_other (s : SpinMutex ι) (pc : SpinPc) (h : j ≠ i) : (s.goto i pc).pcs j = s.pcs j :=
  Function.update_of_ne h _ _

/-! ## Section 2: try_lock excludes -/

/-- Nobody calls `lock`. -/
def TryOnly (_ : SpinMutex ι) : SpinLabel ι → Prop
  | .lock _ => False
  | _ => True

/-- The flag is set where a thread holds the mutex, and that thread is alone. -/
structure Exclusive (s : SpinMutex ι) : Prop where
  outside : ∀ i exp loop, s.pcs i ≠ .lock exp loop
  alone : ∀ i j, s.pcs i = .held → s.pcs j = .held → i = j
  locked : s.locked = true ↔ ∃ i, s.pcs i = .held

omit [DecidableEq ι] in
theorem exclusive_new : Exclusive (new : SpinMutex ι) := by
  refine ⟨fun _ _ _ => nofun, fun _ _ => nofun, nofun, ?_⟩
  rintro ⟨i, hi⟩
  cases hi

/-- The thread that takes the mutex is the only one that has it. -/
theorem Exclusive.take (h : Exclusive s) (hfree : s.locked = false) (exchanges : Nat) :
    Exclusive (({ s with locked := true, exchanges := exchanges } : SpinMutex ι).goto i .held) := by
  have hnone : ∀ j, s.pcs j ≠ .held := by
    intro j hj
    rw [h.locked.mpr ⟨j, hj⟩] at hfree
    cases hfree
  have honly : ∀ j, (({ s with locked := true, exchanges := exchanges } :
      SpinMutex ι).goto i .held).pcs j = .held → j = i := by
    intro j hj
    by_contra hji
    rw [goto_other _ _ hji] at hj
    exact hnone j hj
  refine ⟨fun j exp loop hj => ?_, fun j j' hj hj' => ?_, fun _ => ⟨i, goto_self _ _ _⟩, fun _ => rfl⟩
  · by_cases hji : j = i
    · rw [hji, goto_self] at hj
      cases hj
    · rw [goto_other _ _ hji] at hj
      exact h.outside j exp loop hj
  · rw [honly j hj, honly j' hj']

/-- The thread that has it gives it back. -/
theorem Exclusive.give (h : Exclusive s) (hi : s.pcs i = .held) (unlocks : Nat) :
    Exclusive (({ s with locked := false, unlocks := unlocks } : SpinMutex ι).goto i .out) := by
  have hnone : ∀ j, (({ s with locked := false, unlocks := unlocks } :
      SpinMutex ι).goto i .out).pcs j ≠ .held := by
    intro j hj
    by_cases hji : j = i
    · rw [hji, goto_self] at hj
      cases hj
    · rw [goto_other _ _ hji] at hj
      exact hji (h.alone j i hj hi)
  refine ⟨fun j exp loop hj => ?_, fun j _ hj => absurd hj (hnone j), nofun, ?_⟩
  · by_cases hji : j = i
    · rw [hji, goto_self] at hj
      cases hj
    · rw [goto_other _ _ hji] at hj
      exact h.outside j exp loop hj
  · rintro ⟨j, hj⟩
    exact absurd hj (hnone j)

theorem exclusive_step (h : Exclusive s) {l : SpinLabel ι} (hok : TryOnly s l)
    (hs : s.step per_loop l = some s') : Exclusive s' := by
  cases l with
  | lock i => exact hok.elim
  | try_lock i =>
    simp only [step, exchange] at hs
    split at hs
    · next hout =>
      split at hs
      · next hfree =>
        cases hs
        exact h.take hfree _
      · cases hs
        -- the thread stays outside
        have hsame : s.goto i .out = s := by
          unfold goto
          rw [← hout, Function.update_eq_self]
        show Exclusive (s.goto i .out)
        rw [hsame]
        exact h
    · cases hs
  | unlock i =>
    simp only [step] at hs
    split at hs
    · next hheld =>
      cases hs
      exact h.give hheld _
    · cases hs
  | turn i =>
    simp only [step] at hs
    split at hs
    · next exp loop hlock => exact absurd hlock (h.outside i exp loop)
    · cases hs

/-! ## Section 3: lock does not -/

/-- A thread in `lock` expects the flag to be clear, and an exchange that
    succeeds sets it. -/
structure Counted (s : SpinMutex ι) : Prop where
  exp : ∀ i exp loop, s.pcs i = .lock exp loop → exp = false
  exchanges : s.exchanges ≤ s.unlocks + s.locked.toNat

omit [DecidableEq ι] in
theorem counted_new : Counted (new : SpinMutex ι) := ⟨fun _ _ _ => nofun, le_refl 0⟩

theorem counted_goto (h : Counted s) (t : SpinMutex ι) (hpcs : t.pcs = s.pcs) {pc : SpinPc}
    (hpc : ∀ exp loop, pc = .lock exp loop → exp = false)
    (hcount : t.exchanges ≤ t.unlocks + t.locked.toNat) : Counted (t.goto i pc) := by
  refine ⟨fun j exp loop hj => ?_, hcount⟩
  by_cases hji : j = i
  · rw [hji, goto_self] at hj
    exact hpc exp loop hj
  · rw [goto_other _ _ hji, hpcs] at hj
    exact h.exp j exp loop hj

omit [DecidableEq ι] in
/-- An exchange with `false`. -/
theorem exchange_counted (h : Counted s) : (s.exchange false).2.2.pcs = s.pcs ∧
    ((s.exchange false).1 = true → (s.exchange false).2.1 = false) ∧
    (s.exchange false).2.2.exchanges ≤
      (s.exchange false).2.2.unlocks + (s.exchange false).2.2.locked.toNat := by
  have hcount := h.exchanges
  unfold exchange
  split
  · next hfree =>
    rw [hfree] at hcount
    exact ⟨rfl, fun _ => rfl, Nat.succ_le_succ hcount⟩
  · exact ⟨rfl, nofun, hcount⟩

theorem counted_step (h : Counted s) {l : SpinLabel ι} (hs : s.step per_loop l = some s') :
    Counted s' := by
  cases l with
  | lock i =>
    simp only [step] at hs
    split at hs
    · cases hs
      refine counted_goto h s rfl (fun exp loop heq => ?_) h.exchanges
      cases heq
      rfl
    · cases hs
  | try_lock i =>
    simp only [step] at hs
    split at hs
    · cases hs
      obtain ⟨hpcs, -, hcount⟩ := exchange_counted h
      refine counted_goto h _ hpcs (fun exp loop heq => ?_) hcount
      split at heq <;> cases heq
    · cases hs
  | unlock i =>
    simp only [step] at hs
    split at hs
    · cases hs
      have hcount : s.exchanges ≤ s.unlocks + 1 + false.toNat := by
        have hbefore := h.exchanges
        have hflag : s.locked.toNat ≤ 1 := Bool.toNat_le s.locked
        rw [Bool.toNat_false]
        omega
      exact counted_goto h { s with locked := false, unlocks := s.unlocks + 1 } rfl
        (fun _ _ => by nofun) hcount
    · cases hs
  | turn i =>
    simp only [step] at hs
    split at hs
    · next exp loop hlock =>
      cases hs
      obtain rfl := h.exp i exp loop hlock
      obtain ⟨hpcs, hexp, hcount⟩ := exchange_counted h
      refine counted_goto h _ hpcs (fun exp' loop' heq => ?_) hcount
      split at heq
      · cases heq
      · next hwon =>
        have hwon' : (s.exchange false).1 = true := by simpa using hwon
        split at heq
        · cases heq
          exact hexp hwon'
        · cases heq
          exact hexp hwon'
    · cases hs

/-- A turn that finds the flag set leaves the loop. -/
theorem turn_locked {loop : Int} (hlock : s.pcs i = .lock false loop) (hlocked : s.locked = true) :
    s.step per_loop (.turn i) = some (s.goto i .held) := by
  simp only [step, hlock, exchange, hlocked, Bool.true_eq_false, if_false, Bool.not_false, if_true]

/-- A turn that sets the flag goes on. -/
theorem turn_free (per_loop : Int) {loop : Int} (hlock : s.pcs i = .lock false loop)
    (hfree : s.locked = false) : ∃ mid loop', s.step per_loop (.turn i) = some mid ∧
      mid.pcs i = .lock false loop' ∧ mid.locked = true ∧ ∀ j, j ≠ i → mid.pcs j = s.pcs j := by
  simp only [step, hlock, exchange, hfree, if_true, Bool.not_true, Bool.false_eq_true, if_false]
  by_cases hloop : loop > per_loop
  · rw [if_pos hloop]
    exact ⟨_, 0, rfl, goto_self _ _ _, rfl, fun _ hji => goto_other _ _ hji⟩
  · rw [if_neg hloop]
    exact ⟨_, loop + 1, rfl, goto_self _ _ _, rfl, fun _ hji => goto_other _ _ hji⟩

/-- A thread that calls `lock` has come out of it after two turns at most,
    whoever holds the mutex. -/
theorem lock_comes_out (per_loop : Int) (hout : s.pcs i = .out) : ∃ ls s',
    exec (step per_loop) s ls = some s' ∧ ls.length ≤ 3 ∧ s'.pcs i = .held ∧
      ∀ j, j ≠ i → s'.pcs j = s.pcs j := by
  have hcall : s.step per_loop (.lock i) = some (s.goto i (.lock false 0)) := by
    simp only [step, hout, if_true]
  have hin : (s.goto i (.lock false 0)).pcs i = .lock false 0 := goto_self _ _ _
  cases hlocked : s.locked with
  | true =>
    refine ⟨[.lock i, .turn i], (s.goto i (.lock false 0)).goto i .held, ?_, Nat.le_succ 2,
      goto_self _ _ _, fun j hji => ?_⟩
    · simp only [exec, hcall, Option.bind_some, turn_locked hin (show _ = true from hlocked)]
    · rw [goto_other _ _ hji, goto_other _ _ hji]
  | false =>
    obtain ⟨mid, loop, hturn, hlock, hset, hothers⟩ :=
      turn_free per_loop hin (show _ = false from hlocked)
    refine ⟨[.lock i, .turn i, .turn i], mid.goto i .held, ?_, le_refl 3, goto_self _ _ _,
      fun j hji => ?_⟩
    · simp only [exec, hcall, hturn, Option.bind_some, turn_locked hlock hset]
    · rw [goto_other _ _ hji, hothers j hji, goto_other _ _ hji]

/-- And so do any threads, one after the other. -/
theorem all_come_out (per_loop : Int) (is : List ι) (hnodup : is.Nodup) (s : SpinMutex ι)
    (hout : ∀ i ∈ is, s.pcs i = .out) : ∃ ls s',
      exec (step per_loop) s ls = some s' ∧ ls.length ≤ 3 * is.length ∧
        (∀ i ∈ is, s'.pcs i = .held) ∧ ∀ j, j ∉ is → s'.pcs j = s.pcs j := by
  induction is generalizing s with
  | nil => exact ⟨[], s, rfl, le_refl 0, fun _ hi => absurd hi List.not_mem_nil, fun _ _ => rfl⟩
  | cons i is ih =>
    obtain ⟨hi, hrest⟩ := List.nodup_cons.mp hnodup
    obtain ⟨ls, mid, hexec, hlen, hheld, hothers⟩ :=
      lock_comes_out per_loop (hout i List.mem_cons_self)
    have hmid : ∀ j ∈ is, mid.pcs j = .out := by
      intro j hj
      rw [hothers j fun heq => hi (heq ▸ hj)]
      exact hout j (List.mem_cons_of_mem i hj)
    obtain ⟨ls', s', hexec', hlen', hheld', hothers'⟩ := ih hrest mid hmid
    refine ⟨ls ++ ls', s', ?_, ?_, fun j hj => ?_, fun j hj => ?_⟩
    · rw [exec_append, hexec]
      exact hexec'
    · rw [List.length_append, List.length_cons]
      omega
    · rcases List.mem_cons.mp hj with rfl | hj
      · rw [hothers' j hi]
        exact hheld
      · exact hheld' j hj
    · rw [List.mem_cons, not_or] at hj
      rw [hothers' j hj.2, hothers j hj.1]

/-- **What the mutex excludes.** In every run of `try_lock` and `unlock` one
    thread at most holds it, and the flag is set where one does. With `lock` in
    the run nobody is kept out: from every state any threads that are outside
    come to hold it together, with three steps for each, whoever holds it
    already. What `lock` waits for is that an exchange fails; at most one more
    of them succeeds than `unlock` was called. -/
theorem locks_exclude (per_loop : Int) :
    (∀ s : SpinMutex ι, Reachable (step per_loop) TryOnly new s →
      (∀ i j, s.pcs i = .held → s.pcs j = .held → i = j) ∧
        (s.locked = true ↔ ∃ i, s.pcs i = .held)) ∧
      ∀ s : SpinMutex ι, Reachable (step per_loop) AnyStep new s →
        s.exchanges ≤ s.unlocks + 1 ∧
          ∀ is : List ι, is.Nodup → (∀ i ∈ is, s.pcs i = .out) →
            ∃ ls s', exec (step per_loop) s ls = some s' ∧ ls.length ≤ 3 * is.length ∧
              (∀ i ∈ is, s'.pcs i = .held) ∧ ∀ j, j ∉ is → s'.pcs j = s.pcs j := by
  refine ⟨fun s h => ?_, fun s h => ⟨?_, fun is hnodup hout => ?_⟩⟩
  · have hinv : Exclusive s :=
      h.invariant exclusive_new fun _ _ _ hi hok hs => exclusive_step hi hok hs
    exact ⟨hinv.alone, hinv.locked⟩
  · have hinv : Counted s := h.invariant counted_new fun _ _ _ hi _ hs => counted_step hi hs
    have hflag : s.locked.toNat ≤ 1 := Bool.toNat_le s.locked
    have hcount := hinv.exchanges
    omega
  · exact all_come_out per_loop is hnodup s hout

end SpinMutex

end Pump
