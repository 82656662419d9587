import Pump.Lts
import Pump.Total

/-! # light_semaphore

    `toolkit/semaphore.h`: a counter in front of a semaphore of the kernel.
    A counter below zero says how many threads wait for the kernel or are on
    their way there. A thread that gives up waiting has to take its decrement
    back, or the signal that was meant for it.

    One step is one access to the counter or to the kernel's semaphore, with
    what the thread does before the next one. The machine integers are
    integers, and wrap where they are computed. -/

namespace Pump

namespace LightSemaphore

/-! ## Section 1: Model -/

/-- Where a thread is, with its locals. `timeout` is the argument of `wait`,
    `none` in `try_wait` alone. -/
inductive Pc where
  | idle
  -- try_wait
  | try_load (timeout : Option Int)
  | try_exchange (timeout : Option Int) (old_count : Int)
  -- __wait_with_spinning
  | spin_load (timeout spin : Int)
  | spin_exchange (timeout spin old_count : Int)
  | fetch_sub (timeout : Int)
  | kernel_wait
  | kernel_wait_with_timeout
  | adjust_load
  | adjust_try_wait (old_count : Int)
  | adjust_exchange (old_count : Int)
  -- a wait returns
  | returns (success : Bool)
  -- signal, and signal of the kernel's semaphore
  | fetch_add (count : Int)
  | post (count : Int)
  deriving DecidableEq

/-- `SEM_VALUE_MAX`. -/
def sem_value_max : Nat := 2 ^ 31 - 1

/-- A semaphore and the threads `ι`. `signals` is how many signals were made,
    and `waits` how many waits have returned `true`. -/
structure State (ι : Type) where
  max_spin : Int
  count : Int
  semaphone : Nat
  pcs : ι → Pc
  signals : Int
  waits : Nat

inductive Label (ι : Type) where
  | try_wait (i : ι)
  | wait (i : ι)
  | wait_with_timeout (i : ι) (timeout_ns : Int)
  /-- The assertion in `signal` refuses a count below zero. -/
  | signal (i : ι) (count : Nat)
  /-- The next step of a thread. `ok` is false where an exchange fails without
      a reason, or a wait for the kernel times out. -/
  | step (i : ι) (ok : Bool)

variable {ι : Type}

/-- A new semaphore. -/
def State.new (max_spin : Int) (init_count : Nat) : State ι :=
  { max_spin := max_spin
    count := init_count
    semaphone := 0
    pcs := fun _ => .idle
    signals := 0
    waits := 0 }

/-- Where the loop of `__wait_with_spinning` goes on, before it counts down. -/
def spin_next (timeout spin : Int) : Pc :=
  if spin - 1 ≥ 0 then .spin_load timeout (spin - 1) else .fetch_sub timeout

/-- Where `try_wait` goes on with the count it has. -/
def try_next (max_spin : Int) (timeout : Option Int) (old_count : Int) : Pc :=
  if old_count > 0 then .try_exchange timeout old_count
  else match timeout with
    | none => .returns false
    | some timeout => spin_next timeout max_spin

/-- How many of the waiting threads a signal releases. -/
def to_release (old_count count : Int) : Int :=
  if (-old_count).bmod (2 ^ 64) < count then (-old_count).bmod (2 ^ 64) else count

/-- The next step of a thread: where it goes and what it does to the rest. -/
def action (s : State ι) (ok : Bool) : Pc → Pc × State ι
  | .idle => (.idle, s)
  | .try_load timeout => (try_next s.max_spin timeout s.count, s)
  | .try_exchange timeout old_count =>
    if s.count = old_count ∧ ok then (.returns true, { s with count := old_count - 1 })
    else (try_next s.max_spin timeout s.count, s)
  | .spin_load timeout spin =>
    (if s.count > 0 then .spin_exchange timeout spin s.count else spin_next timeout spin, s)
  | .spin_exchange timeout spin old_count =>
    if s.count = old_count then (.returns true, { s with count := old_count - 1 })
    else (spin_next timeout spin, s)
  | .fetch_sub timeout =>
    (if s.count > 0 then .returns true
      else if timeout < 0 then .kernel_wait
      else .kernel_wait_with_timeout, { s with count := (s.count - 1).bmod (2 ^ 64) })
  | .kernel_wait =>
    if s.semaphone > 0 then (.returns true, { s with semaphone := s.semaphone - 1 })
    else (.kernel_wait, s)
  | .kernel_wait_with_timeout =>
    if !ok then (.adjust_load, s)
    else if s.semaphone > 0 then (.returns true, { s with semaphone := s.semaphone - 1 })
    else (.kernel_wait_with_timeout, s)
  | .adjust_load =>
    (if s.count ≥ 0 then .adjust_try_wait s.count else .adjust_exchange s.count, s)
  | .adjust_try_wait _ =>
    if s.semaphone > 0 then (.returns true, { s with semaphone := s.semaphone - 1 })
    else (.adjust_load, s)
  | .adjust_exchange old_count =>
    if s.count = old_count then (.returns false, { s with count := old_count + 1 })
    else (.adjust_load, s)
  | .returns success => (.idle, { s with waits := if success then s.waits + 1 else s.waits })
  | .fetch_add count =>
    let release := to_release s.count count
    (if release > 0 ∧ release.bmod (2 ^ 32) > 0 then .post (release.bmod (2 ^ 32)) else .idle,
      { s with count := (s.count + count).bmod (2 ^ 64), signals := s.signals + count })
  | .post count =>
    if s.semaphone < sem_value_max then
      (if count - 1 > 0 then .post (count - 1) else .idle,
        { s with semaphone := s.semaphone + 1 })
    else (.post count, s)

variable [DecidableEq ι]

/-- Thread `i` goes to `pc`. -/
def State.goto (s : State ι) (i : ι) (pc : Pc) : State ι :=
  { s with pcs := Function.update s.pcs i pc }

/-- A function is entered by an idle thread. -/
def State.enter (s : State ι) (i : ι) (pc : Pc) : Option (State ι) :=
  if s.pcs i = .idle then some (s.goto i pc) else none

def step (s : State ι) : Label ι → Option (State ι)
  | .try_wait i => s.enter i (.try_load none)
  | .wait i => s.enter i (.try_load (some (-1)))
  | .wait_with_timeout i timeout_ns => s.enter i (.try_load (some timeout_ns))
  | .signal i count =>
    -- the count is an `int64_t`
    if count < 2 ^ 63 then s.enter i (.fetch_add count) else none
  | .step i ok =>
    let r := action s ok (s.pcs i)
    some (r.2.goto i r.1)

/-! ## Section 2: What a step does to the tokens -/

namespace Pc

/-- A token was taken off the counter for the thread, or is to be. -/
def takes : Pc → ℤ
  | .kernel_wait | .kernel_wait_with_timeout | .adjust_load | .adjust_try_wait _
  | .adjust_exchange _ | .returns true => 1
  | _ => 0

/-- What the kernel still gets from the thread, where a thread that has to
    wait for the kernel counts against that. -/
def owes : Pc → ℤ
  | .kernel_wait | .kernel_wait_with_timeout | .adjust_load | .adjust_try_wait _
  | .adjust_exchange _ => 1
  | .post count => -count
  | _ => 0

/-- What the thread has in its locals is in range. -/
def Sound : Pc → Prop
  | .try_exchange _ old_count | .spin_exchange _ _ old_count => 0 < old_count
  | .adjust_exchange old_count => old_count < 0
  | .fetch_add count => 0 ≤ count ∧ count < 2 ^ 63
  | .post count => 0 < count
  | _ => True

end Pc

/-- No machine integer overflows in the next step of the thread at `pc`: the
    counter and its negation stay in an `int64_t`, and what is released in an
    `int32_t`. -/
def Fits (s : State ι) : Pc → Prop
  | .fetch_sub _ => -2 ^ 63 < s.count - 1
  | .fetch_add count => s.count + count < 2 ^ 63 ∧ to_release s.count count < 2 ^ 31
  | _ => True

instance (s : State ι) : DecidablePred (Fits s) := fun pc => by
  cases pc <;> unfold Fits <;> infer_instance

/-- The counter is in range. -/
def InRange (s : State ι) : Prop := -2 ^ 63 < s.count ∧ s.count < 2 ^ 63

omit [DecidableEq ι] in
theorem bmod_of_range {n : Int} (h : -2 ^ 63 < n) (h' : n < 2 ^ 63) : n.bmod (2 ^ 64) = n := by
  rw [Int.bmod_def]
  omega

theorem bmod_of_release {n : Int} (h : 0 < n) (h' : n < 2 ^ 31) : n.bmod (2 ^ 32) = n := by
  rw [Int.bmod_def]
  omega

/-- What a step at `pc` does: the tokens that leave the counter are taken, and
    the kernel has what it gets. -/
structure Balance (s : State ι) (pc : Pc) (r : Pc × State ι) : Prop where
  pcs : r.2.pcs = s.pcs
  sound : r.1.Sound
  range : InRange r.2
  tokens : r.2.count - s.count =
    (r.2.signals - s.signals) - ((r.2.waits : ℤ) - s.waits) - (r.1.takes - pc.takes)
  kernel : r.1.owes - pc.owes =
    (max (-r.2.count) 0 + r.2.semaphone) - (max (-s.count) 0 + s.semaphone)

theorem spin_next_free (timeout spin : Int) :
    (spin_next timeout spin).Sound ∧ (spin_next timeout spin).takes = 0 ∧
      (spin_next timeout spin).owes = 0 := by
  unfold spin_next
  split
  · exact ⟨trivial, rfl, rfl⟩
  · exact ⟨trivial, rfl, rfl⟩

theorem try_next_free (max_spin : Int) (timeout : Option Int) (old_count : Int) :
    (try_next max_spin timeout old_count).Sound ∧
      (try_next max_spin timeout old_count).takes = 0 ∧
      (try_next max_spin timeout old_count).owes = 0 := by
  unfold try_next
  split
  · next h => exact ⟨h, rfl, rfl⟩
  · split
    · exact ⟨trivial, rfl, rfl⟩
    · exact spin_next_free _ _

omit [DecidableEq ι] in
/-- A step that leaves the counter and the kernel alone. -/
theorem Balance.free {s : State ι} {pc pc' : Pc} (hrange : InRange s)
    (hpc : pc'.Sound ∧ pc'.takes = pc.takes ∧ pc'.owes = pc.owes) : Balance s pc (pc', s) := by
  obtain ⟨hsound, htakes, howes⟩ := hpc
  refine ⟨rfl, hsound, hrange, ?_, ?_⟩
  · simp only [htakes]
    omega
  · simp only [howes]
    omega

omit [DecidableEq ι] in
/-- A token that the kernel has is taken. -/
theorem Balance.of_kernel {s : State ι} {pc : Pc} (hrange : InRange s) (hpos : s.semaphone > 0)
    (htakes : pc.takes = 1) (howes : pc.owes = 1) :
    Balance s pc (.returns true, { s with semaphone := s.semaphone - 1 }) := by
  refine ⟨rfl, trivial, hrange, ?_, ?_⟩
  · simp only [htakes, show (Pc.returns true).takes = 1 from rfl]
    omega
  · simp only [howes, show (Pc.returns true).owes = 0 from rfl]
    omega

/-- How the counter and what is released fit together. -/
theorem to_release_eq {old_count count : Int} (hlow : -2 ^ 63 < old_count)
    (hhigh : old_count < 2 ^ 63) (hcount : 0 ≤ count) :
    (to_release old_count count > 0 ∧
        to_release old_count count = max (-old_count) 0 - max (-(old_count + count)) 0) ∨
      (to_release old_count count ≤ 0 ∧ max (-old_count) 0 = max (-(old_count + count)) 0) := by
  unfold to_release
  rw [bmod_of_range (by omega) (by omega)]
  split
  · by_cases hneg : old_count < 0
    · left
      omega
    · right
      omega
  · by_cases hzero : count = 0
    · right
      omega
    · left
      omega

omit [DecidableEq ι] in
theorem action_balance {s : State ι} {pc : Pc} (hrange : InRange s) (hsound : pc.Sound)
    (hfits : Fits s pc) (ok : Bool) : Balance s pc (action s ok pc) := by
  obtain ⟨hlow, hhigh⟩ := id hrange
  cases pc with
  | idle => exact .free hrange ⟨trivial, rfl, rfl⟩
  | try_load timeout => exact .free hrange (try_next_free _ _ _)
  | try_exchange timeout old_count =>
    have hpos : 0 < old_count := hsound
    simp only [action]
    split
    · next h =>
      -- a token is taken off the counter
      refine ⟨rfl, trivial, ?_, ?_, ?_⟩
      · simp only [InRange]
        omega
      · simp only [Pc.takes]
        omega
      · simp only [Pc.owes]
        omega
    · exact .free hrange (try_next_free _ _ _)
  | spin_load timeout spin =>
    simp only [action]
    split
    · next h => exact .free hrange ⟨h, rfl, rfl⟩
    · exact .free hrange (spin_next_free _ _)
  | spin_exchange timeout spin old_count =>
    have hpos : 0 < old_count := hsound
    simp only [action]
    split
    · refine ⟨rfl, trivial, ?_, ?_, ?_⟩
      · simp only [InRange]
        omega
      · simp only [Pc.takes]
        omega
      · simp only [Pc.owes]
        omega
    · exact .free hrange (spin_next_free _ _)
  | fetch_sub timeout =>
    have hfits' : -2 ^ 63 < s.count - 1 := hfits
    simp only [action, bmod_of_range hfits' (by omega)]
    split
    · refine ⟨rfl, trivial, ⟨hfits', by simp only; omega⟩, ?_, ?_⟩
      · simp only [Pc.takes]
        omega
      · simp only [Pc.owes]
        omega
    · -- there was none, and the thread waits for the kernel
      have hboth : ∀ pc' : Pc, pc'.Sound → pc'.takes = 1 → pc'.owes = 1 →
          Balance s (.fetch_sub timeout) (pc', { s with count := s.count - 1 }) := by
        intro pc' hsound' htakes howes
        refine ⟨rfl, hsound', ⟨hfits', by simp only; omega⟩, ?_, ?_⟩
        · simp only [htakes, show (Pc.fetch_sub timeout).takes = 0 from rfl]
          omega
        · simp only [howes, show (Pc.fetch_sub timeout).owes = 0 from rfl]
          omega
      split
      · exact hboth _ trivial rfl rfl
      · exact hboth _ trivial rfl rfl
  | kernel_wait =>
    simp only [action]
    split
    · next h => exact .of_kernel hrange h rfl rfl
    · exact .free hrange ⟨trivial, rfl, rfl⟩
  | kernel_wait_with_timeout =>
    simp only [action]
    split
    · exact .free hrange ⟨trivial, rfl, rfl⟩
    · split
      · next h => exact .of_kernel hrange h rfl rfl
      · exact .free hrange ⟨trivial, rfl, rfl⟩
  | adjust_load =>
    simp only [action]
    split
    · exact .free hrange ⟨trivial, rfl, rfl⟩
    · next h => exact .free hrange ⟨not_le.mp h, rfl, rfl⟩
  | adjust_try_wait old_count =>
    simp only [action]
    split
    · next h => exact .of_kernel hrange h rfl rfl
    · exact .free hrange ⟨trivial, rfl, rfl⟩
  | adjust_exchange old_count =>
    have hneg : old_count < 0 := hsound
    simp only [action]
    split
    · -- the decrement is taken back
      refine ⟨rfl, trivial, ?_, ?_, ?_⟩
      · simp only [InRange]
        omega
      · simp only [Pc.takes]
        omega
      · simp only [Pc.owes]
        omega
    · exact .free hrange ⟨trivial, rfl, rfl⟩
  | returns success =>
    refine ⟨rfl, trivial, hrange, ?_, ?_⟩
    · cases success
      · simp [action, Pc.takes]
      · simp [action, Pc.takes]
    · simp [action, Pc.owes]
  | fetch_add count =>
    obtain ⟨hcount, hcount'⟩ := hsound
    obtain ⟨hfits, hrelease⟩ := hfits
    have hnew : (s.count + count).bmod (2 ^ 64) = s.count + count :=
      bmod_of_range (by omega) hfits
    simp only [action, hnew]
    rcases to_release_eq hlow hhigh hcount with ⟨hpos, heq⟩ | ⟨hneg, heq⟩
    · rw [bmod_of_release hpos hrelease, if_pos ⟨hpos, hpos⟩]
      refine ⟨rfl, hpos, ⟨by simp only; omega, hfits⟩, ?_, ?_⟩
      · simp only [Pc.takes]
        omega
      · simp only [Pc.owes]
        omega
    · rw [if_neg (fun h => absurd h.1 (by omega))]
      refine ⟨rfl, trivial, ⟨by simp only; omega, hfits⟩, ?_, ?_⟩
      · simp only [Pc.takes]
        omega
      · simp only [Pc.owes]
        omega
  | post count =>
    have hpos : 0 < count := hsound
    simp only [action]
    split
    · refine ⟨rfl, ?_, hrange, ?_, ?_⟩
      · simp only
        split
        · next h => exact h
        · trivial
      · simp only
        split
        · simp only [Pc.takes]
          omega
        · simp only [Pc.takes]
          omega
      · simp only
        split
        · simp only [Pc.owes]
          omega
        · simp only [Pc.owes]
          omega
    · exact .free hrange ⟨hpos, rfl, rfl⟩

/-! ## Section 3: The tokens are conserved -/

/-- The account of a semaphore made with `init` tokens: those that left the
    counter were taken by a thread, or handed out by a wait, and the threads
    below a counter of zero are the ones that the kernel does not release. -/
structure Account (init : Nat) (s : State ι) : Prop where
  range : InRange s
  sound : ∀ i, (s.pcs i).Sound
  tokens : Total (fun i => (s.pcs i).takes) (init + s.signals - s.waits - s.count)
  kernel : Total (fun i => (s.pcs i).owes) (max (-s.count) 0 + s.semaphone)

omit [DecidableEq ι] in
theorem new_account (max_spin : Int) {init : Nat} (hinit : init < 2 ^ 63) :
    Account init (State.new max_spin init : State ι) := by
  refine ⟨?_, fun _ => trivial, ?_, ?_⟩
  · simp only [InRange, State.new]
    omega
  · have htotal := Total.start (f := fun i => ((State.new max_spin init : State ι).pcs i).takes)
      fun _ => rfl
    simpa [State.new] using htotal
  · have htotal := Total.start (f := fun i => ((State.new max_spin init : State ι).pcs i).owes)
      fun _ => rfl
    simpa [State.new] using htotal

/-- A balanced step keeps the account. -/
theorem Account.step {init : Nat} {s : State ι} {i : ι} {r : Pc × State ι} (h : Account init s)
    (hr : Balance s (s.pcs i) r) : Account init (r.2.goto i r.1) := by
  refine ⟨hr.range, ?_, ?_, ?_⟩
  · intro j
    show (Function.update r.2.pcs i r.1 j).Sound
    rw [hr.pcs]
    by_cases hji : j = i
    · rw [hji, Function.update_self]
      exact hr.sound
    · rw [Function.update_of_ne hji]
      exact h.sound j
  · show Total (fun j => (Function.update r.2.pcs i r.1 j).takes) _
    rw [hr.pcs]
    have htotal := h.tokens.move i r.1
    have htokens := hr.tokens
    have heq : (init : ℤ) + r.2.signals - r.2.waits - r.2.count =
        init + s.signals - s.waits - s.count - (s.pcs i).takes + r.1.takes := by
      omega
    show Total _ ((init : ℤ) + r.2.signals - r.2.waits - r.2.count)
    rw [heq]
    exact htotal
  · show Total (fun j => (Function.update r.2.pcs i r.1 j).owes) _
    rw [hr.pcs]
    have htotal := h.kernel.move i r.1
    have hkernel := hr.kernel
    have heq : max (-r.2.count) 0 + (r.2.semaphone : ℤ) =
        max (-s.count) 0 + s.semaphone - (s.pcs i).owes + r.1.owes := by
      omega
    show Total _ (max (-r.2.count) 0 + (r.2.semaphone : ℤ))
    rw [heq]
    exact htotal

/-- The condition on a run: no machine integer overflows. -/
def NoOverflow (s : State ι) : Label ι → Prop
  | .step i _ => Fits s (s.pcs i)
  | _ => True

instance (s : State ι) : DecidablePred (NoOverflow s) := fun l => by
  cases l <;> unfold NoOverflow <;> infer_instance

theorem account_enter {init : Nat} {s s' : State ι} {i : ι} {pc : Pc} (h : Account init s)
    (henter : s.enter i pc = some s') (hsound : pc.Sound) (htakes : pc.takes = 0)
    (howes : pc.owes = 0) : Account init s' := by
  unfold State.enter at henter
  split at henter
  · next hidle =>
    cases henter
    have hfree : Balance s (s.pcs i) (pc, s) := by
      apply Balance.free h.range
      rw [hidle]
      exact ⟨hsound, htakes, howes⟩
    exact h.step hfree
  · cases henter

theorem account_step {init : Nat} {s s' : State ι} {l : Label ι} (h : Account init s)
    (hok : NoOverflow s l) (hstep : LightSemaphore.step s l = some s') : Account init s' := by
  cases l with
  | try_wait i => exact account_enter h hstep trivial rfl rfl
  | wait i => exact account_enter h hstep trivial rfl rfl
  | wait_with_timeout i timeout_ns => exact account_enter h hstep trivial rfl rfl
  | signal i count =>
    simp only [LightSemaphore.step] at hstep
    split at hstep
    · next hcount =>
      apply account_enter h hstep _ rfl rfl
      show (0 : ℤ) ≤ count ∧ (count : ℤ) < 2 ^ 63
      omega
    · cases hstep
  | step i ok =>
    cases hstep
    exact h.step (action_balance h.range (h.sound i) hok ok)

/-- What a semaphore made with `init` tokens has handed out, and what is left
    when no call is in progress. -/
def Conserves (init : Nat) (s : State ι) : Prop :=
  s.waits ≤ init + s.signals ∧
    ((∀ i, s.pcs i = .idle) → s.count = init + s.signals - s.waits ∧ s.semaphone = 0)

theorem Account.balanced {init : Nat} {s : State ι} (h : Account init s) : Conserves init s := by
  constructor
  · -- a thread takes at least what the kernel still owes it
    have hle := h.kernel.mono h.tokens fun i => by
      have hsound := h.sound i
      cases hpc : s.pcs i with
      | post count =>
        rw [hpc] at hsound
        have hpos : 0 < count := hsound
        simp only [Pc.owes, Pc.takes]
        omega
      | returns success => cases success <;> simp [Pc.owes, Pc.takes]
      | _ => exact le_refl _
    omega
  · intro hidle
    have htokens := h.tokens.eq_zero fun i => by rw [hidle i]; rfl
    have hkernel := h.kernel.eq_zero fun i => by rw [hidle i]; rfl
    omega

/-- **Conservation.** As long as no machine integer overflows, the waits that
    returned `true` are no more than the tokens there were, and a semaphore at
    rest has the others. -/
theorem run_conserves {max_spin : Int} {init : Nat} {s : State ι} (hinit : init < 2 ^ 63)
    (h : Reachable step NoOverflow (State.new max_spin init) s) : Conserves init s := by
  apply Account.balanced
  apply h.invariant
  · exact new_account max_spin hinit
  · intro s l s' hinv hok hstep
    exact account_step hinv hok hstep

/-- Thread 0 gives up waiting while thread 1 signals, and takes the signal. -/
def late_signal : List (Label (Fin 2)) :=
  Label.wait_with_timeout 0 5 :: List.replicate 3 (.step 0 true) ++
    [Label.step 0 false, .step 0 true] ++ Label.signal 1 1 :: List.replicate 2 (.step 1 true) ++
    List.replicate 4 (Label.step 0 true)

theorem run_conserves_late_signal :
    ∃ s : State (Fin 2), exec step (State.new 1 0) late_signal = some s ∧ s.waits = 1 ∧
      Conserves 0 s := by
  have hrun : (exec step (State.new 1 0 : State (Fin 2)) late_signal).map (·.waits) = some 1 := by
    decide
  obtain ⟨s, hexec, hs⟩ := Option.map_eq_some_iff.mp hrun
  refine ⟨s, hexec, hs, run_conserves (by decide) (.of_exec hexec ?_)⟩
  decide

/-- A signal to a semaphore with the largest number of tokens there is. -/
theorem not_run_conserves :
    ¬ ∀ (max_spin : Int) (init : Nat) (s : State (Fin 1)), init < 2 ^ 63 →
      Reachable step AnyStep (State.new max_spin init) s → Conserves init s := by
  intro hall
  have hrun : (exec step (State.new 10000 (2 ^ 63 - 1) : State (Fin 1))
      [.signal 0 1, .step 0 true]).map (fun s => (s.pcs 0, s.count, s.signals, s.waits)) =
        some (.idle, -2 ^ 63, 1, 0) := by
    decide
  obtain ⟨s, hexec, hs⟩ := Option.map_eq_some_iff.mp hrun
  simp only [Prod.mk.injEq] at hs
  obtain ⟨hpc, hcount, hsignals, hwaits⟩ := hs
  have hc := hall 10000 (2 ^ 63 - 1) s (by decide) (.of_exec hexec (meets_anyStep _ _ _))
  obtain ⟨heq, -⟩ := hc.2 fun i => by
    rw [Subsingleton.elim i 0]
    exact hpc
  rw [hcount, hsignals, hwaits] at heq
  omega

end LightSemaphore

end Pump
