import Pump.Toolkit.O2oFifo
import Pump.Toolkit.Semaphore

/-! # freelock_queue

    `toolkit/freelock_queue.h` over a `freelock_o2o_queue`, as the service
    hands its triggered timers on. `enqueue` pushes and then signals, and
    `dequeue` waits and then pops, again and again until there is something.
    One thread enqueues and one dequeues, and a step of either is a step of
    the queue or of the semaphore. -/

namespace Pump

namespace FreelockQueue

/-! ## Section 1: Model -/

inductive Thread where
  | producer
  | consumer
  deriving DecidableEq

/-- Where `enqueue` is. -/
inductive Enqueue where
  | idle
  | push
  | signal
  deriving DecidableEq

/-- Where `dequeue` or `try_dequeue` is. -/
inductive Dequeue where
  | idle
  | wait
  | pop
  deriving DecidableEq

/-- How the functions wait: `dequeue(item)`, `dequeue(item, timeout_ns)` and
    `try_dequeue(item)`. -/
inductive Wait where
  | forever
  | timeout (timeout_ns : Int)
  | try_wait
  deriving DecidableEq

/-- The queue and its two threads. For the history, `enqueued` and `dequeued`
    are the calls that have returned `true`, and `refused` the calls of `pop`
    that have returned `false`. -/
structure State (τ : Type) where
  queue : O2o.State τ
  semaphone : LightSemaphore.State Thread
  enqueue : Enqueue
  dequeue : Dequeue
  enqueued : Nat
  dequeued : Nat
  refused : Nat

inductive Label (τ : Type) where
  | enqueue (v : τ)
  | dequeue (wait : Wait)
  | produce (ok : Bool)
  | consume (ok : Bool)

variable {τ : Type}

/-- `freelock_queue(size)`; the semaphore has its default arguments. -/
def construct (no_constructor : Bool) (PerBlockElementCount size : BitVec 32) : State τ :=
  { queue := O2o.construct no_constructor PerBlockElementCount size
    semaphone := .new 10000 0
    enqueue := .idle
    dequeue := .idle
    enqueued := 0
    dequeued := 0
    refused := 0 }

namespace State

/-- A step of the semaphore. -/
def semaphore (s : State τ) (l : LightSemaphore.Label Thread) : Option (State τ) :=
  (LightSemaphore.step s.semaphone l).map fun semaphone => { s with semaphone := semaphone }

/-- The next step of `enqueue`. -/
def produce (s : State τ) (ok : Bool) : Option (State τ) :=
  match s.enqueue with
  | .idle => none
  | .push =>
    (s.queue.step .produce).bind fun queue =>
      match queue.producer with
      | .idle => ({ s with queue := queue, enqueue := .signal } : State τ).semaphore
          (.signal .producer 1)
      | _ => some { s with queue := queue }
  | .signal =>
    (s.semaphore (.step .producer ok)).map fun s =>
      match s.semaphone.pcs .producer with
      | .idle => { s with enqueue := .idle, enqueued := s.enqueued + 1 }
      | _ => s

/-- `pop` has made a step. The loop goes on when it has returned `false`. -/
def pop_loop (s : State τ) (queue : O2o.State τ) : Option (State τ) :=
  match queue.consumer with
  | .idle =>
    if s.queue.popped.length < queue.popped.length then
      some { s with queue := queue, dequeue := .idle, dequeued := s.dequeued + 1 }
    else (queue.step .pop).map fun queue => { s with queue := queue, refused := s.refused + 1 }
  | _ => some { s with queue := queue }

/-- The next step of `dequeue`. -/
def consume (s : State τ) (ok : Bool) : Option (State τ) :=
  match s.dequeue with
  | .idle => none
  | .wait =>
    (s.semaphore (.step .consumer ok)).bind fun s' =>
      match s.semaphone.pcs .consumer with
      | .returns true =>
        (s'.queue.step .pop).map fun queue => { s' with queue := queue, dequeue := .pop }
      | .returns false => some { s' with dequeue := .idle }
      | _ => some s'
  | .pop => (s.queue.step .consume).bind s.pop_loop

def step (s : State τ) : Label τ → Option (State τ)
  | .enqueue v =>
    if s.enqueue = .idle then
      (s.queue.step (.push v)).map fun queue => { s with queue := queue, enqueue := .push }
    else none
  | .dequeue wait =>
    if s.dequeue = .idle then
      ({ s with dequeue := .wait } : State τ).semaphore
        (match wait with
        | .forever => .wait .consumer
        | .timeout timeout_ns => .wait_with_timeout .consumer timeout_ns
        | .try_wait => .try_wait .consumer)
    else none
  | .produce ok => s.produce ok
  | .consume ok => s.consume ok

end State

/-- A condition on the runs: the elements can be counted in an `int64_t`. -/
def Countable (s : State τ) : Label τ → Prop
  | .enqueue _ => s.queue.pushed.length + 1 < s.queue.popped.length + 2 ^ 63
  | _ => True

instance (s : State τ) : DecidablePred (Countable s) := fun l => by
  cases l <;> unfold Countable <;> infer_instance

end FreelockQueue

/-! ## Section 2: The queue and the semaphore on their own -/

namespace O2o.State

variable {τ : Type} {s s' : O2o.State τ}

/-- A step of `push` returns, or it goes on. -/
theorem produce_returned (he : s.produce = some s') :
    s'.pushed = s.pushed ∧ (s'.producer = .idle ∧ s'.returned = s.returned + 1 ∨
      s'.producer ≠ .idle ∧ s'.returned = s.returned) := by
  unfold produce at he
  rcases hp : s.producer with _ | v | ⟨v, b⟩ | ⟨v, b, t⟩ | ⟨v, b, t⟩ | ⟨v, b, t⟩ | ⟨v, b, t⟩ |
    ⟨v, b⟩ | ⟨v, b⟩ | ⟨v, b, t⟩ | ⟨v, b, t⟩ | ⟨v, b⟩ | ⟨v, b⟩ | ⟨v, b, c⟩ | ⟨v, b⟩ | ⟨v, b⟩ |
    ⟨v, b⟩ | ⟨v, b⟩ | v
  all_goals
    rw [hp] at he
    simp only at he
  case idle => cases he
  case cached | head | next =>
    split at he
    all_goals
      cases he
      exact ⟨rfl, Or.inr ⟨by simp, rfl⟩⟩
  case store | move | capacity =>
    cases he
    exact ⟨rfl, Or.inl ⟨rfl, rfl⟩⟩
  all_goals
    cases he
    exact ⟨rfl, Or.inr ⟨by simp, rfl⟩⟩

/-- A step of `pop` leaves the other thread alone, and one that gets a value
    is the last. -/
theorem consume_frame (he : s.consume = some s') :
    s'.producer = s.producer ∧ s'.pushed = s.pushed ∧ s'.returned = s.returned ∧
      (s'.popped = s.popped ∨ s'.consumer = .idle ∧ s'.popped.length = s.popped.length + 1) := by
  unfold consume at he
  rcases hp : s.consumer with _ | _ | b | ⟨b, t⟩ | ⟨b, t⟩ | ⟨b, t⟩ | ⟨b, t⟩ | b | b | b | ⟨b, t⟩ |
    ⟨b, t⟩ | ⟨b, t, data⟩
  all_goals
    rw [hp] at he
    simp only at he
  case idle => cases he
  case cached | tail | moved | last =>
    split at he
    all_goals
      cases he
      exact ⟨rfl, rfl, rfl, Or.inl rfl⟩
  case store =>
    cases he
    exact ⟨rfl, rfl, rfl, Or.inr ⟨rfl, List.length_append⟩⟩
  all_goals
    cases he
    exact ⟨rfl, rfl, rfl, Or.inl rfl⟩

end O2o.State

namespace LightSemaphore

variable {ι : Type} {s s' : State ι}

/-- How many signals the next step makes. -/
def Pc.adds : Pc → Int
  | .fetch_add count => count
  | _ => 0

/-- Only the last step of a wait is counted as one. -/
theorem action_counts (s : State ι) (ok : Bool) (pc : Pc) :
    (action s ok pc).2.pcs = s.pcs ∧ (action s ok pc).2.signals = s.signals + pc.adds ∧
      (action s ok pc).2.waits = s.waits + (if pc = .returns true then 1 else 0) := by
  cases pc with
  | returns success => cases success <;> simp [action, Pc.adds]
  | fetch_add count => simp [action, Pc.adds]
  | try_exchange | spin_exchange | kernel_wait | adjust_try_wait | adjust_exchange | post =>
    simp only [action, Pc.adds]
    split <;> simp
  | kernel_wait_with_timeout =>
    simp only [action, Pc.adds]
    split
    · simp
    · split <;> simp
  | _ => simp [action, Pc.adds]

/-- A thread is in `try_wait` or `wait`. -/
def Pc.Waits : Pc → Prop
  | .idle | .fetch_add _ | .post _ => False
  | _ => True

theorem spin_next_stays (timeout spin : Int) : (spin_next timeout spin).Waits := by
  unfold spin_next
  split <;> trivial

theorem try_next_stays (max_spin : Int) (timeout : Option Int) (old_count : Int) :
    (try_next max_spin timeout old_count).Waits := by
  unfold try_next
  split
  · trivial
  · split
    · trivial
    · exact spin_next_stays _ _

/-- A wait goes on until it returns. -/
theorem action_stays (s : State ι) (ok : Bool) {pc : Pc} (h : pc.Waits)
    (hreturns : ∀ success, pc ≠ .returns success) : (action s ok pc).1.Waits := by
  cases pc with
  | idle | fetch_add | post => exact h.elim
  | returns success => exact absurd rfl (hreturns success)
  | try_load => exact try_next_stays _ _ _
  | try_exchange =>
    simp only [action]
    split
    · trivial
    · exact try_next_stays _ _ _
  | spin_load =>
    simp only [action]
    split
    · trivial
    · exact spin_next_stays _ _
  | spin_exchange =>
    simp only [action]
    split
    · trivial
    · exact spin_next_stays _ _
  | fetch_sub =>
    simp only [action]
    split
    · trivial
    · split <;> trivial
  | kernel_wait | adjust_load | adjust_try_wait | adjust_exchange =>
    simp only [action]
    split <;> trivial
  | kernel_wait_with_timeout =>
    simp only [action]
    split
    · trivial
    · split <;> trivial

/-- Where a signal goes on with what it has to release. -/
theorem action_signal (s : State ι) (ok : Bool) {pc : Pc} (h : pc = .fetch_add 1 ∨ pc = .post 1)
    (hfits : Fits s pc) : (action s ok pc).1 = .post 1 ∨ (action s ok pc).1 = .idle := by
  rcases h with rfl | rfl
  · simp only [action]
    split
    · next hpos =>
      left
      have hle : to_release s.count 1 ≤ 1 := by
        unfold to_release
        split
        · next hlt => exact le_of_lt hlt
        · exact le_refl _
      rw [bmod_of_release hpos.1 (by omega), show to_release s.count 1 = 1 by omega]
    · exact Or.inr rfl
  · simp only [action]
    split
    · exact Or.inr rfl
    · exact Or.inl rfl

/-- A wait gives up where the counter, with the token the thread has taken off
    it, has none. -/
theorem action_empty {ok : Bool} {pc : Pc} (hsound : pc.Sound)
    (h : (action s ok pc).1 = .returns false) : s.count + pc.takes ≤ 0 := by
  have hspin : ∀ timeout spin, spin_next timeout spin ≠ .returns false := by
    intro timeout spin
    unfold spin_next
    split <;> simp
  have htry : ∀ timeout, try_next s.max_spin timeout s.count = .returns false → s.count ≤ 0 := by
    intro timeout htry
    unfold try_next at htry
    split at htry
    · cases htry
    · next hnone => exact not_lt.mp hnone
  cases pc with
  | try_load timeout => exact (add_zero s.count).trans_le (htry timeout h)
  | try_exchange timeout old_count =>
    simp only [action] at h
    split at h
    · cases h
    · exact (add_zero s.count).trans_le (htry timeout h)
  | spin_load timeout spin =>
    simp only [action] at h
    split at h
    · cases h
    · exact absurd h (hspin _ _)
  | spin_exchange timeout spin old_count =>
    simp only [action] at h
    split at h
    · cases h
    · exact absurd h (hspin _ _)
  | adjust_exchange old_count =>
    -- the thread takes back its own decrement
    have hneg : old_count < 0 := hsound
    simp only [action] at h
    split at h
    · next heq =>
      show s.count + 1 ≤ 0
      omega
    · cases h
  | returns success =>
    simp only [action] at h
    cases h
  | idle => cases h
  | adjust_load | kernel_wait | adjust_try_wait | post | fetch_add | fetch_sub |
    kernel_wait_with_timeout =>
    simp only [action] at h
    split_ifs at h
    all_goals cases h

end LightSemaphore

/-! ## Section 3: There is something to pop -/

namespace FreelockQueue

open LightSemaphore (Pc Account)

variable {τ : Type}

/-- What `enqueue` has done: the signal of the last push may be still to
    come. -/
def Enqueue.Fact (s : State τ) : Enqueue → Prop
  | .idle => s.queue.producer = .idle ∧ s.semaphone.pcs .producer = .idle ∧
      s.semaphone.signals = s.queue.returned ∧ s.enqueued = s.queue.returned
  | .push => s.queue.producer ≠ .idle ∧ s.semaphone.pcs .producer = .idle ∧
      s.semaphone.signals = s.queue.returned ∧ s.enqueued = s.queue.returned
  | .signal => s.queue.producer = .idle ∧ s.enqueued + 1 = s.queue.returned ∧
      (s.semaphone.pcs .producer = .fetch_add 1 ∧ s.semaphone.signals + 1 = s.queue.returned ∨
        s.semaphone.pcs .producer = .post 1 ∧ s.semaphone.signals = s.queue.returned)

/-- What `dequeue` has done: it pops when its wait has got a signal. -/
def Dequeue.Fact (s : State τ) : Dequeue → Prop
  | .idle => s.queue.consumer = .idle ∧ s.semaphone.pcs .consumer = .idle ∧
      s.semaphone.waits = s.queue.popped.length
  | .wait => s.queue.consumer = .idle ∧ (s.semaphone.pcs .consumer).Waits ∧
      s.semaphone.waits = s.queue.popped.length
  | .pop => s.queue.consumer ≠ .idle ∧ s.semaphone.pcs .consumer = .idle ∧
      s.semaphone.waits = s.queue.popped.length + 1 ∧
      s.queue.popped.length < s.queue.returned_before

/-- **The invariant.** -/
structure Inv (s : State τ) : Prop where
  queue : s.queue.Inv
  account : Account 0 s.semaphone
  enqueue : s.enqueue.Fact s
  dequeue : s.dequeue.Fact s
  counts : s.dequeued = s.queue.popped.length ∧ s.refused = 0
  countable : s.queue.pushed.length < s.queue.popped.length + 2 ^ 63

variable {s s' : State τ}

theorem Inv.tokens (h : Inv s) :
    s.semaphone.signals - s.semaphone.waits - s.semaphone.count =
        (s.semaphone.pcs .producer).takes + (s.semaphone.pcs .consumer).takes ∧
      max (-s.semaphone.count) 0 + s.semaphone.semaphone =
        (s.semaphone.pcs .producer).owes + (s.semaphone.pcs .consumer).owes := by
  have hne : Thread.producer ≠ Thread.consumer := by decide
  have hall : ∀ k : Thread, k = .producer ∨ k = .consumer := by
    intro k
    cases k
    · exact Or.inl rfl
    · exact Or.inr rfl
  have htakes := h.account.tokens.eq_add hne hall
  have howes := h.account.kernel.eq_add hne hall
  push_cast at htakes
  omega

/-- What a step of `enqueue` is. -/
theorem produce_cases {ok : Bool} (h : s.produce ok = some s') :
    (s.enqueue = .push ∧ ∃ queue, s.queue.produce = some queue ∧
      (queue.producer ≠ .idle ∧ s' = { s with queue := queue } ∨
        queue.producer = .idle ∧ ∃ sem, s.semaphone.enter .producer (.fetch_add 1) = some sem ∧
          s' = { s with queue := queue, semaphone := sem, enqueue := .signal })) ∨
    (s.enqueue = .signal ∧ ∃ r, r = LightSemaphore.action s.semaphone ok (s.semaphone.pcs .producer) ∧
      (r.1 ≠ .idle ∧ s' = { s with semaphone := r.2.goto .producer r.1 } ∨
        r.1 = .idle ∧ s' = { s with
          semaphone := r.2.goto .producer r.1, enqueue := .idle, enqueued := s.enqueued + 1 })) := by
  unfold State.produce at h
  cases he : s.enqueue with
  | idle =>
    rw [he] at h
    cases h
  | push =>
    rw [he] at h
    obtain ⟨queue, hqueue, hrest⟩ := Option.bind_eq_some_iff.mp h
    refine Or.inl ⟨rfl, queue, hqueue, ?_⟩
    split at hrest
    · next hidle =>
      obtain ⟨sem, hsem, rfl⟩ := Option.map_eq_some_iff.mp hrest
      exact Or.inr ⟨hidle, sem, hsem, rfl⟩
    · next hbusy =>
      cases hrest
      exact Or.inl ⟨hbusy, rfl⟩
  | signal =>
    rw [he] at h
    obtain ⟨t, ht, hrest⟩ := Option.map_eq_some_iff.mp h
    obtain ⟨sem, hsem, rfl⟩ := Option.map_eq_some_iff.mp ht
    cases hsem
    refine Or.inr ⟨rfl, _, rfl, ?_⟩
    have hself : ∀ r : Pc × LightSemaphore.State Thread,
        (r.2.goto .producer r.1).pcs .producer = r.1 := by
      intro r
      exact Function.update_self Thread.producer r.1 r.2.pcs
    dsimp only at hrest
    rw [hself] at hrest
    split at hrest
    · next hidle => exact Or.inr ⟨hidle, hrest.symm⟩
    · next hbusy => exact Or.inl ⟨hbusy, by rw [← hrest, ← he]⟩

/-- What a step of `dequeue` is. -/
theorem consume_cases {ok : Bool} (h : s.consume ok = some s') :
    (s.dequeue = .wait ∧ ∃ sem, LightSemaphore.step s.semaphone (.step .consumer ok) = some sem ∧
      (s.semaphone.pcs .consumer = .returns true ∧ (∃ queue, s.queue.step .pop = some queue ∧
          s' = { s with queue := queue, semaphone := sem, dequeue := .pop }) ∨
        s.semaphone.pcs .consumer = .returns false ∧
          s' = { s with semaphone := sem, dequeue := .idle } ∨
        (∀ success, s.semaphone.pcs .consumer ≠ .returns success) ∧
          s' = { s with semaphone := sem })) ∨
    (s.dequeue = .pop ∧ ∃ queue, s.queue.consume = some queue ∧ s.pop_loop queue = some s') := by
  unfold State.consume at h
  cases hd : s.dequeue with
  | idle =>
    rw [hd] at h
    cases h
  | wait =>
    rw [hd] at h
    obtain ⟨t, ht, hrest⟩ := Option.bind_eq_some_iff.mp h
    obtain ⟨sem, hsem, rfl⟩ := Option.map_eq_some_iff.mp ht
    refine Or.inl ⟨rfl, sem, hsem, ?_⟩
    split at hrest
    · next hreturns =>
      obtain ⟨queue, hqueue, rfl⟩ := Option.map_eq_some_iff.mp hrest
      exact Or.inl ⟨hreturns, queue, hqueue, rfl⟩
    · next hreturns =>
      cases hrest
      exact Or.inr (Or.inl ⟨hreturns, rfl⟩)
    · next htrue hfalse =>
      cases hrest
      refine Or.inr (Or.inr ⟨?_, by rw [← hd]⟩)
      intro success
      cases success
      · exact hfalse
      · exact htrue
  | pop =>
    rw [hd] at h
    exact Or.inr ⟨rfl, Option.bind_eq_some_iff.mp h⟩

theorem Enqueue.Fact.frame {e : Enqueue} (h : e.Fact s)
    (hqueue : s'.queue.producer = s.queue.producer ∧ s'.queue.returned = s.queue.returned)
    (hpc : s'.semaphone.pcs .producer = s.semaphone.pcs .producer)
    (hsignals : s'.semaphone.signals = s.semaphone.signals) (henqueued : s'.enqueued = s.enqueued) :
    e.Fact s' := by
  cases e
  all_goals
    unfold Enqueue.Fact at *
    rwa [hqueue.1, hqueue.2, hpc, hsignals, henqueued]

theorem Dequeue.Fact.frame {d : Dequeue} (h : d.Fact s)
    (hqueue : s'.queue.consumer = s.queue.consumer ∧ s'.queue.popped = s.queue.popped ∧
      s'.queue.returned_before = s.queue.returned_before)
    (hpc : s'.semaphone.pcs .consumer = s.semaphone.pcs .consumer)
    (hwaits : s'.semaphone.waits = s.semaphone.waits) : d.Fact s' := by
  cases d
  all_goals
    unfold Dequeue.Fact at *
    rw [hqueue.1, hqueue.2.1, hpc, hwaits]
  case pop => rwa [hqueue.2.2]
  all_goals exact h

/-- Of the elements that were pushed, those of the calls that have returned. -/
theorem Inv.pushed_eq (h : Inv s) :
    s.queue.pushed.length = s.queue.returned + s.queue.producer.calls := by
  obtain ⟨used, free, items, out, hqueue⟩ := h.queue
  exact hqueue.calls

/-- The producer has nothing of the semaphore to wait for. -/
theorem Inv.producer (h : Inv s) : (s.semaphone.pcs .producer).takes = 0 ∧
    (s.semaphone.pcs .producer).owes ≤ 0 ∧ s.semaphone.signals ≤ s.queue.returned ∧
    s.enqueued ≤ s.semaphone.signals := by
  have hfact := h.enqueue
  cases he : s.enqueue with
  | idle | push =>
    rw [he] at hfact
    obtain ⟨-, hpc, hsignals, henqueued⟩ := hfact
    rw [hpc]
    exact ⟨rfl, by decide, by omega, by omega⟩
  | signal =>
    rw [he] at hfact
    obtain ⟨-, henqueued, ⟨hpc, hsignals⟩ | ⟨hpc, hsignals⟩⟩ := hfact
    · rw [hpc]
      exact ⟨rfl, by decide, by omega, by omega⟩
    · rw [hpc]
      exact ⟨rfl, by decide, by omega, by omega⟩

theorem Inv.consumer (h : Inv s) : 0 ≤ (s.semaphone.pcs .consumer).takes ∧
    (s.semaphone.pcs .consumer).takes ≤ 1 ∧ s.queue.popped.length ≤ s.semaphone.waits := by
  have htakes : ∀ pc : Pc, 0 ≤ pc.takes ∧ pc.takes ≤ 1 := by
    intro pc
    cases pc with
    | returns success => cases success <;> decide
    | _ => exact ⟨by simp [Pc.takes], by simp [Pc.takes]⟩
  refine ⟨(htakes _).1, (htakes _).2, ?_⟩
  have hfact := h.dequeue
  cases hd : s.dequeue with
  | idle | wait =>
    rw [hd] at hfact
    exact le_of_eq hfact.2.2.symm
  | pop =>
    rw [hd] at hfact
    have hwaits := hfact.2.2.1
    omega

/-- No machine integer of the semaphore overflows. -/
theorem Inv.fits (h : Inv s) {i : Thread} (hpc : s.semaphone.pcs i = .fetch_add 1 →
      s.semaphone.signals + 1 = s.queue.returned)
    (honly : ∀ count, s.semaphone.pcs i = .fetch_add count → count = 1) :
    LightSemaphore.Fits s.semaphone (s.semaphone.pcs i) := by
  obtain ⟨htakes, -⟩ := h.tokens
  obtain ⟨hproducer, -, hsignals, -⟩ := h.producer
  obtain ⟨hnonneg, hle, hpopped⟩ := h.consumer
  have hbalanced := h.account.balanced.1
  have hpushed := h.pushed_eq
  have hcountable := h.countable
  have hrange := h.account.range
  cases hi : s.semaphone.pcs i with
  | fetch_sub timeout =>
    show -2 ^ 63 < s.semaphone.count - 1
    push_cast at hbalanced
    omega
  | fetch_add count =>
    obtain rfl := honly count hi
    have hlast := hpc hi
    refine ⟨by omega, ?_⟩
    unfold LightSemaphore.to_release
    rw [LightSemaphore.bmod_of_range (by push_cast at hbalanced; omega)
      (by push_cast at hbalanced; omega)]
    split
    · omega
    · decide
  | _ => trivial

theorem Inv.fits_consumer (h : Inv s) (hwait : s.dequeue = .wait) :
    LightSemaphore.Fits s.semaphone (s.semaphone.pcs .consumer) := by
  have hfact := h.dequeue
  rw [hwait] at hfact
  have hwaits := hfact.2.1
  have hno : ∀ count, s.semaphone.pcs .consumer ≠ .fetch_add count := by
    intro count heq
    rw [heq] at hwaits
    exact hwaits
  exact h.fits (fun heq => absurd heq (hno 1)) fun count heq => absurd heq (hno count)

theorem Inv.fits_producer (h : Inv s) (hsignal : s.enqueue = .signal) :
    LightSemaphore.Fits s.semaphone (s.semaphone.pcs .producer) := by
  have hfact := h.enqueue
  rw [hsignal] at hfact
  obtain ⟨-, -, ⟨hpc, hsignals⟩ | ⟨hpc, -⟩⟩ := hfact
  · apply h.fits
    · intro _
      exact hsignals
    · intro count heq
      rw [hpc] at heq
      cases heq
      rfl
  · rw [hpc]
    trivial

/-! ## Section 4: Steps -/

theorem step_sem {sem sem' : LightSemaphore.State Thread} {i : Thread} {ok : Bool}
    (h : LightSemaphore.step sem (.step i ok) = some sem') :
    (∀ j, j ≠ i → sem'.pcs j = sem.pcs j) ∧
      sem'.pcs i = (LightSemaphore.action sem ok (sem.pcs i)).1 ∧
      sem'.signals = sem.signals + (sem.pcs i).adds ∧
      sem'.waits = sem.waits + (if sem.pcs i = .returns true then 1 else 0) := by
  cases h
  obtain ⟨hpcs, hsignals, hwaits⟩ := LightSemaphore.action_counts sem ok (sem.pcs i)
  refine ⟨?_, Function.update_self _ _ _, hsignals, hwaits⟩
  intro j hj
  show Function.update (LightSemaphore.action sem ok (sem.pcs i)).2.pcs i _ j = _
  rw [Function.update_of_ne hj, hpcs]

theorem enter_sem {sem sem' : LightSemaphore.State Thread} {i : Thread} {pc : Pc}
    (h : sem.enter i pc = some sem') :
    sem' = sem.goto i pc ∧ (∀ j, j ≠ i → sem'.pcs j = sem.pcs j) ∧ sem'.pcs i = pc := by
  unfold LightSemaphore.State.enter at h
  split at h
  · cases h
    refine ⟨rfl, ?_, Function.update_self _ _ _⟩
    intro j hj
    exact Function.update_of_ne hj _ _
  · cases h

theorem inv_enqueue {v : τ} (h : Inv s) (hok : Countable s (.enqueue v))
    (hstep : s.step (.enqueue v) = some s') : Inv s' := by
  simp only [State.step] at hstep
  split at hstep
  · next hidle =>
    obtain ⟨queue, hqueue, rfl⟩ := Option.map_eq_some_iff.mp hstep
    have hfact := h.enqueue
    rw [hidle] at hfact
    obtain ⟨hproducer, hpc, hsignals, henqueued⟩ := hfact
    obtain ⟨hconsumer, hpopped, hbefore, -⟩ := O2o.State.step_other rfl hqueue
    have hinv := O2o.State.step_inv h.queue hqueue
    simp only [O2o.State.step, hproducer] at hqueue
    cases hqueue
    constructor
    case queue => exact hinv
    case account => exact h.account
    case enqueue => exact ⟨by simp, hpc, hsignals, henqueued⟩
    case dequeue => exact h.dequeue.frame ⟨hconsumer, hpopped, hbefore⟩ rfl rfl
    case counts => exact h.counts
    case countable =>
      show (s.queue.pushed ++ [v]).length < _
      rw [List.length_append]
      exact hok
  · cases hstep

theorem inv_produce {ok : Bool} (h : Inv s) (hstep : s.produce ok = some s') : Inv s' := by
  have hfact := h.enqueue
  rcases produce_cases hstep with ⟨hpush, queue, hqueue, hcase⟩ | ⟨hsignal, r, hr, hcase⟩
  · rw [hpush] at hfact
    obtain ⟨-, hpc, hsignals, henqueued⟩ := hfact
    have hinv := O2o.State.step_inv (l := .produce) h.queue hqueue
    obtain ⟨hconsumer, hpopped, hbefore, -⟩ := O2o.State.step_other (l := .produce) rfl hqueue
    obtain ⟨hpushed, hreturned⟩ := O2o.State.produce_returned hqueue
    have hcountable := h.countable
    rcases hcase with ⟨hbusy, rfl⟩ | ⟨hidle, sem, hsem, rfl⟩
    · -- the push goes on
      have hsame : queue.returned = s.queue.returned := by
        rcases hreturned with ⟨hnot, -⟩ | ⟨-, hsame⟩
        · exact absurd hnot hbusy
        · exact hsame
      constructor
      case queue => exact hinv
      case account => exact h.account
      case enqueue =>
        show s.enqueue.Fact _
        rw [hpush]
        exact ⟨hbusy, hpc, hsignals.trans (by rw [hsame]), henqueued.trans hsame.symm⟩
      case dequeue => exact h.dequeue.frame ⟨hconsumer, hpopped, hbefore⟩ rfl rfl
      case counts => exact ⟨h.counts.1.trans (by rw [hpopped]), h.counts.2⟩
      case countable =>
        show queue.pushed.length < queue.popped.length + 2 ^ 63
        rwa [hpushed, hpopped]
    · -- the push returns, and the signal is next
      have hnext : queue.returned = s.queue.returned + 1 := by
        rcases hreturned with ⟨-, hnext⟩ | ⟨hnot, -⟩
        · exact hnext
        · exact absurd hidle hnot
      obtain ⟨hgoto, hother, hself⟩ := enter_sem hsem
      have hadd : (Pc.fetch_add 1).Sound := ⟨by decide, by decide⟩
      constructor
      case queue => exact hinv
      case account => exact LightSemaphore.account_enter h.account hsem hadd rfl rfl
      case enqueue =>
        refine ⟨hidle, ?_, Or.inl ⟨hself, ?_⟩⟩
        · show s.enqueued + 1 = queue.returned
          omega
        · show sem.signals + 1 = queue.returned
          rw [hgoto]
          show s.semaphone.signals + 1 = queue.returned
          omega
      case dequeue =>
        exact h.dequeue.frame ⟨hconsumer, hpopped, hbefore⟩ (hother .consumer (by decide))
          (by rw [hgoto]; rfl)
      case counts => exact ⟨h.counts.1.trans (by rw [hpopped]), h.counts.2⟩
      case countable =>
        show queue.pushed.length < queue.popped.length + 2 ^ 63
        rwa [hpushed, hpopped]
  · have hfits := h.fits_producer hsignal
    rw [hsignal] at hfact
    obtain ⟨hproducer, henqueued, hpcs⟩ := hfact
    have haccount := LightSemaphore.account_step (l := .step Thread.producer ok) h.account hfits rfl
    have hsem : LightSemaphore.step s.semaphone (.step .producer ok) = some _ := rfl
    obtain ⟨hother, hself, hsignals, hwaits⟩ := step_sem hsem
    have hnext := LightSemaphore.action_signal s.semaphone ok
      (hpcs.imp And.left And.left) hfits
    -- what is counted is the signal, and no wait
    have hsum : s.semaphone.signals + (s.semaphone.pcs .producer).adds = s.queue.returned := by
      rcases hpcs with ⟨hpc, hs⟩ | ⟨hpc, hs⟩
      · rw [hpc]
        exact hs
      · rw [hpc]
        show s.semaphone.signals + 0 = _
        rw [add_zero, hs]
    have hnowait : s.semaphone.pcs .producer ≠ .returns true := by
      rcases hpcs with ⟨hpc, -⟩ | ⟨hpc, -⟩
      · rw [hpc]
        simp
      · rw [hpc]
        simp
    rw [if_neg hnowait, Nat.add_zero] at hwaits
    rw [hsum] at hsignals
    rw [← hr] at hnext
    subst hr
    rcases hcase with ⟨hbusy, rfl⟩ | ⟨hidle, rfl⟩
    · constructor
      case queue => exact h.queue
      case account => exact haccount
      case enqueue =>
        show s.enqueue.Fact _
        rw [hsignal]
        refine ⟨hproducer, henqueued, Or.inr ⟨?_, hsignals⟩⟩
        exact hself.trans (hnext.resolve_right hbusy)
      case dequeue =>
        exact h.dequeue.frame ⟨rfl, rfl, rfl⟩ (hother .consumer (by decide)) hwaits
      case counts => exact h.counts
      case countable => exact h.countable
    · constructor
      case queue => exact h.queue
      case account => exact haccount
      case enqueue => exact ⟨hproducer, hself.trans hidle, hsignals, henqueued⟩
      case dequeue =>
        exact h.dequeue.frame ⟨rfl, rfl, rfl⟩ (hother .consumer (by decide)) hwaits
      case counts => exact h.counts
      case countable => exact h.countable

theorem inv_dequeue {wait : Wait} (h : Inv s) (hstep : s.step (.dequeue wait) = some s') :
    Inv s' := by
  simp only [State.step] at hstep
  split at hstep
  · next hidle =>
    obtain ⟨sem, hsem, rfl⟩ := Option.map_eq_some_iff.mp hstep
    have hfact := h.dequeue
    rw [hidle] at hfact
    obtain ⟨hconsumer, -, hwaits⟩ := hfact
    obtain ⟨timeout, henter⟩ : ∃ timeout, s.semaphone.enter .consumer (.try_load timeout) = some sem := by
      cases wait with
      | forever => exact ⟨_, hsem⟩
      | timeout timeout_ns => exact ⟨_, hsem⟩
      | try_wait => exact ⟨_, hsem⟩
    obtain ⟨hgoto, hother, hself⟩ := enter_sem henter
    constructor
    case queue => exact h.queue
    case account => exact LightSemaphore.account_enter h.account henter trivial rfl rfl
    case enqueue =>
      exact h.enqueue.frame ⟨rfl, rfl⟩ (hother .producer (by decide)) (by rw [hgoto]; rfl) rfl
    case dequeue =>
      refine ⟨hconsumer, ?_, ?_⟩
      · show (sem.pcs .consumer).Waits
        rw [hself]
        trivial
      · show sem.waits = s.queue.popped.length
        rw [hgoto]
        exact hwaits
    case counts => exact h.counts
    case countable => exact h.countable
  · cases hstep

/-- A signal that a wait has got is for an element that is still there. -/
theorem Inv.owed (h : Inv s) (hwait : s.dequeue = .wait)
    (hreturns : s.semaphone.pcs .consumer = .returns true) :
    s.queue.popped.length < s.queue.returned := by
  obtain ⟨htakes, howes⟩ := h.tokens
  obtain ⟨hproducer, howed, hsignals, -⟩ := h.producer
  have hfact := h.dequeue
  rw [hwait] at hfact
  have hwaits := hfact.2.2
  rw [hproducer, hreturns, show (Pc.returns true).takes = 1 from rfl] at htakes
  rw [hreturns, show (Pc.returns true).owes = 0 from rfl] at howes
  -- no thread waits for the kernel, and the counter is not below zero
  omega

theorem inv_consume {ok : Bool} (h : Inv s) (hstep : s.consume ok = some s') : Inv s' := by
  have hfact := h.dequeue
  rcases consume_cases hstep with ⟨hwait, sem, hsem, hcase⟩ | ⟨hpop, queue, hqueue, hloop⟩
  · have hfits := h.fits_consumer hwait
    have howed := h.owed hwait
    rw [hwait] at hfact
    obtain ⟨hconsumer, hwaiting, hwaits⟩ := hfact
    have haccount := LightSemaphore.account_step (l := .step Thread.consumer ok) h.account hfits hsem
    obtain ⟨hother, hself, hsignals, hcount⟩ := step_sem hsem
    have hadds : (s.semaphone.pcs .consumer).adds = 0 := by
      cases hpc : s.semaphone.pcs .consumer with
      | fetch_add count =>
        rw [hpc] at hwaiting
        exact hwaiting.elim
      | _ => rfl
    rw [hadds, add_zero] at hsignals
    have henqueue : ∀ t : State τ, t.queue.producer = s.queue.producer →
        t.queue.returned = s.queue.returned → t.semaphone = sem → t.enqueued = s.enqueued →
          s.enqueue.Fact t := by
      rintro t hp hr rfl he
      exact h.enqueue.frame ⟨hp, hr⟩ (hother .producer (by decide)) hsignals he
    rcases hcase with ⟨htrue, pop, hpop, rfl⟩ | ⟨hfalse, rfl⟩ | ⟨hgoes, rfl⟩
    · -- the wait has got a signal
      have hinv := O2o.State.step_inv h.queue hpop
      simp only [O2o.State.step, hconsumer] at hpop
      cases hpop
      rw [htrue] at hself hcount
      constructor
      case queue => exact hinv
      case account => exact haccount
      case enqueue => exact henqueue _ rfl rfl rfl rfl
      case dequeue =>
        refine ⟨by simp, hself, ?_, howed htrue⟩
        exact hcount.trans (by rw [if_pos rfl, hwaits])
      case counts => exact h.counts
      case countable => exact h.countable
    · rw [hfalse] at hself hcount
      constructor
      case queue => exact h.queue
      case account => exact haccount
      case enqueue => exact henqueue _ rfl rfl rfl rfl
      case dequeue => exact ⟨hconsumer, hself, hcount.trans (by rw [if_neg (by simp), hwaits]; rfl)⟩
      case counts => exact h.counts
      case countable => exact h.countable
    · have hstays := LightSemaphore.action_stays s.semaphone ok hwaiting hgoes
      rw [← hself] at hstays
      rw [if_neg (hgoes true), Nat.add_zero, hwaits] at hcount
      constructor
      case queue => exact h.queue
      case account => exact haccount
      case enqueue => exact henqueue _ rfl rfl rfl rfl
      case dequeue =>
        show s.dequeue.Fact _
        rw [hwait]
        exact ⟨hconsumer, hstays, hcount⟩
      case counts => exact h.counts
      case countable => exact h.countable
  · rw [hpop] at hfact
    obtain ⟨-, hpc, hwaits, howed⟩ := hfact
    have hinv := O2o.State.step_inv (l := .consume) h.queue hqueue
    obtain ⟨hproducer, hpushed, hreturned, hpopped⟩ := O2o.State.consume_frame hqueue
    have hcountable := h.countable
    unfold State.pop_loop at hloop
    rcases O2o.State.consume_progress h.queue howed hqueue with hmore | ⟨hbusy, hsame, hbefore, -⟩
    · -- there is a value, and `dequeue` returns
      obtain ⟨hidle, hlength⟩ : queue.consumer = .idle ∧
          queue.popped.length = s.queue.popped.length + 1 := by
        rcases hpopped with heq | hlast
        · rw [heq] at hmore
          exact absurd hmore (lt_irrefl _)
        · exact hlast
      rw [hidle] at hloop
      dsimp only at hloop
      rw [if_pos hmore] at hloop
      cases hloop
      constructor
      case queue => exact hinv
      case account => exact h.account
      case enqueue => exact h.enqueue.frame ⟨hproducer, hreturned⟩ rfl rfl rfl
      case dequeue => exact ⟨hidle, hpc, by rw [hlength]; exact hwaits⟩
      case counts => exact ⟨by rw [hlength]; exact congrArg (· + 1) h.counts.1, h.counts.2⟩
      case countable =>
        show queue.pushed.length < queue.popped.length + 2 ^ 63
        rw [hpushed, hlength]
        omega
    · -- `pop` goes on
      split at hloop
      · next hidle => exact absurd hidle hbusy
      · cases hloop
        constructor
        case queue => exact hinv
        case account => exact h.account
        case enqueue => exact h.enqueue.frame ⟨hproducer, hreturned⟩ rfl rfl rfl
        case dequeue =>
          show s.dequeue.Fact _
          rw [hpop]
          refine ⟨hbusy, hpc, ?_, ?_⟩
          · show s.semaphone.waits = queue.popped.length + 1
            rw [hsame, hwaits]
          · show queue.popped.length < queue.returned_before
            rwa [hsame, hbefore]
        case counts => exact ⟨h.counts.1.trans (by rw [hsame]), h.counts.2⟩
        case countable =>
          show queue.pushed.length < queue.popped.length + 2 ^ 63
          rwa [hpushed, hsame]

theorem step_inv {l : Label τ} (h : Inv s) (hok : Countable s l) (hstep : s.step l = some s') :
    Inv s' := by
  cases l with
  | enqueue v => exact inv_enqueue h hok hstep
  | dequeue wait => exact inv_dequeue h hstep
  | produce ok => exact inv_produce h hstep
  | consume ok => exact inv_consume h hstep

theorem construct_inv (no_constructor : Bool) {PerBlockElementCount : BitVec 32}
    (hcount : 2 ≤ PerBlockElementCount.toInt) (size : BitVec 32) :
    Inv (construct no_constructor PerBlockElementCount size : State τ) := by
  constructor
  case queue => exact O2o.construct_inv no_constructor hcount size
  case account => exact LightSemaphore.new_account 10000 (by decide)
  case enqueue => exact ⟨rfl, rfl, rfl, rfl⟩
  case dequeue => exact ⟨rfl, rfl, rfl⟩
  case counts => exact ⟨rfl, rfl⟩
  case countable =>
    show 0 < 0 + 2 ^ 63
    decide

/-! ## Section 5: Every run -/

/-- A step of the thread that dequeues. -/
def of_consumer : Label τ → Bool
  | .dequeue _ | .consume _ => true
  | .enqueue _ | .produce _ => false

/-- The consumer waits for the kernel, which has no signal for it. -/
def Blocked (s : State τ) : Prop :=
  s.semaphone.semaphone = 0 ∧ (s.semaphone.pcs .consumer = .kernel_wait ∨
    s.semaphone.pcs .consumer = .kernel_wait_with_timeout)

/-- **Elements are handed over**: each `dequeue` that returns `true` has the
    next element, `pop` never refuses a `dequeue` that got its signal, and no
    element is left behind with a consumer that sleeps. -/
structure Delivers (s : State τ) : Prop where
  in_order : s.queue.popped <+: s.queue.pushed.map some
  dequeued : s.dequeued = s.queue.popped.length
  never_refused : s.refused = 0
  goes_on : s.dequeue ≠ .idle → ∀ ok, (s.step (.consume ok)).isSome = true
  returns : s.dequeue = .pop → ∀ ls s', exec State.step s ls = some s' →
    12 ≤ ls.countP of_consumer → s.dequeued < s'.dequeued
  awake : s.enqueue = .idle → Blocked s → s.queue.popped = s.queue.pushed.map some
  at_rest : s.enqueue = .idle → s.dequeue = .idle →
    s.semaphone.count + s.queue.popped.length = s.queue.pushed.length ∧ s.semaphone.semaphone = 0

theorem step_dequeued {l : Label τ} (hstep : s.step l = some s') : s.dequeued ≤ s'.dequeued := by
  cases l with
  | enqueue v =>
    simp only [State.step] at hstep
    split at hstep
    · obtain ⟨queue, -, rfl⟩ := Option.map_eq_some_iff.mp hstep
      exact le_refl _
    · cases hstep
  | dequeue wait =>
    simp only [State.step] at hstep
    split at hstep
    · obtain ⟨sem, -, rfl⟩ := Option.map_eq_some_iff.mp hstep
      exact le_refl _
    · cases hstep
  | produce ok =>
    rcases produce_cases hstep with ⟨-, queue, -, ⟨-, rfl⟩ | ⟨-, sem, -, rfl⟩⟩ |
      ⟨-, r, -, ⟨-, rfl⟩ | ⟨-, rfl⟩⟩
    all_goals exact le_refl _
  | consume ok =>
    rcases consume_cases hstep with ⟨-, sem, -, hcase⟩ | ⟨-, queue, -, hloop⟩
    · rcases hcase with ⟨-, queue, -, rfl⟩ | ⟨-, rfl⟩ | ⟨-, rfl⟩
      all_goals exact le_refl _
    · unfold State.pop_loop at hloop
      split at hloop
      · split at hloop
        · cases hloop
          exact Nat.le_succ _
        · obtain ⟨queue', -, rfl⟩ := Option.map_eq_some_iff.mp hloop
          exact le_refl _
      · cases hloop
        exact le_refl _

theorem exec_dequeued {ls : List (Label τ)} (he : exec State.step s ls = some s') :
    s.dequeued ≤ s'.dequeued := by
  induction ls generalizing s with
  | nil =>
    cases he
    exact le_refl _
  | cons l ls ih =>
    obtain ⟨mid, hstep, hrest⟩ := Option.bind_eq_some_iff.mp he
    exact le_trans (step_dequeued hstep) (ih hrest)

/-- `dequeue` is in a `pop` that has a value to get. -/
structure Popping (s : State τ) : Prop where
  queue : s.queue.Inv
  dequeue : s.dequeue = .pop
  busy : s.queue.consumer ≠ .idle
  owed : s.queue.popped.length < s.queue.returned_before

/-- How many steps the consumer has made with `l`. -/
def own (l : Label τ) : Nat := if of_consumer l then 1 else 0

theorem Popping.step {l : Label τ} (h : Popping s) (hstep : s.step l = some s') :
    s.dequeued < s'.dequeued ∨ (Popping s' ∧ s'.dequeued = s.dequeued ∧
      O2o.State.steps_left s'.queue.consumer + own l ≤ O2o.State.steps_left s.queue.consumer) := by
  obtain ⟨hinv, hpop, hbusy, howed⟩ := h
  -- a step of the producer leaves the call alone
  have hother : ∀ l' queue, O2o.State.of_consumer l' = false → s.queue.step l' = some queue →
      queue.Inv ∧ queue.consumer = s.queue.consumer ∧
        queue.popped.length < queue.returned_before := by
    intro l' queue hl hqueue
    obtain ⟨hconsumer, hpopped, hbefore, -⟩ := O2o.State.step_other hl hqueue
    refine ⟨O2o.State.step_inv hinv hqueue, hconsumer, ?_⟩
    rwa [hpopped, hbefore]
  cases l with
  | enqueue v =>
    simp only [State.step] at hstep
    split at hstep
    · obtain ⟨queue, hqueue, rfl⟩ := Option.map_eq_some_iff.mp hstep
      obtain ⟨hinv', hconsumer, howed'⟩ := hother _ _ rfl hqueue
      exact Or.inr ⟨⟨hinv', hpop, by rwa [hconsumer], howed'⟩, rfl, by rw [hconsumer]; exact le_refl _⟩
    · cases hstep
  | dequeue wait =>
    simp only [State.step] at hstep
    rw [if_neg (by rw [hpop]; decide)] at hstep
    cases hstep
  | produce ok =>
    right
    rcases produce_cases hstep with ⟨-, queue, hqueue, ⟨-, rfl⟩ | ⟨-, sem, -, rfl⟩⟩ |
      ⟨-, r, -, ⟨-, rfl⟩ | ⟨-, rfl⟩⟩
    · obtain ⟨hinv', hconsumer, howed'⟩ := hother .produce queue rfl hqueue
      exact ⟨⟨hinv', hpop, by rwa [hconsumer], howed'⟩, rfl, by rw [hconsumer]; exact le_refl _⟩
    · obtain ⟨hinv', hconsumer, howed'⟩ := hother .produce queue rfl hqueue
      exact ⟨⟨hinv', hpop, by rwa [hconsumer], howed'⟩, rfl, by rw [hconsumer]; exact le_refl _⟩
    · exact ⟨⟨hinv, hpop, hbusy, howed⟩, rfl, le_refl _⟩
    · exact ⟨⟨hinv, hpop, hbusy, howed⟩, rfl, le_refl _⟩
  | consume ok =>
    rcases consume_cases hstep with ⟨hwait, -⟩ | ⟨-, queue, hqueue, hloop⟩
    · rw [hpop] at hwait
      cases hwait
    · unfold State.pop_loop at hloop
      rcases O2o.State.consume_progress hinv howed hqueue with hmore | ⟨hbusy', hsame, hbefore, hless⟩
      · obtain ⟨-, -, -, hpopped⟩ := O2o.State.consume_frame hqueue
        rcases hpopped with heq | ⟨hidle, -⟩
        · rw [heq] at hmore
          exact absurd hmore (lt_irrefl _)
        · rw [hidle] at hloop
          dsimp only at hloop
          rw [if_pos hmore] at hloop
          cases hloop
          exact Or.inl (Nat.lt_succ_self _)
      · split at hloop
        · next hidle => exact absurd hidle hbusy'
        · cases hloop
          refine Or.inr ⟨⟨?_, hpop, hbusy', ?_⟩, rfl, hless⟩
          · exact O2o.State.step_inv (l := .consume) hinv hqueue
          · show queue.popped.length < queue.returned_before
            rwa [hsame, hbefore]

/-- A `dequeue` that has got its signal returns within its steps, whatever
    the other thread does. -/
theorem Popping.returns {ls : List (Label τ)} (h : Popping s)
    (he : exec State.step s ls = some s')
    (hsteps : O2o.State.steps_left s.queue.consumer ≤ ls.countP of_consumer) :
    s.dequeued < s'.dequeued := by
  induction ls generalizing s with
  | nil =>
    exfalso
    rw [List.countP_nil] at hsteps
    have hbusy := h.busy
    cases hp : s.queue.consumer with
    | idle => exact hbusy hp
    | _ =>
      rw [hp] at hsteps
      simp [O2o.State.steps_left] at hsteps
  | cons l ls ih =>
    obtain ⟨mid, hstep, hrest⟩ := Option.bind_eq_some_iff.mp he
    rcases h.step hstep with hlt | ⟨hmid, hsame, hless⟩
    · exact lt_of_lt_of_le hlt (exec_dequeued hrest)
    · rw [← hsame]
      apply ih hmid hrest
      rw [List.countP_cons] at hsteps
      unfold own at hless
      omega

theorem Inv.in_order (h : Inv s) : s.queue.popped <+: s.queue.pushed.map some :=
  (O2o.State.Inv.fifo h.queue).in_order

theorem Inv.goes_on (h : Inv s) (hbusy : s.dequeue ≠ .idle) (ok : Bool) :
    (s.step (.consume ok)).isSome = true := by
  have hfact := h.dequeue
  show (s.consume ok).isSome = true
  unfold State.consume
  cases hd : s.dequeue with
  | idle => exact absurd hd hbusy
  | wait =>
    rw [hd] at hfact
    have hsem : s.semaphore (.step .consumer ok) = some _ := rfl
    dsimp only
    rw [hsem, Option.bind_some]
    split
    · -- the queue is free for a `pop`
      rw [Option.isSome_map, O2o.State.step, hfact.1]
      rfl
    · rfl
    · rfl
  | pop =>
    rw [hd] at hfact
    obtain ⟨queue, hqueue⟩ := Option.isSome_iff_exists.mp (O2o.State.consume_isSome hfact.1)
    have hstep : s.queue.step .consume = some queue := hqueue
    dsimp only
    rw [hstep, Option.bind_some]
    unfold State.pop_loop
    split
    · next hidle =>
      split
      · rfl
      · rw [Option.isSome_map, O2o.State.step, hidle]
        rfl
    · rfl

/-- The consumer sleeps only when the queue is empty, or its signal comes. -/
theorem Inv.awake (h : Inv s) (hidle : s.enqueue = .idle) (hblocked : Blocked s) :
    s.queue.popped = s.queue.pushed.map some := by
  obtain ⟨hkernel, hpc⟩ := hblocked
  obtain ⟨htakes, howes⟩ := h.tokens
  have henqueue := h.enqueue
  rw [hidle] at henqueue
  obtain ⟨hproducer, hpcs, hsignals, -⟩ := henqueue
  have hcalls := h.pushed_eq
  rw [hproducer, show (O2o.Push.idle : O2o.Push τ).calls = 0 from rfl] at hcalls
  have hboth : (s.semaphone.pcs .consumer).takes = 1 ∧ (s.semaphone.pcs .consumer).owes = 1 := by
    rcases hpc with hpc | hpc
    · rw [hpc]
      exact ⟨rfl, rfl⟩
    · rw [hpc]
      exact ⟨rfl, rfl⟩
  rw [hpcs, hboth.1, show Pc.idle.takes = 0 from rfl] at htakes
  rw [hpcs, hboth.2, hkernel, show Pc.idle.owes = 0 from rfl] at howes
  have hwaits : s.semaphone.waits = s.queue.popped.length := by
    have hfact := h.dequeue
    cases hd : s.dequeue with
    | idle | wait =>
      rw [hd] at hfact
      exact hfact.2.2
    | pop =>
      rw [hd] at hfact
      rcases hpc with hpc | hpc
      · rw [hfact.2.1] at hpc
        cases hpc
      · rw [hfact.2.1] at hpc
        cases hpc
  apply h.in_order.eq_of_length
  rw [List.length_map]
  omega

theorem Inv.delivers (h : Inv s) : Delivers s := by
  constructor
  case in_order => exact h.in_order
  case dequeued => exact h.counts.1
  case never_refused => exact h.counts.2
  case goes_on => exact h.goes_on
  case returns =>
    intro hpop ls s' he hsteps
    have hfact := h.dequeue
    rw [hpop] at hfact
    apply Popping.returns ⟨h.queue, hpop, hfact.1, hfact.2.2.2⟩ he
    refine le_trans ?_ hsteps
    cases s.queue.consumer
    all_goals simp [O2o.State.steps_left]
  case awake => exact h.awake
  case at_rest =>
    intro henqueue hdequeue
    have hfact := h.enqueue
    have hfact' := h.dequeue
    rw [henqueue] at hfact
    rw [hdequeue] at hfact'
    obtain ⟨hproducer, hpc, hsignals, -⟩ := hfact
    obtain ⟨-, hpc', hwaits⟩ := hfact'
    have hcalls := h.pushed_eq
    rw [hproducer, show (O2o.Push.idle : O2o.Push τ).calls = 0 from rfl] at hcalls
    obtain ⟨hcount, hkernel⟩ := h.account.balanced.2 fun i => by
      cases i
      · exact hpc
      · exact hpc'
    refine ⟨?_, hkernel⟩
    push_cast at hcount
    omega

/-- The step at which a wait gives up is one of the consumer. -/
theorem step_gives_up {l : Label τ} (hstep : s.step l = some s')
    (hpc : s.semaphone.pcs .consumer ≠ .returns false)
    (hpc' : s'.semaphone.pcs .consumer = .returns false) : s.dequeue = .wait ∧ ∃ ok,
      (LightSemaphore.action s.semaphone ok (s.semaphone.pcs .consumer)).1 = .returns false := by
  cases l with
  | enqueue v =>
    simp only [State.step] at hstep
    split at hstep
    · obtain ⟨queue, -, rfl⟩ := Option.map_eq_some_iff.mp hstep
      exact absurd hpc' hpc
    · cases hstep
  | dequeue wait =>
    simp only [State.step] at hstep
    split at hstep
    · obtain ⟨sem, hsem, rfl⟩ := Option.map_eq_some_iff.mp hstep
      obtain ⟨timeout, henter⟩ :
          ∃ timeout, s.semaphone.enter .consumer (.try_load timeout) = some sem := by
        cases wait with
        | forever => exact ⟨_, hsem⟩
        | timeout timeout_ns => exact ⟨_, hsem⟩
        | try_wait => exact ⟨_, hsem⟩
      have hself := (enter_sem henter).2.2
      dsimp only at hpc'
      rw [hself] at hpc'
      cases hpc'
    · cases hstep
  | produce ok =>
    exfalso
    rcases produce_cases hstep with ⟨-, queue, -, ⟨-, rfl⟩ | ⟨-, sem, hsem, rfl⟩⟩ |
      ⟨-, r, rfl, hcase⟩
    · exact hpc hpc'
    · rw [← (enter_sem hsem).2.1 .consumer (by decide)] at hpc
      exact hpc hpc'
    · have hsem : LightSemaphore.step s.semaphone (.step .producer ok) = some _ := rfl
      rw [← (step_sem hsem).1 .consumer (by decide)] at hpc
      rcases hcase with ⟨-, rfl⟩ | ⟨-, rfl⟩
      · exact hpc hpc'
      · exact hpc hpc'
  | consume ok =>
    rcases consume_cases hstep with ⟨hwait, sem, hsem, hcase⟩ | ⟨hpop, queue, -, hloop⟩
    · refine ⟨hwait, ok, ?_⟩
      rw [← (step_sem hsem).2.1]
      rcases hcase with ⟨-, queue, -, rfl⟩ | ⟨-, rfl⟩ | ⟨-, rfl⟩
      all_goals exact hpc'
    · -- a `pop` leaves the semaphore alone
      exfalso
      unfold State.pop_loop at hloop
      split at hloop
      · split at hloop
        · cases hloop
          exact hpc hpc'
        · obtain ⟨queue', -, rfl⟩ := Option.map_eq_some_iff.mp hloop
          exact hpc hpc'
      · cases hloop
        exact hpc hpc'

/-- **Every run** of the two threads delivers. -/
theorem run_delivers (no_constructor : Bool) {PerBlockElementCount : BitVec 32}
    (hcount : 2 ≤ PerBlockElementCount.toInt) (size : BitVec 32)
    (h : Reachable State.step Countable (construct no_constructor PerBlockElementCount size) s) :
    Delivers s := by
  apply Inv.delivers
  apply h.invariant
  · exact construct_inv no_constructor hcount size
  · intro t l t' hinv hok hstep
    exact step_inv hinv hok hstep

/-- One element, which is taken without waiting, and then a `try_dequeue`. -/
def one_element : List (Label Nat) :=
  Label.enqueue 1 :: List.replicate 6 (.produce true) ++
    Label.dequeue .forever :: List.replicate 9 (.consume true) ++ [Label.dequeue .try_wait]

theorem run_delivers_one_element :
    ∃ s : State Nat, exec State.step (construct true 2 0) one_element = some s ∧
      s.queue.popped = [some 1] ∧ Delivers s := by
  have hrun : (exec State.step (construct true 2 0) one_element).map (·.queue.popped) =
      some [some 1] := by
    decide
  obtain ⟨s, hexec, hpopped⟩ := Option.map_eq_some_iff.mp hrun
  refine ⟨s, hexec, hpopped, run_delivers true (show 2 ≤ (2 : BitVec 32).toInt by decide) 0
    (.of_exec hexec ?_)⟩
  decide

/-- **A `dequeue` gives up** only at a moment at which no element is left of
    the calls of `enqueue` that have returned. -/
theorem run_gives_up (no_constructor : Bool) {PerBlockElementCount : BitVec 32}
    (hcount : 2 ≤ PerBlockElementCount.toInt) (size : BitVec 32)
    (h : Reachable State.step Countable (construct no_constructor PerBlockElementCount size) s)
    {l : Label τ} (hstep : s.step l = some s')
    (hpc : s.semaphone.pcs .consumer ≠ .returns false)
    (hpc' : s'.semaphone.pcs .consumer = .returns false) : s.enqueued ≤ s.dequeued := by
  have hinv : Inv s := by
    apply h.invariant
    · exact construct_inv no_constructor hcount size
    · intro t l t' hinv hok hstep
      exact step_inv hinv hok hstep
  obtain ⟨hwait, ok, hgives⟩ := step_gives_up hstep hpc hpc'
  obtain ⟨htakes, -⟩ := hinv.tokens
  obtain ⟨hproducer, -, -, henqueued⟩ := hinv.producer
  have hempty := LightSemaphore.action_empty (hinv.account.sound .consumer) hgives
  have hfact := hinv.dequeue
  rw [hwait] at hfact
  have hwaits := hfact.2.2
  have hdequeued := hinv.counts.1
  omega

theorem run_gives_up_one_element :
    ∃ s s' : State Nat, exec State.step (construct true 2 0) one_element = some s ∧
      s.step (.consume true) = some s' ∧ s.enqueued ≤ s.dequeued := by
  have hrun : (exec State.step (construct true 2 0) one_element).map (fun s =>
      (s.semaphone.pcs .consumer, (s.step (.consume true)).map (·.semaphone.pcs .consumer))) =
        some (.try_load none, some (.returns false)) := by
    decide
  obtain ⟨s, hexec, hs⟩ := Option.map_eq_some_iff.mp hrun
  obtain ⟨hpc, hstep⟩ := Prod.mk.inj hs
  obtain ⟨s', hstep', hpc'⟩ := Option.map_eq_some_iff.mp hstep
  refine ⟨s, s', hexec, hstep', run_gives_up true (show 2 ≤ (2 : BitVec 32).toInt by decide) 0
    (.of_exec hexec ?_) hstep' ?_ hpc'⟩
  · decide
  · rw [hpc]
    decide

end FreelockQueue

end Pump
