import Pump.Toolkit.ArrThreads

/-! # freelock_arr_queue with one producer and one consumer

    The condition of the runs with many threads holds by itself where one thread
    pushes and one pops. The queue is then a bounded one: the producer waits at
    the node of the oldest value until it is taken. -/

namespace Pump

/-! ## Section 1: The two threads alone -/

/-- The thread is in `push`. -/
def ArrPc.in_push {τ : Type} : ArrPc τ → Prop
  | push_max _ _ | push_again _ _ | push_exchange _ _ _ | push_wait _ _ _ | push_data _ _ _
  | push_ready _ _ => True
  | _ => False

/-- The thread is in `pop`. -/
def ArrPc.in_pop {τ : Type} : ArrPc τ → Prop
  | pop_max _ | pop_again _ | pop_exchange _ _ | pop_wait _ _ | pop_data _ _ | pop_ready _ _ _ =>
    True
  | _ => False

theorem ArrPc.in_push_of_count {τ : Type} {pc : ArrPc τ} {k : Nat} (h : pc.push_count = some k) :
    pc.in_push := by
  cases pc with
  | push_wait | push_data | push_ready => trivial
  | _ => cases h

theorem ArrPc.in_pop_of_count {τ : Type} {pc : ArrPc τ} {k : Nat} (h : pc.pop_count = some k) :
    pc.in_pop := by
  cases pc with
  | pop_wait | pop_data | pop_ready => trivial
  | _ => cases h

theorem ArrPc.in_push_of_cur {τ : Type} {pc : ArrPc τ} {cur : BitVec 32}
    (h : pc.push_cur = some cur) : pc.in_push := by
  cases pc with
  | push_wait | push_data | push_ready => trivial
  | _ => cases h

theorem ArrPc.in_pop_of_cur {τ : Type} {pc : ArrPc τ} {cur : BitVec 32}
    (h : pc.pop_cur = some cur) : pc.in_pop := by
  cases pc with
  | pop_wait | pop_data | pop_ready => trivial
  | _ => cases h

namespace ArrThreads

variable {ι τ : Type} {M : Nat} {s : ArrThreads ι τ} {i p c : ι}

/-- Only `p` calls `push`, and only `c` calls `pop`. -/
def Solo (p c : ι) (_ : ArrThreads ι τ) : ArrLabel ι τ → Prop
  | .push i _ => i = p
  | .pop i => i = c
  | .go _ => True

instance Solo.decidable [DecidableEq ι] (p c : ι) (s : ArrThreads ι τ) :
    DecidablePred (Solo p c s)
  | .push i _ => decEq i p
  | .pop i => decEq i c
  | .go _ => isTrue trivial

/-- The index that a thread has loaded is not out of date, and the queue looks
    full to nobody. -/
def Knows (s : ArrThreads ι τ) : ArrPc τ → Prop
  | .push_max _ cur | .push_exchange _ cur _ => cur = s.q.write_index
  | .push_again _ _ => False
  | .pop_max cur | .pop_again cur => cur = s.q.read_index
  | .pop_exchange cur _ => cur = s.q.read_index ∧ s.claimed < s.pushed.length
  | _ => True

/-- The counts from `1` to `n`, the last one first. -/
def down : Nat → List Nat
  | 0 => []
  | n + 1 => (n + 1) :: down n

theorem mem_down {n c : Nat} : c ∈ down n ↔ 1 ≤ c ∧ c ≤ n := by
  induction n with
  | zero =>
    refine iff_of_false List.not_mem_nil ?_
    omega
  | succ n ih =>
    rw [down, List.mem_cons, ih]
    omega

/-- The producer and the consumer are alone in their functions. -/
structure Alone (p c : ι) (s : ArrThreads ι τ) : Prop where
  push_at : ∀ j, (s.pcs j).in_push → j = p
  pop_at : ∀ j, (s.pcs j).in_pop → j = c
  knows : ∀ j, s.Knows (s.pcs j)
  order : s.taken = down s.popped.length

theorem new_alone (size : BitVec 32) : Alone p c (new size : ArrThreads ι τ) :=
  ⟨fun _ h => h.elim, fun _ h => h.elim, fun _ => trivial, rfl⟩

/-- The producer is at most one count ahead of the array. -/
theorem Alone.bound (ha : Alone p c s) (h : Sound M s) (hM : 0 < M) :
    s.pushed.length ≤ s.claimed + M + 1 := by
  by_contra hlt
  -- the last count or the one before is stored, as the producer holds one at most
  have hlast : ∃ k, s.claimed + M < k ∧ k ∈ s.stored := by
    rcases h.pushes.all s.pushed.length (by omega) (le_refl _) with hdone | ⟨j, hj⟩
    · exact ⟨_, by omega, hdone⟩
    · rcases h.pushes.all (s.pushed.length - 1) (by omega) (by omega) with hdone | ⟨j', hj'⟩
      · exact ⟨_, by omega, hdone⟩
      · have heq : j = j' := (ha.push_at j (ArrPc.in_push_of_count hj)).trans
          (ha.push_at j' (ArrPc.in_push_of_count hj')).symm
        rw [heq, hj'] at hj
        have hcount := Option.some_injective _ hj
        omega
  obtain ⟨k, hk, hstored⟩ := hlast
  have hmod : (k - M) % M = k % M := by
    rw [← Nat.add_mod_right, Nat.sub_add_cancel (by omega)]
  have htaken := h.free k hstored (k - M) (by omega) (by omega) hmod
  have hle := (h.pops.done_le _ htaken).2
  omega

/-- The counters tell that the queue is not full, and whether all is claimed. -/
theorem Alone.counters (ha : Alone p c s) (h : Sound M s) (hM : 0 < M) (hM31 : M ≤ 2 ^ 31) :
    s.q.write_index ≠ s.q.read_index ∧
      (s.q.read_index + 1 = s.q.write_index ↔ s.claimed = s.pushed.length) := by
  have hbound := ha.bound h hM
  have hle := h.le
  rw [h.read, h.write, ArrQueue.counter_succ]
  constructor
  · intro heq
    have hnat := congrArg BitVec.toNat heq
    simp only [BitVec.toNat_ofNat] at hnat
    omega
  · constructor
    · intro heq
      have hnat := congrArg BitVec.toNat heq
      simp only [BitVec.toNat_ofNat] at hnat
      omega
    · intro heq
      rw [heq]

/-- The count of the consumer is the next one. -/
theorem Alone.next_count (ha : Alone p c s) (h : Sound M s) {k : Nat}
    (hi : (s.pcs i).pop_count = some k) : k = s.popped.length + 1 := by
  have hheld := h.pops.held_le i k hi
  have hundone := h.pops.undone i k hi
  rw [ha.order, mem_down] at hundone
  rcases h.pops.all (s.popped.length + 1) (by omega) (by omega) with hdone | ⟨j, hj⟩
  · rw [ha.order, mem_down] at hdone
    omega
  · have heq : i = j := (ha.pop_at i (ArrPc.in_pop_of_count hi)).trans
      (ha.pop_at j (ArrPc.in_pop_of_count hj)).symm
    rw [← heq] at hj
    exact Option.some_injective _ (hi.symm.trans hj)

/-- All that is claimed is popped where no pop has a count. -/
theorem Alone.popped_length (ha : Alone p c s) (h : Sound M s)
    (hnone : ∀ j, (s.pcs j).pop_count = none) : s.popped.length = s.claimed := by
  rcases Nat.lt_trichotomy s.popped.length s.claimed with hlt | heq | hgt
  · rcases h.pops.all (s.popped.length + 1) (by omega) (by omega) with hdone | ⟨j, hj⟩
    · rw [ha.order, mem_down] at hdone
      omega
    · rw [Function.comp_apply, hnone j] at hj
      cases hj
  · exact heq
  · have hmem : s.popped.length ∈ s.taken := by
      rw [ha.order, mem_down]
      omega
    have hle := (h.pops.done_le _ hmem).2
    omega

/-- **The condition holds** where the threads are alone. -/
theorem Alone.apart (ha : Alone p c s) (l : ArrLabel ι τ) : Apart s l := by
  cases l with
  | push i v | pop i => trivial
  | go i =>
    have hknows := ha.knows i
    show s.ApartAt (s.pcs i)
    unfold ApartAt
    split
    · next v cur max hpc =>
      intro hcur j hnode
      obtain ⟨cur', hcur', -⟩ := Option.map_eq_some_iff.mp hnode
      have hi : i = p := ha.push_at i (by rw [hpc]; trivial)
      have hj : j = p := ha.push_at j (ArrPc.in_push_of_cur hcur')
      rw [hj, ← hi, hpc] at hcur'
      cases hcur'
    · next cur max hpc =>
      rw [hpc] at hknows
      refine fun hcur => ⟨hknows.2, fun j hnode => ?_⟩
      obtain ⟨cur', hcur', -⟩ := Option.map_eq_some_iff.mp hnode
      have hi : i = c := ha.pop_at i (by rw [hpc]; trivial)
      have hj : j = c := ha.pop_at j (ArrPc.in_pop_of_cur hcur')
      rw [hj, ← hi, hpc] at hcur'
      cases hcur'
    · trivial

variable [DecidableEq ι] {s' : ArrThreads ι τ}

/-- A thread goes on; the others know what they knew. -/
theorem Alone.move (ha : Alone p c s) {t : ArrThreads ι τ} {pc : ArrPc τ} (hpcs : t.pcs = s.pcs)
    (hpush : pc.in_push → i = p) (hpop : pc.in_pop → i = c) (hpc : t.Knows pc)
    (hothers : ∀ j, j ≠ i → t.Knows (s.pcs j)) (horder : t.taken = down t.popped.length) :
    Alone p c (t.goto i pc) := by
  have hself : (t.goto i pc).pcs i = pc := Function.update_self _ _ _
  have hother : ∀ j, j ≠ i → (t.goto i pc).pcs j = s.pcs j := by
    intro j hji
    rw [← hpcs]
    exact Function.update_of_ne hji _ _
  refine ⟨fun j hj => ?_, fun j hj => ?_, fun j => ?_, horder⟩
  · by_cases hji : j = i
    · rw [hji, hself] at hj
      exact hji.trans (hpush hj)
    · rw [hother j hji] at hj
      exact ha.push_at j hj
  · by_cases hji : j = i
    · rw [hji, hself] at hj
      exact hji.trans (hpop hj)
    · rw [hother j hji] at hj
      exact ha.pop_at j hj
  · by_cases hji : j = i
    · rw [hji, hself]
      exact hpc
    · rw [hother j hji]
      exact hothers j hji

omit [DecidableEq ι] in
theorem Knows.keep {t : ArrThreads ι τ} {pc : ArrPc τ} (h : s.Knows pc)
    (hwrite : pc.in_push → t.q.write_index = s.q.write_index)
    (hread : pc.in_pop → t.q.read_index = s.q.read_index ∧ t.claimed = s.claimed)
    (hpushed : s.pushed.length ≤ t.pushed.length) : t.Knows pc := by
  cases pc with
  | push_max v cur | push_exchange v cur max =>
    have hcur : cur = s.q.write_index := h
    exact hcur.trans (hwrite trivial).symm
  | push_again v cur => exact h
  | pop_max cur | pop_again cur =>
    have hcur : cur = s.q.read_index := h
    exact hcur.trans (hread trivial).1.symm
  | pop_exchange cur max =>
    obtain ⟨hcur, hlt⟩ := h
    obtain ⟨hr, hclaimed⟩ := hread trivial
    refine ⟨hcur.trans hr.symm, ?_⟩
    rw [hclaimed]
    exact lt_of_lt_of_le hlt hpushed
  | _ => trivial

theorem Alone.action (ha : Alone p c s) (h : Sound M s) (hM : 0 < M) (hM31 : M ≤ 2 ^ 31)
    {r : ArrPc τ × ArrThreads ι τ} (hr : s.action (s.pcs i) = some r) :
    Alone p c (r.2.goto i r.1) := by
  obtain ⟨hnotfull, hempty⟩ := ha.counters h hM hM31
  have hknows := ha.knows i
  have hothers : ∀ j, j ≠ i → s.Knows (s.pcs j) := fun j _ => ha.knows j
  cases hpc : s.pcs i with
  | idle =>
    rw [hpc] at hr
    cases hr
  | push_max v cur =>
    have hi := ha.push_at i (by rw [hpc]; trivial)
    rw [hpc] at hknows hr
    have hcur : cur = s.q.write_index := hknows
    cases hr
    rw [hcur, if_neg hnotfull]
    exact ha.move rfl (fun _ => hi) False.elim rfl hothers ha.order
  | push_again v cur =>
    rw [hpc] at hknows
    exact hknows.elim
  | push_exchange v cur max =>
    have hi := ha.push_at i (by rw [hpc]; trivial)
    rw [hpc] at hknows hr
    have hcur : cur = s.q.write_index := hknows
    rw [ArrThreads.action, if_pos hcur.symm] at hr
    cases hr
    refine ha.move rfl (fun _ => hi) False.elim trivial (fun j hji => ?_) ha.order
    refine (ha.knows j).keep (fun hpush => absurd ((ha.push_at j hpush).trans hi.symm) hji)
      (fun _ => ⟨rfl, rfl⟩) ?_
    rw [List.length_append]
    exact Nat.le_add_right _ _
  | push_wait v cur k =>
    have hi := ha.push_at i (by rw [hpc]; trivial)
    rw [hpc] at hr
    obtain ⟨node, -, rfl⟩ := Option.map_eq_some_iff.mp hr
    show Alone p c (s.goto i (if s.q.ready node then _ else _))
    split <;> exact ha.move rfl (fun _ => hi) False.elim trivial hothers ha.order
  | push_data v cur k =>
    have hi := ha.push_at i (by rw [hpc]; trivial)
    rw [hpc] at hr
    obtain ⟨node, -, rfl⟩ := Option.map_eq_some_iff.mp hr
    exact ha.move rfl (fun _ => hi) False.elim trivial hothers ha.order
  | push_ready cur k =>
    rw [hpc] at hr
    obtain ⟨node, -, rfl⟩ := Option.map_eq_some_iff.mp hr
    exact ha.move rfl False.elim False.elim trivial hothers ha.order
  | pop_max cur =>
    have hi := ha.pop_at i (by rw [hpc]; trivial)
    rw [hpc] at hknows hr
    have hcur : cur = s.q.read_index := hknows
    cases hr
    show Alone p c (s.goto i (if cur + 1 = s.q.write_index then _ else _))
    split
    · exact ha.move rfl False.elim (fun _ => hi) hcur hothers ha.order
    · next hne =>
      rw [hcur, hempty] at hne
      exact ha.move rfl False.elim (fun _ => hi) ⟨hcur, lt_of_le_of_ne h.le hne⟩ hothers ha.order
  | pop_again cur =>
    have hi := ha.pop_at i (by rw [hpc]; trivial)
    rw [hpc] at hknows hr
    have hcur : cur = s.q.read_index := hknows
    cases hr
    show Alone p c (s.goto i (if cur + 1 = s.q.write_index then _ else _))
    split
    · exact ha.move rfl False.elim False.elim trivial hothers ha.order
    · next hne =>
      rw [hcur, hempty] at hne
      exact ha.move rfl False.elim (fun _ => hi) ⟨hcur, lt_of_le_of_ne h.le hne⟩ hothers ha.order
  | pop_exchange cur max =>
    have hi := ha.pop_at i (by rw [hpc]; trivial)
    rw [hpc] at hknows hr
    rw [ArrThreads.action, if_pos hknows.1.symm] at hr
    cases hr
    refine ha.move rfl False.elim (fun _ => hi) trivial (fun j hji => ?_) ha.order
    exact (ha.knows j).keep (fun _ => rfl)
      (fun hpop => absurd ((ha.pop_at j hpop).trans hi.symm) hji) (le_refl _)
  | pop_wait cur k =>
    have hi := ha.pop_at i (by rw [hpc]; trivial)
    rw [hpc] at hr
    obtain ⟨node, -, rfl⟩ := Option.map_eq_some_iff.mp hr
    show Alone p c (s.goto i (if s.q.ready node then _ else _))
    split <;> exact ha.move rfl False.elim (fun _ => hi) trivial hothers ha.order
  | pop_data cur k =>
    have hi := ha.pop_at i (by rw [hpc]; trivial)
    rw [hpc] at hr
    obtain ⟨node, -, rfl⟩ := Option.map_eq_some_iff.mp hr
    exact ha.move rfl False.elim (fun _ => hi) trivial hothers ha.order
  | pop_ready d cur k =>
    have hk := ha.next_count h (i := i) (k := k) (by rw [hpc]; rfl)
    rw [hpc] at hr
    obtain ⟨node, -, rfl⟩ := Option.map_eq_some_iff.mp hr
    refine ha.move rfl False.elim False.elim trivial hothers ?_
    show k :: s.taken = (s.popped.length + 1) :: down s.popped.length
    rw [hk, ha.order]

theorem Alone.step (ha : Alone p c s) (h : Sound M s) (hM : 0 < M) (hM31 : M ≤ 2 ^ 31)
    {l : ArrLabel ι τ} (hok : Solo p c s l) (hs : s.step l = some s') : Alone p c s' := by
  have hothers : ∀ i j, j ≠ i → s.Knows (s.pcs j) := fun _ j _ => ha.knows j
  cases l with
  | push i v =>
    simp only [ArrThreads.step] at hs
    split at hs
    · cases hs
      exact ha.move rfl (fun _ => hok) False.elim rfl (hothers i) ha.order
    · cases hs
  | pop i =>
    simp only [ArrThreads.step] at hs
    split at hs
    · cases hs
      exact ha.move rfl False.elim (fun _ => hok) rfl (hothers i) ha.order
    · cases hs
  | go i =>
    obtain ⟨r, hr, hr'⟩ := Option.map_eq_some_iff.mp hs
    rw [← hr']
    exact ha.action h hM hM31 hr

theorem solo_sound {size : BitVec 32} (hsize : 1 ≤ size.toInt)
    (hround : ceil_to_power_of_two size = size) (h : Reachable step (Solo p c) (new size) s) :
    Sound size.toNat s ∧ Alone p c s := by
  obtain ⟨m, hm, hpow⟩ := rounded_size hsize hround
  have hpos : 0 < size.toNat := hpow ▸ Nat.two_pow_pos m
  have h31 : size.toNat ≤ 2 ^ 31 := hpow ▸ Nat.pow_le_pow_right (by omega) hm
  apply h.invariant
  · exact ⟨new_sound hsize hround, new_alone size⟩
  · rintro t l t' ⟨ht, ha⟩ hok hs
    exact ⟨step_sound ht (ha.apart l) hs, ha.step ht hpos h31 hok hs⟩

/-- A bounded queue between two threads. -/
structure Bounded (M : Nat) (p c : ι) (s : ArrThreads ι τ) : Prop where
  transfers : Transfers M s
  /-- What was given out is what was pushed first, in the same order. -/
  prefix_of : (s.popped.map Prod.snd).reverse = (s.pushed.take s.popped.length).map some
  ahead : s.pushed.length ≤ s.claimed + M + 1
  /-- A `push` does not return `false`. -/
  push_true : ∀ i v cur, s.pcs i ≠ .push_again v cur
  /-- A `pop` returns `false` only when all that was pushed is given out. -/
  pop_false : ∀ i cur, s.pcs i = .pop_again cur → s.action (.pop_again cur) = some (.idle, s) →
    s.popped.length = s.pushed.length

omit [DecidableEq ι] in
theorem Alone.prefix_of (ha : Alone p c s) (h : Sound M s) :
    (s.popped.map Prod.snd).reverse = (s.pushed.take s.popped.length).map some := by
  have hvalues : s.popped.map Prod.snd = s.taken.map fun k => s.pushed[k - 1]? := by
    rw [taken, List.map_map]
    refine List.map_congr_left fun e he => ?_
    obtain ⟨v, hv, hv'⟩ := h.popped e he
    rw [hv]
    exact hv'.symm
  have hle : s.popped.length ≤ s.pushed.length := by
    rcases Nat.eq_zero_or_pos s.popped.length with hzero | hpos
    · omega
    · have hmem : s.popped.length ∈ s.taken := by
        rw [ha.order, mem_down]
        omega
      exact (h.pops.done_le _ hmem).2.trans h.le
  rw [hvalues, ha.order]
  generalize s.popped.length = n at hle
  induction n with
  | zero => rfl
  | succ n ih =>
    rw [down, List.map_cons, List.reverse_cons, ih (by omega), Nat.add_sub_cancel,
      List.take_succ_eq_append_getElem hle, List.map_append,
      List.getElem?_eq_getElem hle]
    rfl

/-- **One producer and one consumer**, in every interleaving, where the size is a
    power of two. -/
theorem solo_bounded {size : BitVec 32} (hsize : 1 ≤ size.toInt)
    (hround : ceil_to_power_of_two size = size) (h : Reachable step (Solo p c) (new size) s) :
    Bounded size.toNat p c s := by
  obtain ⟨hsound, ha⟩ := solo_sound hsize hround h
  obtain ⟨m, hm, hpow⟩ := rounded_size hsize hround
  have hpos : 0 < size.toNat := hpow ▸ Nat.two_pow_pos m
  have h31 : size.toNat ≤ 2 ^ 31 := hpow ▸ Nat.pow_le_pow_right (by omega) hm
  refine ⟨hsound.transfers, ha.prefix_of hsound, ha.bound hsound hpos, fun i v cur hpc => ?_,
    fun i cur hpc hidle => ?_⟩
  · have hknows := ha.knows i
    rw [hpc] at hknows
    exact hknows
  · have hknows := ha.knows i
    rw [hpc] at hknows
    have hcur : cur = s.q.read_index := hknows
    have hfull : s.claimed = s.pushed.length := by
      rw [← (ha.counters hsound hpos h31).2, ← hcur]
      by_contra hne
      rw [ArrThreads.action, if_neg hne] at hidle
      cases hidle
    rw [← hfull]
    refine ha.popped_length hsound fun j => ?_
    by_contra hsome
    obtain ⟨k, hk⟩ := Option.ne_none_iff_exists'.mp hsome
    have hi : i = c := ha.pop_at i (by rw [hpc]; trivial)
    rw [ha.pop_at j (ArrPc.in_pop_of_count hk), ← hi, hpc] at hk
    cases hk

/-- The second push waits until the pop has given the one node back. -/
def one_node : List (ArrLabel (Fin 2) Nat) :=
  ArrLabel.push 0 5 :: List.replicate 5 (.go 0) ++ ArrLabel.push 0 6 :: List.replicate 4 (.go 0) ++
    ArrLabel.pop 1 :: List.replicate 5 (.go 1) ++ List.replicate 3 (.go 0)

theorem solo_bounded_one_node :
    ∃ s : ArrThreads (Fin 2) Nat, exec step (new 1) one_node = some s ∧
      s.popped = [(1, some 5)] ∧ s.stored = [2, 1] ∧ Bounded 1 0 1 s := by
  obtain ⟨s, hs⟩ : ∃ s, exec step (new 1 : ArrThreads (Fin 2) Nat) one_node = some s :=
    Option.isSome_iff_exists.mp (by decide +kernel)
  refine ⟨s, hs, ?_, ?_, solo_bounded (show 1 ≤ (1 : BitVec 32).toInt by decide) (by decide)
    (.of_exec hs (by decide +kernel))⟩
  all_goals
    cases hs
    decide +kernel

end ArrThreads

end Pump
