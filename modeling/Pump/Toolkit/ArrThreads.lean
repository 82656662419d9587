import Pump.Toolkit.ArrQueue
import Pump.Lts

/-! # freelock_arr_queue between threads

    `push` and `pop` of `toolkit/freelock_arr_queue.h`, called by any number of
    producers and consumers. A step is one access to a counter, to `ready` or to
    `data`, and the accesses of all threads come one after the other. A thread
    takes a count by an exchange, and works at the node of that count when
    `ready` has the value it waits for. -/

namespace Pump

/-! ## Section 1: Model -/

/-- Where a thread is in `push` or `pop`. `count` is the number of the
    exchange that it has done, and is there for the record. -/
inductive ArrPc (τ : Type) where
  | idle
  | push_max (v : τ) (cur : BitVec 32)
  /-- The load of `read_index_` where the queue looks full. -/
  | push_again (v : τ) (cur : BitVec 32)
  | push_exchange (v : τ) (cur max : BitVec 32)
  /-- In the loop on `ready`. -/
  | push_wait (v : τ) (cur : BitVec 32) (count : Nat)
  | push_data (v : τ) (cur : BitVec 32) (count : Nat)
  | push_ready (cur : BitVec 32) (count : Nat)
  | pop_max (cur : BitVec 32)
  | pop_again (cur : BitVec 32)
  | pop_exchange (cur max : BitVec 32)
  | pop_wait (cur : BitVec 32) (count : Nat)
  | pop_data (cur : BitVec 32) (count : Nat)
  | pop_ready (data : Option τ) (cur : BitVec 32) (count : Nat)
  deriving DecidableEq

/-- A queue and the threads `ι`. The other fields are a record of the run. -/
structure ArrThreads (ι τ : Type) where
  q : ArrQueue τ
  pcs : ι → ArrPc τ
  /-- In the order of the exchanges of `write_index_`. -/
  pushed : List τ
  /-- The exchanges of `read_index_`. -/
  claimed : Nat
  /-- The counts of the pushes that have returned `true`. -/
  stored : List Nat
  /-- What pops have given out, with their counts. -/
  popped : List (Nat × Option τ)

inductive ArrLabel (ι τ : Type) where
  | push (i : ι) (v : τ)
  | pop (i : ι)
  | go (i : ι)

/-- The index of a push that has its place, until it returns. -/
def ArrPc.push_cur {τ : Type} : ArrPc τ → Option (BitVec 32)
  | push_wait _ cur _ | push_data _ cur _ | push_ready cur _ => some cur
  | _ => none

def ArrPc.pop_cur {τ : Type} : ArrPc τ → Option (BitVec 32)
  | pop_wait cur _ | pop_data cur _ | pop_ready _ cur _ => some cur
  | _ => none

namespace ArrThreads

variable {ι τ : Type}

def new (size : BitVec 32) : ArrThreads ι τ :=
  ⟨.construct size, fun _ => .idle, [], 0, [], []⟩

/-- The step of a thread at this place; `none` outside the array. -/
def action (s : ArrThreads ι τ) : ArrPc τ → Option (ArrPc τ × ArrThreads ι τ)
  | .idle => none
  | .push_max v cur =>
    let max := s.q.read_index
    some (if cur = max then .push_again v cur else .push_exchange v cur max, s)
  | .push_again v cur =>
    let max := s.q.read_index
    -- `false` where it still looks full
    some (if cur = max then .idle else .push_exchange v cur max, s)
  | .push_exchange v cur max =>
    if s.q.write_index = cur then
      some (.push_wait v cur (s.pushed.length + 1),
        { s with q := { s.q with write_index := cur + 1 }, pushed := s.pushed ++ [v] })
    else
      let cur := s.q.write_index
      some (if cur = max then .push_again v cur else .push_exchange v cur max, s)
  | .push_wait v cur count =>
    (s.q.elem_node cur).map fun node =>
      (if s.q.ready node then .push_wait v cur count else .push_data v cur count, s)
  | .push_data v cur count =>
    (s.q.elem_node cur).map fun node =>
      (.push_ready cur count,
        { s with q := { s.q with data := Function.update s.q.data node (some v) } })
  | .push_ready cur count =>
    (s.q.elem_node cur).map fun node =>
      (.idle, { s with
        q := { s.q with ready := Function.update s.q.ready node true }
        stored := count :: s.stored })
  | .pop_max cur =>
    let max := s.q.write_index
    some (if cur + 1 = max then .pop_again cur else .pop_exchange cur max, s)
  | .pop_again cur =>
    let max := s.q.write_index
    some (if cur + 1 = max then .idle else .pop_exchange cur max, s)
  | .pop_exchange cur max =>
    if s.q.read_index = cur then
      some (.pop_wait cur (s.claimed + 1),
        { s with q := { s.q with read_index := cur + 1 }, claimed := s.claimed + 1 })
    else
      let cur := s.q.read_index
      some (if cur + 1 = max then .pop_again cur else .pop_exchange cur max, s)
  | .pop_wait cur count =>
    (s.q.elem_node (cur + 1)).map fun node =>
      (if s.q.ready node then .pop_data cur count else .pop_wait cur count, s)
  | .pop_data cur count =>
    (s.q.elem_node (cur + 1)).map fun node => (.pop_ready (s.q.data node) cur count, s)
  | .pop_ready data cur count =>
    (s.q.elem_node (cur + 1)).map fun node =>
      (.idle, { s with
        q := { s.q with ready := Function.update s.q.ready node false }
        popped := (count, data) :: s.popped })

variable [DecidableEq ι]

/-- Thread `i` goes to `pc`. -/
def goto (s : ArrThreads ι τ) (i : ι) (pc : ArrPc τ) : ArrThreads ι τ :=
  { s with pcs := Function.update s.pcs i pc }

def step (s : ArrThreads ι τ) : ArrLabel ι τ → Option (ArrThreads ι τ)
  | .push i v =>
    match s.pcs i with
    | .idle => some (s.goto i (.push_max v s.q.write_index))
    | _ => none
  | .pop i =>
    match s.pcs i with
    | .idle => some (s.goto i (.pop_max s.q.read_index))
    | _ => none
  | .go i => (s.action (s.pcs i)).map fun r => r.2.goto i r.1

/-- An exchange of `write_index_` takes a node where no other push is. One of
    `read_index_` takes a count that a push has taken, and a node where no other
    pop is. -/
def ApartAt (s : ArrThreads ι τ) : ArrPc τ → Prop
  | .push_exchange _ cur _ => s.q.write_index = cur →
    ∀ j, (s.pcs j).push_cur.map s.q.elem_node ≠ some (s.q.elem_node cur)
  | .pop_exchange cur _ => s.q.read_index = cur → s.claimed < s.pushed.length ∧
    ∀ j, (s.pcs j).pop_cur.map (fun cur' => s.q.elem_node (cur' + 1)) ≠
      some (s.q.elem_node (cur + 1))
  | _ => True

def Apart (s : ArrThreads ι τ) : ArrLabel ι τ → Prop
  | .go i => s.ApartAt (s.pcs i)
  | _ => True

instance ApartAt.decidable [Fintype ι] (s : ArrThreads ι τ) : DecidablePred s.ApartAt := by
  intro pc
  cases pc <;> unfold ApartAt <;> infer_instance

instance Apart.decidable [Fintype ι] (s : ArrThreads ι τ) : DecidablePred s.Apart := by
  intro l
  cases l <;> unfold Apart <;> infer_instance

end ArrThreads

/-! ## Section 2: Counts that threads hold -/

/-- The counts from `1` to `n` have been given out. A thread holds at most one,
    and those that nobody holds are done. -/
structure Tickets {ι : Type} (n : Nat) (done : List Nat) (held : ι → Option Nat) : Prop where
  done_le : ∀ c ∈ done, 1 ≤ c ∧ c ≤ n
  held_le : ∀ i c, held i = some c → 1 ≤ c ∧ c ≤ n
  undone : ∀ i c, held i = some c → c ∉ done
  alone : ∀ i j c, held i = some c → held j = some c → i = j
  all : ∀ c, 1 ≤ c → c ≤ n → c ∈ done ∨ ∃ i, held i = some c

/-- What was given out before `c` for the same one of `M` places is done. -/
def Before (M : Nat) (done : List Nat) (c : Nat) : Prop :=
  ∀ d, 1 ≤ d → d < c → d % M = c % M → d ∈ done

theorem Before.cons {M : Nat} {done : List Nat} {c : Nat} (h : Before M done c) (e : Nat) :
    Before M (e :: done) c := by
  intro d hd hdc hmod
  exact List.mem_cons_of_mem e (h d hd hdc hmod)

namespace Tickets

variable {ι : Type} {n : Nat} {done : List Nat} {held : ι → Option Nat} {i : ι}

theorem start : Tickets 0 [] (fun _ : ι => none) := by
  refine ⟨fun c hc => ?_, fun i c hc => ?_, fun i c hc => ?_, fun i j c hc => ?_, fun c hc hc' => ?_⟩
  · cases hc
  · cases hc
  · cases hc
  · cases hc
  · omega

variable [DecidableEq ι]

/-- The next count is given to a thread that holds none. -/
theorem take (h : Tickets n done held) (hi : held i = none) :
    Tickets (n + 1) done (Function.update held i (some (n + 1))) := by
  have hheld : ∀ j c, Function.update held i (some (n + 1)) j = some c →
      j = i ∧ c = n + 1 ∨ j ≠ i ∧ held j = some c := by
    intro j c hj
    by_cases hji : j = i
    · rw [hji, Function.update_self] at hj
      cases hj
      exact Or.inl ⟨hji, rfl⟩
    · rw [Function.update_of_ne hji] at hj
      exact Or.inr ⟨hji, hj⟩
  refine ⟨fun c hc => ?_, fun j c hj => ?_, fun j c hj hc => ?_, fun j j' c hj hj' => ?_,
    fun c hc hc' => ?_⟩
  · have hle := h.done_le c hc
    omega
  · rcases hheld j c hj with ⟨-, hcn⟩ | ⟨-, hj⟩
    · omega
    · have hle := h.held_le j c hj
      omega
  · rcases hheld j c hj with ⟨-, hcn⟩ | ⟨-, hj⟩
    · have hle := h.done_le c hc
      omega
    · exact h.undone j c hj hc
  · rcases hheld j c hj with ⟨hji, hcn⟩ | ⟨-, hj⟩ <;>
      rcases hheld j' c hj' with ⟨hji', hcn'⟩ | ⟨-, hj'⟩
    · rw [hji, hji']
    · have hle := h.held_le j' c hj'
      omega
    · have hle := h.held_le j c hj
      omega
    · exact h.alone j j' c hj hj'
  · by_cases hlast : c = n + 1
    · right
      exact ⟨i, by rw [hlast, Function.update_self]⟩
    · rcases h.all c hc (by omega) with hdone | ⟨j, hj⟩
      · exact Or.inl hdone
      · right
        refine ⟨j, ?_⟩
        rw [Function.update_of_ne, hj]
        rintro rfl
        rw [hi] at hj
        cases hj

/-- A thread is done with its count. -/
theorem finish {c : Nat} (h : Tickets n done held) (hi : held i = some c) :
    Tickets n (c :: done) (Function.update held i none) := by
  have hheld : ∀ j d, Function.update held i none j = some d → j ≠ i ∧ held j = some d := by
    intro j d hj
    by_cases hji : j = i
    · rw [hji, Function.update_self] at hj
      cases hj
    · rw [Function.update_of_ne hji] at hj
      exact ⟨hji, hj⟩
  refine ⟨fun d hd => ?_, fun j d hj => h.held_le j d (hheld j d hj).2, fun j d hj hd => ?_,
    fun j j' d hj hj' => h.alone j j' d (hheld j d hj).2 (hheld j' d hj').2, fun d hd hd' => ?_⟩
  · rcases List.mem_cons.mp hd with hdc | hd
    · rw [hdc]
      exact h.held_le i c hi
    · exact h.done_le d hd
  · obtain ⟨hji, hj⟩ := hheld j d hj
    rcases List.mem_cons.mp hd with hdc | hd
    · rw [hdc] at hj
      exact hji (h.alone j i c hj hi)
    · exact h.undone j d hj hd
  · rcases h.all d hd hd' with hdone | ⟨j, hj⟩
    · exact Or.inl (List.mem_cons_of_mem c hdone)
    · by_cases hji : j = i
      · rw [hji, hi] at hj
        cases hj
        exact Or.inl List.mem_cons_self
      · right
        exact ⟨j, by rw [Function.update_of_ne hji, hj]⟩

end Tickets

/-! ## Section 3: Nodes and threads between two steps -/

def ArrPc.push_count {τ : Type} : ArrPc τ → Option Nat
  | push_wait _ _ c | push_data _ _ c | push_ready _ c => some c
  | _ => none

def ArrPc.pop_count {τ : Type} : ArrPc τ → Option Nat
  | pop_wait _ c | pop_data _ c | pop_ready _ _ c => some c
  | _ => none

namespace ArrThreads

variable {ι τ : Type}

/-- The counts of the pops that have returned `true`. -/
def taken (s : ArrThreads ι τ) : List Nat := s.popped.map Prod.fst

/-- `d` is the value pushed with the count `c`. -/
def Holds (s : ArrThreads ι τ) (c : Nat) (d : Option τ) : Prop :=
  ∃ v, d = some v ∧ s.pushed[c - 1]? = some v

/-- What a thread knows where it is. -/
def Fits (M : Nat) (s : ArrThreads ι τ) : ArrPc τ → Prop
  | .push_wait v cur c => cur = BitVec.ofNat 32 c ∧ s.Holds c (some v)
  | .push_data v cur c => cur = BitVec.ofNat 32 c ∧ s.Holds c (some v) ∧ Before M s.taken c
  | .push_ready cur c =>
    cur = BitVec.ofNat 32 c ∧ s.Holds c (s.q.data (c % M)) ∧ Before M s.taken c
  | .pop_wait cur c => cur + 1 = BitVec.ofNat 32 c
  | .pop_data cur c => cur + 1 = BitVec.ofNat 32 c ∧ c ∈ s.stored
  | .pop_ready d cur c => cur + 1 = BitVec.ofNat 32 c ∧ c ∈ s.stored ∧ s.Holds c d
  | _ => True

/-- A node is ready for the one count that is stored there and not taken. -/
structure Sound (M : Nat) (s : ArrThreads ι τ) : Prop where
  nodes : ∀ k, s.q.elem_node (BitVec.ofNat 32 k) = some (k % M)
  write : s.q.write_index = BitVec.ofNat 32 (s.pushed.length + 1)
  read : s.q.read_index = BitVec.ofNat 32 s.claimed
  le : s.claimed ≤ s.pushed.length
  pushes : Tickets s.pushed.length s.stored (ArrPc.push_count ∘ s.pcs)
  pops : Tickets s.claimed s.taken (ArrPc.pop_count ∘ s.pcs)
  taken_stored : ∀ c ∈ s.taken, c ∈ s.stored
  push_order : ∀ c ≤ s.pushed.length, Before M s.stored c
  pop_order : ∀ c ≤ s.claimed, Before M s.taken c
  free : ∀ c ∈ s.stored, Before M s.taken c
  ready : ∀ node, s.q.ready node = true ↔ ∃ c ∈ s.stored, c ∉ s.taken ∧ c % M = node
  data : ∀ c ∈ s.stored, c ∉ s.taken → s.Holds c (s.q.data (c % M))
  fits : ∀ i, s.Fits M (s.pcs i)
  popped : ∀ e ∈ s.popped, s.Holds e.1 e.2
  nodup : s.taken.Nodup

variable {M : Nat} {s : ArrThreads ι τ} {i : ι}

theorem Holds.append {s' : ArrThreads ι τ} {c : Nat} {d : Option τ} {v : τ} (h : s.Holds c d)
    (hpushed : s'.pushed = s.pushed ++ [v]) : s'.Holds c d := by
  obtain ⟨w, hd, hw⟩ := h
  refine ⟨w, hd, ?_⟩
  obtain ⟨hlt, -⟩ := List.getElem?_eq_some_iff.mp hw
  rw [hpushed, List.getElem?_append_left hlt, hw]

/-- A node is for one count. -/
theorem Sound.unique (h : Sound M s) {c d : Nat} (hc : c ∈ s.stored) (hc' : c ∉ s.taken)
    (hd : d ∈ s.stored) (hd' : d ∉ s.taken) (hmod : c % M = d % M) : c = d := by
  rcases lt_trichotomy c d with hlt | heq | hgt
  · exact absurd (h.free d hd c (h.pushes.done_le c hc).1 hlt hmod) hc'
  · exact heq
  · exact absurd (h.free c hc d (h.pushes.done_le d hd).1 hgt hmod.symm) hd'

/-- What is stored at the node of a count that is being pushed has been taken,
    once the node is free for it. -/
theorem Sound.apart (h : Sound M s) {c d : Nat} (hc1 : 1 ≤ c) (hcs : c ∉ s.stored)
    (hfree : Before M s.taken c) (hd : d ∈ s.stored) (hd' : d ∉ s.taken) : d % M ≠ c % M := by
  intro hmod
  obtain ⟨hd1, hdn⟩ := h.pushes.done_le d hd
  rcases lt_trichotomy d c with hlt | heq | hgt
  · exact hd' (hfree d hd1 hlt hmod)
  · exact hcs (heq ▸ hd)
  · exact hcs (h.push_order d hdn c hc1 hgt hmod.symm)

/-- A node that is ready is so for the count of the pop that waits there. -/
theorem Sound.ready_pop (h : Sound M s) {c : Nat} (hc : c ≤ s.claimed) (hc1 : 1 ≤ c)
    (hcs : c ∉ s.taken) (hready : s.q.ready (c % M) = true) : c ∈ s.stored := by
  obtain ⟨d, hd, hd', hmod⟩ := (h.ready _).mp hready
  rcases lt_trichotomy d c with hlt | heq | hgt
  · exact absurd (h.pop_order c hc d (h.pushes.done_le d hd).1 hlt hmod) hd'
  · exact heq ▸ hd
  · exact absurd (h.free d hd c hc1 hgt hmod.symm) hcs

/-- A node that is not ready is free for the push that waits there. -/
theorem Sound.ready_push (h : Sound M s) {c : Nat} (hc : c ≤ s.pushed.length)
    (hready : s.q.ready (c % M) = false) : Before M s.taken c := by
  intro d hd hdc hmod
  by_contra hd'
  have htrue := (h.ready (c % M)).mpr ⟨d, h.push_order c hc d hd hdc hmod, hd', hmod⟩
  rw [hready] at htrue
  cases htrue

/-! ## Section 4: The steps -/

section

variable [DecidableEq ι]

theorem push_goto (s : ArrThreads ι τ) (i : ι) (pc : ArrPc τ) :
    ArrPc.push_count ∘ (s.goto i pc).pcs =
      Function.update (ArrPc.push_count ∘ s.pcs) i pc.push_count :=
  Function.comp_update _ _ _ _

theorem pop_goto (s : ArrThreads ι τ) (i : ι) (pc : ArrPc τ) :
    ArrPc.pop_count ∘ (s.goto i pc).pcs =
      Function.update (ArrPc.pop_count ∘ s.pcs) i pc.pop_count :=
  Function.comp_update _ _ _ _

/-- The counts that threads hold stay with them. -/
theorem pushes_goto {n : Nat} {done : List Nat} {pc : ArrPc τ}
    (h : Tickets n done (ArrPc.push_count ∘ s.pcs)) (hpc : pc.push_count = (s.pcs i).push_count) :
    Tickets n done (ArrPc.push_count ∘ (s.goto i pc).pcs) := by
  rw [push_goto, hpc]
  have hsame := Function.update_eq_self i (ArrPc.push_count ∘ s.pcs)
  rw [Function.comp_apply] at hsame
  rw [hsame]
  exact h

theorem pops_goto {n : Nat} {done : List Nat} {pc : ArrPc τ}
    (h : Tickets n done (ArrPc.pop_count ∘ s.pcs)) (hpc : pc.pop_count = (s.pcs i).pop_count) :
    Tickets n done (ArrPc.pop_count ∘ (s.goto i pc).pcs) := by
  rw [pop_goto, hpc]
  have hsame := Function.update_eq_self i (ArrPc.pop_count ∘ s.pcs)
  rw [Function.comp_apply] at hsame
  rw [hsame]
  exact h

theorem fits_goto {pc : ArrPc τ} (hpc : s.Fits M pc) (h : ∀ j, j ≠ i → s.Fits M (s.pcs j)) :
    ∀ j, (s.goto i pc).Fits M ((s.goto i pc).pcs j) := by
  intro j
  by_cases hji : j = i
  · rw [hji]
    show s.Fits M (Function.update s.pcs i pc i)
    rw [Function.update_self]
    exact hpc
  · show s.Fits M (Function.update s.pcs i pc j)
    rw [Function.update_of_ne hji]
    exact h j hji

/-- **A step that touches no node**, of a thread that keeps its count. -/
theorem Sound.quiet (h : Sound M s) {pc : ArrPc τ} (hpush : pc.push_count = (s.pcs i).push_count)
    (hpop : pc.pop_count = (s.pcs i).pop_count) (hpc : s.Fits M pc) : Sound M (s.goto i pc) where
  nodes := h.nodes
  write := h.write
  read := h.read
  le := h.le
  pushes := pushes_goto h.pushes hpush
  pops := pops_goto h.pops hpop
  taken_stored := h.taken_stored
  push_order := h.push_order
  pop_order := h.pop_order
  free := h.free
  ready := h.ready
  data := h.data
  fits := fits_goto hpc fun j _ => h.fits j
  popped := h.popped
  nodup := h.nodup

/-- **The exchange of a push.** -/
theorem Sound.push_exchange (h : Sound M s) {v : τ} {cur max : BitVec 32}
    (hpc : s.pcs i = .push_exchange v cur max) (hcur : s.q.write_index = cur)
    (happ : ∀ j, (s.pcs j).push_cur.map s.q.elem_node ≠ some (s.q.elem_node cur)) :
    Sound M (({ s with q := { s.q with write_index := cur + 1 }, pushed := s.pushed ++ [v] } :
      ArrThreads ι τ).goto i (.push_wait v cur (s.pushed.length + 1))) where
  nodes := h.nodes
  write := by
    show cur + 1 = _
    rw [← hcur, h.write, ArrQueue.counter_succ]
    show _ = BitVec.ofNat 32 ((s.pushed ++ [v]).length + 1)
    rw [List.length_append]
    rfl
  read := h.read
  le := by
    show s.claimed ≤ (s.pushed ++ [v]).length
    rw [List.length_append]
    exact Nat.le_add_right_of_le h.le
  pushes := by
    rw [push_goto]
    show Tickets (s.pushed ++ [v]).length s.stored _
    rw [List.length_append]
    exact h.pushes.take (by rw [Function.comp_apply, hpc]; rfl)
  pops := pops_goto h.pops (by rw [hpc]; rfl)
  taken_stored := h.taken_stored
  push_order := by
    intro c hc
    by_cases hlast : c = s.pushed.length + 1
    · -- nobody is at the node of the new count
      intro d hd hdc hmod
      rcases h.pushes.all d hd (by omega) with hdone | ⟨j, hj⟩
      · exact hdone
      · have hfits := h.fits j
        have hnode : s.q.elem_node (BitVec.ofNat 32 d) = s.q.elem_node cur := by
          rw [← hcur, h.write, h.nodes, h.nodes, hmod, hlast]
        rw [Function.comp_apply] at hj
        have happj := happ j
        cases hpcj : s.pcs j with
        | push_wait w cur' c' | push_data w cur' c' | push_ready cur' c' =>
          rw [hpcj] at hfits hj happj
          cases hj
          rw [hfits.1] at happj
          exact absurd (congrArg some hnode) happj
        | _ =>
          rw [hpcj] at hj
          cases hj
    · have hlen : (s.pushed ++ [v]).length = s.pushed.length + 1 := List.length_append
      have hc' : c ≤ (s.pushed ++ [v]).length := hc
      exact h.push_order c (by omega)
  pop_order := h.pop_order
  free := h.free
  ready := h.ready
  data := fun c hc hc' => (h.data c hc hc').append rfl
  fits := by
    refine fits_goto ⟨?_, v, rfl, ?_⟩ fun j _ => ?_
    · rw [← hcur]
      exact h.write
    · exact List.getElem?_concat_length
    · have hfits := h.fits j
      show Fits M _ (s.pcs j)
      cases hpcj : s.pcs j with
      | push_wait w cur' c =>
        rw [hpcj] at hfits
        exact ⟨hfits.1, hfits.2.append rfl⟩
      | push_data w cur' c | push_ready cur' c =>
        rw [hpcj] at hfits
        exact ⟨hfits.1, hfits.2.1.append rfl, hfits.2.2⟩
      | pop_ready d cur' c =>
        rw [hpcj] at hfits
        exact ⟨hfits.1, hfits.2.1, hfits.2.2.append rfl⟩
      | _ =>
        rw [hpcj] at hfits
        exact hfits
  popped := fun e he => (h.popped e he).append rfl
  nodup := h.nodup

/-- **The exchange of a pop.** -/
theorem Sound.pop_exchange (h : Sound M s) {cur max : BitVec 32}
    (hpc : s.pcs i = .pop_exchange cur max) (hcur : s.q.read_index = cur)
    (hlt : s.claimed < s.pushed.length)
    (happ : ∀ j, (s.pcs j).pop_cur.map (fun cur' => s.q.elem_node (cur' + 1)) ≠
      some (s.q.elem_node (cur + 1))) :
    Sound M (({ s with q := { s.q with read_index := cur + 1 }, claimed := s.claimed + 1 } :
      ArrThreads ι τ).goto i (.pop_wait cur (s.claimed + 1))) := by
  have hnext : cur + 1 = BitVec.ofNat 32 (s.claimed + 1) := by
    rw [← hcur, h.read, ArrQueue.counter_succ]
  refine { h with
    read := hnext
    le := hlt
    pushes := pushes_goto h.pushes (by rw [hpc]; rfl)
    pops := ?_
    pop_order := ?_
    fits := fits_goto hnext fun j _ => h.fits j }
  · rw [pop_goto]
    exact h.pops.take (by rw [Function.comp_apply, hpc]; rfl)
  · intro c hc
    by_cases hlast : c = s.claimed + 1
    · -- nobody is at the node of the new count
      intro d hd hdc hmod
      rcases h.pops.all d hd (by omega) with hdone | ⟨j, hj⟩
      · exact hdone
      · have hfits := h.fits j
        have hnode : s.q.elem_node (BitVec.ofNat 32 d) = s.q.elem_node (cur + 1) := by
          rw [hnext, h.nodes, h.nodes, hmod, hlast]
        rw [Function.comp_apply] at hj
        have happj := happ j
        cases hpcj : s.pcs j with
        | pop_wait cur' c' =>
          rw [hpcj] at hfits hj happj
          cases hj
          have hcur' : cur' + 1 = BitVec.ofNat 32 d := hfits
          rw [← hcur'] at hnode
          exact absurd (congrArg some hnode) happj
        | pop_data cur' c' | pop_ready data cur' c' =>
          rw [hpcj] at hfits hj happj
          cases hj
          have hcur' : cur' + 1 = BitVec.ofNat 32 d := hfits.1
          rw [← hcur'] at hnode
          exact absurd (congrArg some hnode) happj
        | _ =>
          rw [hpcj] at hj
          cases hj
    · have hc' : c ≤ s.claimed + 1 := hc
      exact h.pop_order c (by omega)

/-- **A push writes its value.** -/
theorem Sound.push_data (h : Sound M s) {v : τ} {cur : BitVec 32} {c : Nat}
    (hpc : s.pcs i = .push_data v cur c) :
    Sound M (({ s with q := { s.q with data := Function.update s.q.data (c % M) (some v) } } :
      ArrThreads ι τ).goto i (.push_ready cur c)) := by
  have hi := h.fits i
  rw [hpc] at hi
  obtain ⟨hcur, hv, hfree⟩ := hi
  have hheld : (ArrPc.push_count ∘ s.pcs) i = some c := by rw [Function.comp_apply, hpc]; rfl
  obtain ⟨hc1, hc⟩ := h.pushes.held_le i c hheld
  have hcs := h.pushes.undone i c hheld
  refine { h with
    pushes := pushes_goto h.pushes (by rw [hpc]; rfl)
    pops := pops_goto h.pops (by rw [hpc]; rfl)
    data := ?_
    fits := ?_ }
  · intro d hd hd'
    show s.Holds d (Function.update s.q.data (c % M) (some v) (d % M))
    rw [Function.update_of_ne (h.apart hc1 hcs hfree hd hd')]
    exact h.data d hd hd'
  · refine fits_goto ⟨hcur, ?_, hfree⟩ fun j hji => ?_
    · show s.Holds c (Function.update s.q.data (c % M) (some v) (c % M))
      rw [Function.update_self]
      exact hv
    · have hj := h.fits j
      show Fits M _ (s.pcs j)
      cases hpcj : s.pcs j with
      | push_ready cur' d =>
        rw [hpcj] at hj
        have hheldj : (ArrPc.push_count ∘ s.pcs) j = some d := by
          rw [Function.comp_apply, hpcj]
          rfl
        obtain ⟨hd1, hd⟩ := h.pushes.held_le j d hheldj
        -- the two are at different nodes: the earlier one would be done
        have hne : d % M ≠ c % M := by
          intro hmod
          rcases lt_trichotomy c d with hlt | heq | hgt
          · exact hcs (h.push_order d hd c hc1 hlt hmod.symm)
          · exact hji (h.pushes.alone j i c (heq ▸ hheldj) hheld)
          · exact h.pushes.undone j d hheldj (h.push_order c hc d hd1 hgt hmod)
        refine ⟨hj.1, ?_, hj.2.2⟩
        show s.Holds d (Function.update s.q.data (c % M) (some v) (d % M))
        rw [Function.update_of_ne hne]
        exact hj.2.1
      | _ =>
        rw [hpcj] at hj
        exact hj

/-- **A push marks its node**, and returns. -/
theorem Sound.push_ready (h : Sound M s) {cur : BitVec 32} {c : Nat}
    (hpc : s.pcs i = .push_ready cur c) :
    Sound M (({ s with
      q := { s.q with ready := Function.update s.q.ready (c % M) true }
      stored := c :: s.stored } : ArrThreads ι τ).goto i .idle) := by
  have hi := h.fits i
  rw [hpc] at hi
  obtain ⟨hcur, hv, hfree⟩ := hi
  have hheld : (ArrPc.push_count ∘ s.pcs) i = some c := by rw [Function.comp_apply, hpc]; rfl
  have hcs := h.pushes.undone i c hheld
  refine { h with
    pushes := ?_
    pops := pops_goto h.pops (by rw [hpc]; rfl)
    taken_stored := fun d hd => List.mem_cons_of_mem c (h.taken_stored d hd)
    push_order := fun d hd => (h.push_order d hd).cons c
    free := ?_
    ready := ?_
    data := ?_
    fits := ?_ }
  · rw [push_goto]
    exact h.pushes.finish hheld
  · intro d hd
    rcases List.mem_cons.mp hd with hdc | hd
    · rw [hdc]
      exact hfree
    · exact h.free d hd
  · intro node
    show Function.update s.q.ready (c % M) true node = true ↔
      ∃ d ∈ c :: s.stored, d ∉ s.taken ∧ d % M = node
    by_cases hnode : node = c % M
    · rw [hnode, Function.update_self]
      exact iff_of_true rfl ⟨c, List.mem_cons_self, fun hc => hcs (h.taken_stored c hc), rfl⟩
    · rw [Function.update_of_ne hnode, h.ready]
      constructor
      · rintro ⟨d, hd, hd', hmod⟩
        exact ⟨d, List.mem_cons_of_mem c hd, hd', hmod⟩
      · rintro ⟨d, hd, hd', hmod⟩
        rcases List.mem_cons.mp hd with hdc | hd
        · rw [hdc] at hmod
          exact absurd hmod.symm hnode
        · exact ⟨d, hd, hd', hmod⟩
  · intro d hd hd'
    rcases List.mem_cons.mp hd with hdc | hd
    · rw [hdc]
      exact hv
    · exact h.data d hd hd'
  · refine fits_goto trivial fun j _ => ?_
    have hj := h.fits j
    show Fits M _ (s.pcs j)
    cases hpcj : s.pcs j with
    | pop_data cur' d =>
      rw [hpcj] at hj
      exact ⟨hj.1, List.mem_cons_of_mem c hj.2⟩
    | pop_ready data cur' d =>
      rw [hpcj] at hj
      exact ⟨hj.1, List.mem_cons_of_mem c hj.2.1, hj.2.2⟩
    | _ =>
      rw [hpcj] at hj
      exact hj

/-- **A pop gives its node back**, and returns. -/
theorem Sound.pop_ready (h : Sound M s) {d : Option τ} {cur : BitVec 32} {c : Nat}
    (hpc : s.pcs i = .pop_ready d cur c) :
    Sound M (({ s with
      q := { s.q with ready := Function.update s.q.ready (c % M) false }
      popped := (c, d) :: s.popped } : ArrThreads ι τ).goto i .idle) := by
  have hi := h.fits i
  rw [hpc] at hi
  obtain ⟨hcur, hcs, hd⟩ := hi
  have hheld : (ArrPc.pop_count ∘ s.pcs) i = some c := by rw [Function.comp_apply, hpc]; rfl
  have hct := h.pops.undone i c hheld
  refine { h with
    pushes := pushes_goto h.pushes (by rw [hpc]; rfl)
    pops := ?_
    taken_stored := ?_
    pop_order := fun e he => (h.pop_order e he).cons c
    free := fun e he => (h.free e he).cons c
    ready := ?_
    data := fun e he he' => h.data e he fun hmem => he' (List.mem_cons_of_mem c hmem)
    fits := ?_
    popped := ?_
    nodup := List.nodup_cons.mpr ⟨hct, h.nodup⟩ }
  · rw [pop_goto]
    exact h.pops.finish hheld
  · intro e he
    rcases List.mem_cons.mp he with hec | he
    · rw [hec]
      exact hcs
    · exact h.taken_stored e he
  · intro node
    show Function.update s.q.ready (c % M) false node = true ↔
      ∃ e ∈ s.stored, e ∉ c :: s.taken ∧ e % M = node
    by_cases hnode : node = c % M
    · rw [hnode, Function.update_self]
      refine iff_of_false Bool.false_ne_true ?_
      rintro ⟨e, he, he', hmod⟩
      obtain ⟨hne, he'⟩ := List.ne_and_not_mem_of_not_mem_cons he'
      exact hne (h.unique he he' hcs hct hmod)
    · rw [Function.update_of_ne hnode, h.ready]
      constructor
      · rintro ⟨e, he, he', hmod⟩
        refine ⟨e, he, List.not_mem_cons_of_ne_of_not_mem ?_ he', hmod⟩
        rintro rfl
        exact hnode hmod.symm
      · rintro ⟨e, he, he', hmod⟩
        exact ⟨e, he, List.not_mem_of_not_mem_cons he', hmod⟩
  · refine fits_goto trivial fun j _ => ?_
    have hj := h.fits j
    show Fits M _ (s.pcs j)
    cases hpcj : s.pcs j with
    | push_data v cur' e | push_ready cur' e =>
      rw [hpcj] at hj
      exact ⟨hj.1, hj.2.1, hj.2.2.cons c⟩
    | _ =>
      rw [hpcj] at hj
      exact hj
  · intro e he
    rcases List.mem_cons.mp he with hec | he
    · rw [hec]
      exact hd
    · exact h.popped e he

variable {s' : ArrThreads ι τ}

theorem action_sound (h : Sound M s) (hok : Apart s (.go i)) {r : ArrPc τ × ArrThreads ι τ}
    (hr : s.action (s.pcs i) = some r) : Sound M (r.2.goto i r.1) := by
  have hi := h.fits i
  cases hpc : s.pcs i with
  | idle =>
    rw [hpc] at hr
    cases hr
  | push_max v cur | push_again v cur | pop_max cur | pop_again cur =>
    rw [hpc] at hr
    cases hr
    show Sound M (s.goto i _)
    split <;> exact h.quiet (by rw [hpc]; rfl) (by rw [hpc]; rfl) trivial
  | push_exchange v cur max =>
    simp only [Apart, hpc, ApartAt] at hok
    simp only [hpc, action] at hr
    split at hr
    · next hcur =>
      cases hr
      exact h.push_exchange hpc hcur (hok hcur)
    · cases hr
      show Sound M (s.goto i _)
      split <;> exact h.quiet (by rw [hpc]; rfl) (by rw [hpc]; rfl) trivial
  | pop_exchange cur max =>
    simp only [Apart, hpc, ApartAt] at hok
    simp only [hpc, action] at hr
    split at hr
    · next hcur =>
      cases hr
      exact h.pop_exchange hpc hcur (hok hcur).1 (hok hcur).2
    · cases hr
      show Sound M (s.goto i _)
      split <;> exact h.quiet (by rw [hpc]; rfl) (by rw [hpc]; rfl) trivial
  | push_wait v cur c =>
    rw [hpc] at hi
    obtain ⟨hcur, hv⟩ := hi
    rw [hpc, action, hcur, h.nodes] at hr
    cases hr
    show Sound M (s.goto i (if s.q.ready (c % M) then _ else _))
    split
    · exact h.quiet (by rw [hpc]; rfl) (by rw [hpc]; rfl) ⟨rfl, hv⟩
    · next hready =>
      have hc : c ≤ s.pushed.length :=
        (h.pushes.held_le i c (by rw [Function.comp_apply, hpc]; rfl)).2
      exact h.quiet (by rw [hpc]; rfl) (by rw [hpc]; rfl)
        ⟨rfl, hv, h.ready_push hc (Bool.eq_false_of_not_eq_true hready)⟩
  | push_data v cur c =>
    rw [hpc] at hi
    obtain ⟨hcur, -⟩ := hi
    rw [hpc, action, hcur, h.nodes] at hr
    cases hr
    rw [hcur] at hpc
    exact h.push_data hpc
  | push_ready cur c =>
    rw [hpc] at hi
    obtain ⟨hcur, -⟩ := hi
    rw [hpc, action, hcur, h.nodes] at hr
    cases hr
    exact h.push_ready hpc
  | pop_wait cur c =>
    rw [hpc] at hi
    have hcur : cur + 1 = BitVec.ofNat 32 c := hi
    rw [hpc, action, hcur, h.nodes] at hr
    cases hr
    show Sound M (s.goto i (if s.q.ready (c % M) then _ else _))
    split
    · next hready =>
      have hheld : (ArrPc.pop_count ∘ s.pcs) i = some c := by rw [Function.comp_apply, hpc]; rfl
      obtain ⟨hc1, hc⟩ := h.pops.held_le i c hheld
      exact h.quiet (by rw [hpc]; rfl) (by rw [hpc]; rfl)
        ⟨hcur, h.ready_pop hc hc1 (h.pops.undone i c hheld) hready⟩
    · exact h.quiet (by rw [hpc]) (by rw [hpc]) hcur
  | pop_data cur c =>
    rw [hpc] at hi
    obtain ⟨hcur, hcs⟩ := hi
    rw [hpc, action, hcur, h.nodes] at hr
    cases hr
    have hheld : (ArrPc.pop_count ∘ s.pcs) i = some c := by rw [Function.comp_apply, hpc]; rfl
    exact h.quiet (by rw [hpc]; rfl) (by rw [hpc]; rfl)
      ⟨hcur, hcs, h.data c hcs (h.pops.undone i c hheld)⟩
  | pop_ready d cur c =>
    rw [hpc] at hi
    obtain ⟨hcur, -⟩ := hi
    rw [hpc, action, hcur, h.nodes] at hr
    cases hr
    exact h.pop_ready hpc

theorem step_sound (h : Sound M s) {l : ArrLabel ι τ} (hok : Apart s l)
    (hs : s.step l = some s') : Sound M s' := by
  cases l with
  | push i v | pop i =>
    simp only [step] at hs
    split at hs
    · next hpc =>
      cases hs
      exact h.quiet (by rw [hpc]; rfl) (by rw [hpc]; rfl) trivial
    · cases hs
  | go i =>
    obtain ⟨r, hr, hr'⟩ := Option.map_eq_some_iff.mp hs
    rw [← hr']
    exact action_sound h hok hr

end

/-- A size that is a power of two. -/
theorem rounded_size {size : BitVec 32} (hsize : 1 ≤ size.toInt)
    (hround : ceil_to_power_of_two size = size) : ∃ m ≤ 31, size.toNat = 2 ^ m := by
  by_cases hone : size.toInt = 1
  · refine ⟨0, by omega, ?_⟩
    rw [BitVec.eq_of_toInt_eq (show size.toInt = (1 : BitVec 32).toInt from hone)]
    rfl
  · obtain ⟨m, -, hm, hpow⟩ := ceil_to_power_of_two_eq (show 2 ≤ size.toInt by omega)
    rw [hround] at hpow
    exact ⟨m, hm, hpow⟩

theorem new_sound {size : BitVec 32} (hsize : 1 ≤ size.toInt)
    (hround : ceil_to_power_of_two size = size) :
    Sound size.toNat (new size : ArrThreads ι τ) := by
  obtain ⟨m, hm, hpow⟩ := rounded_size hsize hround
  have hpos : 0 < 2 ^ m := Nat.two_pow_pos m
  refine ⟨fun k => ?_, rfl, rfl, le_refl 0, .start, .start, fun c hc => ?_, fun c hc d hd hdc => ?_,
    fun c hc d hd hdc => ?_, fun c hc => ?_, fun node => ?_, fun c hc => ?_, fun i => trivial,
    fun e he => ?_, List.nodup_nil⟩
  · have hmask : (new size : ArrThreads ι τ).q.size_mask.toNat + 1 = 2 ^ m := by
      show (ceil_to_power_of_two size - 1).toNat + 1 = 2 ^ m
      rw [hround, ← hpow]
      bv_omega
    rw [ArrQueue.elem_node_eq hm hmask, hpow]
    have hlt : k % 2 ^ m < size.toNat := hpow ▸ Nat.mod_lt k (hpow ▸ hpos)
    exact if_pos hlt
  · cases hc
  · have hc' : c ≤ 0 := hc
    omega
  · have hc' : c ≤ 0 := hc
    omega
  · cases hc
  · refine iff_of_false Bool.false_ne_true ?_
    rintro ⟨c, hc, -⟩
    cases hc
  · cases hc
  · cases he

/-! ## Section 5: What the runs do -/

/-- The thread stays in its loop on `ready`. -/
def Spins (s : ArrThreads ι τ) (i : ι) : Prop :=
  match s.pcs i with
  | .push_wait _ cur _ => ∃ node, s.q.elem_node cur = some node ∧ s.q.ready node = true
  | .pop_wait cur _ => ∃ node, s.q.elem_node (cur + 1) = some node ∧ s.q.ready node = false
  | _ => False

/-- What is pushed is given out once, in the order of the exchanges. -/
structure Transfers (M : Nat) (s : ArrThreads ι τ) : Prop where
  popped : ∀ e ∈ s.popped, 1 ≤ e.1 ∧ e.1 ≤ s.claimed ∧ s.Holds e.1 e.2
  once : s.taken.Nodup
  claimed : s.claimed ≤ s.pushed.length
  /-- Nobody looks outside the array. -/
  inside : ∀ i, s.pcs i ≠ .idle → (s.action (s.pcs i)).isSome = true
  /-- A thread that spins does so for one that goes on, or for a value that no
      pop has claimed. -/
  spins : ∀ i, s.Spins i → (∃ j, s.pcs j ≠ .idle ∧ ¬ s.Spins j) ∨
    (s.pcs i).push_count.isSome = true ∧ s.claimed < s.pushed.length
  rest : (∀ i, s.pcs i = .idle) →
    s.popped.Perm ((List.range s.claimed).map fun k => (k + 1, s.pushed[k]?)) ∧
      ∀ k, s.claimed ≤ k → k < s.pushed.length →
        s.q.ready ((k + 1) % M) = true ∧ s.q.data ((k + 1) % M) = s.pushed[k]?

namespace Sound

theorem inside (h : Sound M s) (hi : s.pcs i ≠ .idle) : (s.action (s.pcs i)).isSome = true := by
  have hfits := h.fits i
  cases hpc : s.pcs i with
  | idle => exact absurd hpc hi
  | push_max v cur | push_again v cur | pop_max cur | pop_again cur => rfl
  | push_exchange v cur max | pop_exchange cur max =>
    simp only [action]
    split <;> rfl
  | push_wait v cur c | push_data v cur c | push_ready cur c =>
    rw [hpc] at hfits
    rw [action, hfits.1, h.nodes]
    rfl
  | pop_wait cur c =>
    rw [hpc] at hfits
    have hcur : cur + 1 = BitVec.ofNat 32 c := hfits
    rw [action, hcur, h.nodes]
    rfl
  | pop_data cur c | pop_ready d cur c =>
    rw [hpc] at hfits
    rw [action, hfits.1, h.nodes]
    rfl

/-- The pop of a value that is stored is not in its loop. -/
theorem pop_goes_on (h : Sound M s) {j : ι} {c : Nat} (hj : (s.pcs j).pop_count = some c)
    (hcs : c ∈ s.stored) : s.pcs j ≠ .idle ∧ ¬ s.Spins j := by
  have hct := h.pops.undone j c hj
  have hfits := h.fits j
  unfold Spins
  cases hpc : s.pcs j with
  | pop_wait cur d =>
    rw [hpc] at hfits hj
    cases hj
    have hcur : cur + 1 = BitVec.ofNat 32 c := hfits
    refine ⟨by simp, ?_⟩
    rintro ⟨node, hnode, hready⟩
    rw [hcur, h.nodes] at hnode
    cases hnode
    rw [(h.ready _).mpr ⟨c, hcs, hct, rfl⟩] at hready
    cases hready
  | pop_data cur d | pop_ready data cur d => exact ⟨by simp, id⟩
  | _ =>
    rw [hpc] at hj
    cases hj

/-- The push that a pop waits for is not in its loop. -/
theorem push_goes_on (h : Sound M s) {j : ι} {c : Nat} (hj : (s.pcs j).push_count = some c)
    (hready : s.q.ready (c % M) = false) : s.pcs j ≠ .idle ∧ ¬ s.Spins j := by
  have hfits := h.fits j
  unfold Spins
  cases hpc : s.pcs j with
  | push_wait v cur d =>
    rw [hpc] at hfits hj
    cases hj
    refine ⟨by simp, ?_⟩
    rintro ⟨node, hnode, hready'⟩
    rw [hfits.1, h.nodes] at hnode
    cases hnode
    rw [hready] at hready'
    cases hready'
  | push_data v cur d | push_ready cur d => exact ⟨by simp, id⟩
  | _ =>
    rw [hpc] at hj
    cases hj

theorem spins (h : Sound M s) (hi : s.Spins i) : (∃ j, s.pcs j ≠ .idle ∧ ¬ s.Spins j) ∨
    (s.pcs i).push_count.isSome = true ∧ s.claimed < s.pushed.length := by
  have hfits := h.fits i
  unfold Spins at hi
  cases hpc : s.pcs i with
  | push_wait v cur c =>
    rw [hpc] at hfits hi
    obtain ⟨node, hnode, hready⟩ := hi
    rw [hfits.1, h.nodes] at hnode
    cases hnode
    -- an earlier value is there, which a pop has claimed or not
    obtain ⟨d, hd, hd', hmod⟩ := (h.ready _).mp hready
    obtain ⟨hd1, hdn⟩ := h.pushes.done_le d hd
    by_cases hclaimed : d ≤ s.claimed
    · left
      rcases h.pops.all d hd1 hclaimed with hdone | ⟨j, hj⟩
      · exact absurd hdone hd'
      · exact ⟨j, h.pop_goes_on hj hd⟩
    · exact Or.inr ⟨rfl, by omega⟩
  | pop_wait cur c =>
    rw [hpc] at hfits hi
    obtain ⟨node, hnode, hready⟩ := hi
    have hcur : cur + 1 = BitVec.ofNat 32 c := hfits
    rw [hcur, h.nodes] at hnode
    cases hnode
    have hheld : (ArrPc.pop_count ∘ s.pcs) i = some c := by rw [Function.comp_apply, hpc]; rfl
    obtain ⟨hc1, hc⟩ := h.pops.held_le i c hheld
    left
    rcases h.pushes.all c hc1 (hc.trans h.le) with hdone | ⟨j, hj⟩
    · have htrue := (h.ready _).mpr ⟨c, hdone, h.pops.undone i c hheld, rfl⟩
      rw [hready] at htrue
      cases htrue
    · exact ⟨j, h.push_goes_on hj hready⟩
  | _ =>
    rw [hpc] at hi
    exact hi.elim

theorem rest (h : Sound M s) (hidle : ∀ i, s.pcs i = .idle) :
    s.popped.Perm ((List.range s.claimed).map fun k => (k + 1, s.pushed[k]?)) ∧
      ∀ k, s.claimed ≤ k → k < s.pushed.length →
        s.q.ready ((k + 1) % M) = true ∧ s.q.data ((k + 1) % M) = s.pushed[k]? := by
  have hstored : ∀ c, 1 ≤ c → c ≤ s.pushed.length → c ∈ s.stored := by
    intro c hc hc'
    rcases h.pushes.all c hc hc' with hdone | ⟨j, hj⟩
    · exact hdone
    · rw [Function.comp_apply, hidle j] at hj
      cases hj
  have htaken : ∀ c, 1 ≤ c → c ≤ s.claimed → c ∈ s.taken := by
    intro c hc hc'
    rcases h.pops.all c hc hc' with hdone | ⟨j, hj⟩
    · exact hdone
    · rw [Function.comp_apply, hidle j] at hj
      cases hj
  have hvalue : ∀ e ∈ s.popped, e = (e.1, s.pushed[e.1 - 1]?) := by
    intro e he
    obtain ⟨v, hv, hv'⟩ := h.popped e he
    rw [hv', ← hv]
  constructor
  · have hrange : ((List.range s.claimed).map fun k => (k + 1, s.pushed[k]?)).Nodup := by
      refine List.Nodup.map (fun k k' hk => ?_) List.nodup_range
      exact Nat.succ_injective (congrArg Prod.fst hk)
    rw [List.perm_ext_iff_of_nodup (List.Nodup.of_map Prod.fst h.nodup) hrange]
    intro e
    rw [List.mem_map]
    constructor
    · intro he
      obtain ⟨hc1, hc⟩ := h.pops.done_le e.1 (List.mem_map_of_mem he)
      refine ⟨e.1 - 1, List.mem_range.mpr (by omega), ?_⟩
      rw [Nat.sub_add_cancel hc1]
      exact (hvalue e he).symm
    · rintro ⟨k, hk, rfl⟩
      have hlt := List.mem_range.mp hk
      obtain ⟨e, he, hek⟩ := List.mem_map.mp (htaken (k + 1) (by omega) (by omega))
      have heq := hvalue e he
      rw [hek, Nat.add_sub_cancel] at heq
      exact heq ▸ he
  · intro k hk hk'
    have hmem := hstored (k + 1) (by omega) (by omega)
    have hnot : k + 1 ∉ s.taken := by
      intro hmem'
      have hle := (h.pops.done_le _ hmem').2
      omega
    refine ⟨(h.ready _).mpr ⟨k + 1, hmem, hnot, rfl⟩, ?_⟩
    obtain ⟨v, hv, hv'⟩ := h.data (k + 1) hmem hnot
    rw [hv]
    exact hv'.symm

theorem transfers (h : Sound M s) : Transfers M s where
  popped e he := by
    obtain ⟨hc1, hc⟩ := h.pops.done_le e.1 (List.mem_map_of_mem he)
    exact ⟨hc1, hc, h.popped e he⟩
  once := h.nodup
  claimed := h.le
  inside _ hi := h.inside hi
  spins _ hi := h.spins hi
  rest := h.rest

end Sound

section

variable [DecidableEq ι]

theorem reachable_sound {size : BitVec 32} (hsize : 1 ≤ size.toInt)
    (hround : ceil_to_power_of_two size = size) (h : Reachable step Apart (new size) s) :
    Sound size.toNat s := by
  apply h.invariant
  · exact new_sound hsize hround
  · intro t l t' ht hok hs
    exact step_sound ht hok hs

/-- **Every run** whose exchanges keep the threads apart, where the size is a
    power of two. -/
theorem run_transfers {size : BitVec 32} (hsize : 1 ≤ size.toInt)
    (hround : ceil_to_power_of_two size = size) (h : Reachable step Apart (new size) s) :
    Transfers size.toNat s :=
  (reachable_sound hsize hround h).transfers

/-- Two producers, the second of which comes between the exchange of the first
    and its write, and a consumer that waits for the first. -/
def two_producers : List (ArrLabel (Fin 3) Nat) :=
  [.push 0 5, .go 0, .push 1 6, .go 0, .go 1, .go 1, .pop 2, .go 2, .go 2] ++
    List.replicate 4 (.go 1) ++ [.go 2] ++ List.replicate 3 (.go 0) ++ List.replicate 3 (.go 2)

theorem run_transfers_two_producers :
    ∃ s : ArrThreads (Fin 3) Nat, exec step (new 4) two_producers = some s ∧
      s.pushed = [5, 6] ∧ s.popped = [(1, some 5)] ∧ Transfers 4 s := by
  obtain ⟨s, hs⟩ : ∃ s, exec step (new 4 : ArrThreads (Fin 3) Nat) two_producers = some s :=
    Option.isSome_iff_exists.mp (by decide +kernel)
  refine ⟨s, hs, ?_, ?_, run_transfers (show 1 ≤ (4 : BitVec 32).toInt by decide) (by decide)
    (.of_exec hs (by decide +kernel))⟩
  all_goals
    cases hs
    decide +kernel

end

end ArrThreads

end Pump
