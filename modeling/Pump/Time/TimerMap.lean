import Mathlib.Data.List.TakeWhile
import Pump.Lts
import Pump.SortedMap
import Pump.Time.Engine

/-! # The map of timers

    `timers_`, `__queue_timer` and `__observe` of `time/engine.cpp` with the
    lists as they are, over whole runs of the two functions, and the time the
    observer then waits. A time is an `uint64_t`. -/

namespace Pump

/-! ## Section 1: The functions -/

/-- `std::map<uint64_t, timer_list>`. -/
abbrev TimerMap (ε : Type*) := SortedMap Nat (List ε)

section

variable {ε : Type*}

/-- `__queue_timer`. -/
def TimerMap.queue_timer (timers : TimerMap ε) (timeout : Nat) (e : ε) (now_ns : Nat) :
    TimerMap ε :=
  timers.push_back ((timeout + now_ns) % 2 ^ 64) e

/-- The loop of `__observe`: what is in the list in the end, and how many nodes
    were passed. The lists of these are left empty until they are erased. -/
def observe_scan (now_ns : Nat) (tl : List ε) : List (Nat × List ε) → List ε × Nat
  | [] => (tl, 0)
  | e :: nodes =>
    if e.1 ≤ now_ns then
      let r := observe_scan now_ns (tl ++ e.2) nodes
      (r.1, r.2 + 1)
    else (tl, 0)

/-- `__observe`: the list, `next_time_ns` and the map. -/
def TimerMap.observe (timers : TimerMap ε) (tl : List ε) (next_time_ns now_ns : Nat) :
    List ε × Nat × TimerMap ε :=
  if timers.nodes.isEmpty then (tl, next_time_ns, timers)
  else
    let r := observe_scan now_ns tl timers.nodes
    (r.1,
      match timers.nodes[r.2]? with
      | some e => e.1
      | none => next_time_ns,
      if r.2 = 0 then timers else timers.erase_front r.2)

theorem observe_scan_eq (now_ns : Nat) (tl : List ε) (nodes : List (Nat × List ε)) :
    observe_scan now_ns tl nodes =
      (tl ++ (nodes.takeWhile fun e => e.1 ≤ now_ns).flatMap Prod.snd,
        (nodes.takeWhile fun e => e.1 ≤ now_ns).length) := by
  induction nodes generalizing tl with
  | nil => simp [observe_scan]
  | cons e nodes ih =>
    rw [observe_scan]
    split
    · rename_i hle
      simp [ih, hle]
    · rename_i hgt
      simp [hgt]

theorem takeWhile_none {α : Type*} {p : α → Bool} {l : List α} (h : ∀ x ∈ l, ¬ p x = true) :
    l.takeWhile p = [] := by
  rcases l with _ | ⟨x, l⟩
  · rfl
  · exact List.takeWhile_cons_of_neg (h x List.mem_cons_self)

theorem dropWhile_none {α : Type*} {p : α → Bool} {l : List α} (h : ∀ x ∈ l, ¬ p x = true) :
    l.dropWhile p = l := by
  rcases l with _ | ⟨x, l⟩
  · rfl
  · exact List.dropWhile_cons_of_neg (h x List.mem_cons_self)

/-- The nodes from the first one on that is not due. -/
def TimerMap.late (timers : TimerMap ε) (now_ns : Nat) : List (Nat × List ε) :=
  timers.nodes.dropWhile fun e => e.1 ≤ now_ns

/-- What is moved, the next time, and what stays. -/
theorem TimerMap.observe_eq (timers : TimerMap ε) (tl : List ε) (next_time_ns now_ns : Nat) :
    let r := timers.observe tl next_time_ns now_ns
    r.1 = tl ++ (timers.nodes.takeWhile fun e => e.1 ≤ now_ns).flatMap Prod.snd ∧
      r.2.1 = ((timers.late now_ns).head?.map Prod.fst).getD next_time_ns ∧
      r.2.2.nodes = timers.late now_ns := by
  have hdrop : timers.nodes.drop (timers.nodes.takeWhile fun e => e.1 ≤ now_ns).length =
      timers.late now_ns := by
    have hsplit := List.takeWhile_append_dropWhile
      (p := fun e : Nat × List ε => decide (e.1 ≤ now_ns)) (l := timers.nodes)
    calc timers.nodes.drop (timers.nodes.takeWhile fun e => e.1 ≤ now_ns).length
        = (timers.nodes.takeWhile (fun e => e.1 ≤ now_ns) ++ timers.late now_ns).drop
          (timers.nodes.takeWhile fun e => e.1 ≤ now_ns).length := by rw [TimerMap.late, hsplit]
      _ = timers.late now_ns := List.drop_left
  unfold TimerMap.observe
  by_cases hempty : timers.nodes.isEmpty
  · rw [if_pos hempty]
    simp [TimerMap.late, List.isEmpty_iff.mp hempty]
  -- the scan ends at the first node that is not due, or behind the last
  rw [if_neg hempty, observe_scan_eq]
  refine ⟨rfl, ?_, ?_⟩
  · rw [← hdrop, List.head?_drop]
    dsimp only
    split
    · rename_i hsome
      rw [hsome]
      rfl
    · rename_i hnone
      rw [hnone]
      rfl
  · dsimp only
    split
    · rename_i hnone
      rw [← hdrop, hnone, List.drop_zero]
    · exact hdrop

/-- Everything is moved or stays. -/
theorem TimerMap.observe_values (timers : TimerMap ε) (next_time_ns now_ns : Nat) :
    let r := timers.observe [] next_time_ns now_ns
    timers.values = r.1 ++ r.2.2.values := by
  obtain ⟨hmoved, -, hstay⟩ := timers.observe_eq [] next_time_ns now_ns
  dsimp only
  rw [hmoved, SortedMap.values, SortedMap.values, hstay, List.nil_append, ← List.flatMap_append]
  congr 1
  exact List.takeWhile_append_dropWhile.symm

end

/-! ## Section 3: The map as a list of timers -/

section

variable {ε : Type}

/-- The timers with their times, in the order of the map. -/
def TimerMap.flat (timers : TimerMap ε) : List (Nat × ε) :=
  timers.nodes.flatMap fun node => node.2.map (Prod.mk node.1)

theorem mem_flat {nodes : List (Nat × List ε)} {x : Nat × ε}
    (h : x ∈ nodes.flatMap fun node => node.2.map (Prod.mk node.1)) : ∃ node ∈ nodes, x.1 = node.1 := by
  obtain ⟨node, hnode, hx⟩ := List.mem_flatMap.mp h
  obtain ⟨e, -, rfl⟩ := List.mem_map.mp hx
  exact ⟨node, hnode, rfl⟩

theorem insert_timer_lt {time : Nat} {e : ε} {l : List (Nat × ε)} (h : ∀ x ∈ l, time < x.1) :
    Engine.insert_timer time e l = (time, e) :: l := by
  rcases l with _ | ⟨x, l⟩
  · rfl
  · exact if_pos (h x List.mem_cons_self)

theorem insert_timer_append {time : Nat} {e : ε} {l l' : List (Nat × ε)}
    (h : ∀ x ∈ l, x.1 ≤ time) :
    Engine.insert_timer time e (l ++ l') = l ++ Engine.insert_timer time e l' := by
  induction l with
  | nil => rfl
  | cons x l ih =>
    rw [List.cons_append, Engine.insert_timer, if_neg (not_lt.mpr (h x List.mem_cons_self)),
      ih fun y hy => h y (List.mem_cons_of_mem _ hy), List.cons_append]

theorem flat_modify_nodes (k : Nat) (e : ε) {nodes : List (Nat × List ε)}
    (hsorted : nodes.Pairwise fun e e' => e.1 < e'.1) :
    ((SortedMap.modify_nodes k (fun l => l.getD [] ++ [e]) nodes).flatMap
        fun node => node.2.map (Prod.mk node.1)) =
      Engine.insert_timer k e (nodes.flatMap fun node => node.2.map (Prod.mk node.1)) := by
  induction nodes with
  | nil => rfl
  | cons node nodes ih =>
    obtain ⟨hhead, htail⟩ := List.pairwise_cons.mp hsorted
    have hlater : ∀ x ∈ nodes.flatMap fun node => node.2.map (Prod.mk node.1), node.1 < x.1 := by
      intro x hx
      obtain ⟨node', hnode', hkey⟩ := mem_flat hx
      exact hkey ▸ hhead node' hnode'
    have hown : ∀ x ∈ node.2.map (Prod.mk node.1), x.1 = node.1 := by
      intro x hx
      obtain ⟨e', -, rfl⟩ := List.mem_map.mp hx
      rfl
    rw [SortedMap.modify_nodes, List.flatMap_cons]
    split
    · -- a new node in front of this one
      rename_i hlt
      rw [insert_timer_lt]
      · rfl
      · intro x hx
        rcases List.mem_append.mp hx with hx | hx
        · exact hown x hx ▸ hlt
        · exact lt_trans hlt (hlater x hx)
    · split
      · rename_i hk
        -- the node is there: behind what it holds, and before all later ones
        rw [insert_timer_append fun x hx => by rw [hown x hx, hk],
          insert_timer_lt fun x hx => hk ▸ hlater x hx]
        simp [hk]
      · rename_i hge hne
        rw [insert_timer_append fun x hx => by rw [hown x hx]; exact not_lt.mp hge,
          ← ih htail, List.flatMap_cons]

/-- `__queue_timer` on the map and on the list. -/
theorem TimerMap.flat_queue_timer (timers : TimerMap ε) (timeout : Nat) (e : ε) (now_ns : Nat) :
    (timers.queue_timer timeout e now_ns).flat =
      Engine.insert_timer ((timeout + now_ns) % 2 ^ 64) e timers.flat :=
  flat_modify_nodes _ e timers.sorted

/-- `__observe` on the map and on the list. -/
theorem TimerMap.flat_observe (timers : TimerMap ε) (next_time_ns now_ns : Nat) :
    let r := timers.observe [] next_time_ns now_ns
    Engine.observe timers.flat now_ns = (r.1, r.2.2.flat) := by
  obtain ⟨hmoved, -, hstay⟩ := timers.observe_eq [] next_time_ns now_ns
  have hflat : timers.flat =
      ((timers.nodes.takeWhile fun e => e.1 ≤ now_ns).flatMap
        fun node => node.2.map (Prod.mk node.1)) ++
      (timers.late now_ns).flatMap fun node => node.2.map (Prod.mk node.1) := by
    rw [← List.flatMap_append, TimerMap.late, List.takeWhile_append_dropWhile]
    rfl
  have hdue : ∀ x ∈ (timers.nodes.takeWhile fun e => e.1 ≤ now_ns).flatMap
      fun node => node.2.map (Prod.mk node.1), decide (x.1 ≤ now_ns) = true := by
    intro x hx
    obtain ⟨node, hnode, hkey⟩ := mem_flat hx
    have hle := List.mem_takeWhile_imp hnode
    rw [hkey]
    exact hle
  have hlate : ∀ x ∈ (timers.late now_ns).flatMap fun node => node.2.map (Prod.mk node.1),
      ¬ decide (x.1 ≤ now_ns) = true := by
    intro x hx
    obtain ⟨node, hnode, hkey⟩ := mem_flat hx
    have hlt := timers.lt_of_mem_dropWhile now_ns hnode
    rw [hkey]
    simpa using hlt
  -- the due entries are a prefix of the list, as the due nodes are one of the map
  have htake := @List.takeWhile_append_of_pos _ (fun x : Nat × ε => decide (x.1 ≤ now_ns)) _
    ((timers.late now_ns).flatMap fun node => node.2.map (Prod.mk node.1)) hdue
  have hdrop := @List.dropWhile_append_of_pos _ (fun x : Nat × ε => decide (x.1 ≤ now_ns)) _
    ((timers.late now_ns).flatMap fun node => node.2.map (Prod.mk node.1)) hdue
  rw [takeWhile_none hlate, List.append_nil] at htake
  rw [dropWhile_none hlate] at hdrop
  dsimp only
  rw [Engine.observe, hflat, htake, hdrop, hmoved, TimerMap.flat, hstay]
  simp [List.map_flatMap, Function.comp_def]

end

/-! ## Section 4: Runs -/

/-- A timer in the map, when it was queued, and the number of those queued
    before it. -/
structure TimerEntry (τ : Type) where
  timer : τ
  now : Nat
  number : Nat

/-- What one call of `__observe` did: the reading of the clock, how many timers
    had been queued, what was moved, `next_time_ns`, and what stayed. -/
structure Observation (τ : Type) where
  now : Nat
  queued : Nat
  moved : List (TimerEntry τ)
  next : Nat
  left : List (TimerEntry τ)

/-- The map, with a record of all that was queued and observed. -/
structure TimerRun (τ : Type) where
  timers : TimerMap (TimerEntry τ)
  queued : List (TimerEntry τ)
  observed : List (Observation τ)

inductive TimerRunLabel (τ : Type) where
  | queue_timer (t : τ) (now_ns : Nat)
  | observe (next_time_ns now_ns : Nat)

namespace TimerRun

variable {τ : Type} (timeout : τ → Nat)

/-- No timers. -/
def new : TimerRun τ := ⟨SortedMap.empty, [], []⟩

/-- One call. The list is empty when `__observe` is called. -/
def step (s : TimerRun τ) : TimerRunLabel τ → Option (TimerRun τ)
  | .queue_timer t now_ns =>
    let e : TimerEntry τ := ⟨t, now_ns, s.queued.length⟩
    some
      { s with
        timers := s.timers.queue_timer (timeout t) e now_ns
        queued := s.queued ++ [e] }
  | .observe next_time_ns now_ns =>
    let r := s.timers.observe [] next_time_ns now_ns
    some
      { s with
        timers := r.2.2
        observed := s.observed ++ [⟨now_ns, s.queued.length, r.1, r.2.1, r.2.2.values⟩] }

/-- The time of a timer that is queued is one of type `uint64_t`. -/
def InTime (_ : TimerRun τ) : TimerRunLabel τ → Prop
  | .queue_timer t now_ns => timeout t + now_ns < 2 ^ 64
  | .observe _ _ => True

end TimerRun

section

variable {τ : Type} (timeout : τ → Nat)

/-- Queue time and timeout. -/
def TimerEntry.deadline (e : TimerEntry τ) : Nat := timeout e.timer + e.now

/-- By deadline, and then in queue order. -/
def TimerEntry.Precedes (e e' : TimerEntry τ) : Prop :=
  e.deadline timeout < e'.deadline timeout ∨
    e.deadline timeout = e'.deadline timeout ∧ e.number < e'.number

/-- None of the observations made since `e` was queued was late enough. -/
def TimerEntry.Waits (observed : List (Observation τ)) (e : TimerEntry τ) : Prop :=
  ∀ o ∈ observed, e.number < o.queued → o.now < e.deadline timeout

/-! ## Section 5: The invariant -/

/-- The list at `key` when `n` timers have been queued. -/
structure Bucket (n key : Nat) (l : List (TimerEntry τ)) : Prop where
  nonempty : l ≠ []
  deadline : ∀ e ∈ l, e.deadline timeout = key
  number : ∀ e ∈ l, e.number < n
  order : l.Pairwise fun e e' => e.number < e'.number

/-- What the two functions keep. -/
structure TimerInv (s : TimerRun τ) : Prop where
  numbers : s.queued.map TimerEntry.number = List.range s.queued.length
  buckets : ∀ node ∈ s.timers.nodes, Bucket timeout s.queued.length node.1 node.2
  once : (s.observed.flatMap Observation.moved ++ s.timers.values).Perm s.queued
  due : ∀ o ∈ s.observed, ∀ e ∈ o.moved, e.number < o.queued ∧ e.deadline timeout ≤ o.now
  first : s.observed.Pairwise fun o o' =>
    ∀ e ∈ o'.moved, e.number < o.queued → o.now < e.deadline timeout
  waiting : ∀ e ∈ s.timers.values, e.Waits timeout s.observed
  past : ∀ o ∈ s.observed, o.queued ≤ s.queued.length
  order : ∀ o ∈ s.observed, o.moved.Pairwise (TimerEntry.Precedes timeout)
  next : ∀ o ∈ s.observed, o.left ≠ [] →
    IsLeast {d | ∃ e ∈ o.left, e.deadline timeout = d} o.next

variable {timeout} {s : TimerRun τ}

theorem Bucket.mono {n n' key : Nat} {l : List (TimerEntry τ)} (h : Bucket timeout n key l)
    (hn : n ≤ n') : Bucket timeout n' key l :=
  ⟨h.nonempty, h.deadline, fun e he => lt_of_lt_of_le (h.number e he) hn, h.order⟩

/-- A new entry goes to the end of its list. -/
theorem Bucket.push {n key : Nat} {l : List (TimerEntry τ)} (h : Bucket timeout n key l)
    {e : TimerEntry τ} (he : e.deadline timeout = key) (hn : e.number = n) :
    Bucket timeout (n + 1) key (l ++ [e]) := by
  constructor
  case nonempty => simp
  case deadline =>
    intro e' he'
    rcases List.mem_append.mp he' with hold | hnew
    · exact h.deadline e' hold
    · rw [List.mem_singleton.mp hnew, he]
  case number =>
    intro e' he'
    rcases List.mem_append.mp he' with hold | hnew
    · have := h.number e' hold
      omega
    · rw [List.mem_singleton.mp hnew, hn]
      exact Nat.lt_succ_self n
  case order =>
    refine List.pairwise_append.mpr ⟨h.order, List.pairwise_singleton _ _, ?_⟩
    intro e' he' e'' he''
    rw [List.mem_singleton.mp he'', hn]
    exact h.number e' he'

/-- `__queue_timer` keeps the invariant. -/
theorem TimerInv.queue_timer (h : TimerInv timeout s) {t : τ} {now_ns : Nat}
    (hin : timeout t + now_ns < 2 ^ 64) :
    TimerInv timeout
      { s with
        timers := s.timers.queue_timer (timeout t) ⟨t, now_ns, s.queued.length⟩ now_ns
        queued := s.queued ++ [⟨t, now_ns, s.queued.length⟩] } := by
  obtain ⟨e, he⟩ : ∃ e : TimerEntry τ, e = ⟨t, now_ns, s.queued.length⟩ := ⟨_, rfl⟩
  have hkey : (timeout t + now_ns) % 2 ^ 64 = e.deadline timeout := by
    rw [Nat.mod_eq_of_lt hin, he]
    rfl
  have hnumber : e.number = s.queued.length := by rw [he]
  have hlen : (s.queued ++ [e]).length = s.queued.length + 1 := by simp
  rw [TimerMap.queue_timer, hkey, ← he]
  have hperm := SortedMap.values_push_back s.timers (e.deadline timeout) e
  constructor
  case numbers =>
    dsimp only
    rw [List.map_append, h.numbers, hlen, List.range_succ, List.map_singleton, hnumber]
  case buckets =>
    dsimp only
    rw [hlen]
    -- the entry is the last of its bucket, and its number is the greatest
    apply SortedMap.forall_push_back (P := Bucket timeout (s.queued.length + 1))
    · exact fun node hnode => (h.buckets node hnode).mono (Nat.le_succ _)
    · exact ⟨by simp, by simp, by simp [hnumber], List.pairwise_singleton _ _⟩
    · exact fun l hl => (h.buckets _ hl).push rfl hnumber
  case once =>
    refine (List.Perm.append_left _ hperm).trans ?_
    rw [← List.append_assoc]
    exact h.once.append_right [e]
  case due => exact h.due
  case first => exact h.first
  case waiting =>
    intro e' he'
    rcases List.mem_append.mp (hperm.mem_iff.mp he') with hold | hnew
    · exact h.waiting e' hold
    · -- no observation has been made since
      intro o ho hlt
      have hpast := h.past o ho
      rw [List.mem_singleton.mp hnew, hnumber] at hlt
      omega
  case past =>
    intro o ho
    have hpast := h.past o ho
    dsimp only
    omega
  case order => exact h.order
  case next => exact h.next

/-- What is moved comes by deadline, and in queue order for the same deadline. -/
theorem moved_order {n : Nat} {nodes : List (Nat × List (TimerEntry τ))}
    (hsorted : nodes.Pairwise fun e e' => e.1 < e'.1)
    (h : ∀ node ∈ nodes, Bucket timeout n node.1 node.2) :
    (nodes.flatMap Prod.snd).Pairwise (TimerEntry.Precedes timeout) := by
  rw [List.pairwise_flatMap]
  constructor
  · intro node hnode
    have hbucket := h node hnode
    refine hbucket.order.imp_of_mem ?_
    intro e e' he he' hlt
    exact .inr ⟨by rw [hbucket.deadline e he, hbucket.deadline e' he'], hlt⟩
  · refine hsorted.imp_of_mem ?_
    intro node node' hnode hnode' hlt e he e' he'
    left
    rw [(h node hnode).deadline e he, (h node' hnode').deadline e' he']
    exact hlt

/-- The key of the first node is the least deadline. -/
theorem first_least {n next : Nat} {timers : TimerMap (TimerEntry τ)}
    (h : ∀ node ∈ timers.nodes, Bucket timeout n node.1 node.2) (hne : timers.values ≠ [])
    (hnext : next = (timers.nodes.head?.map Prod.fst).getD next) :
    IsLeast {d | ∃ e ∈ timers.values, e.deadline timeout = d} next := by
  obtain ⟨_ | ⟨node, nodes⟩, hsorted⟩ := timers
  · exact absurd rfl hne
  have hhead : next = node.1 := hnext
  have hbucket := h node List.mem_cons_self
  constructor
  · obtain ⟨e, l, hl⟩ := List.exists_cons_of_ne_nil hbucket.nonempty
    have he : e ∈ node.2 := by
      rw [hl]
      exact List.mem_cons_self
    refine ⟨e, ?_, by rw [hhead, hbucket.deadline e he]⟩
    exact SortedMap.mem_values.mpr ⟨node, List.mem_cons_self, he⟩
  · rintro d ⟨e, he, rfl⟩
    obtain ⟨node', hnode', hmem⟩ := SortedMap.mem_values.mp he
    rw [hhead, (h node' hnode').deadline e hmem]
    rcases List.mem_cons.mp hnode' with rfl | hrest
    · exact le_refl _
    · exact le_of_lt ((List.pairwise_cons.mp hsorted).1 node' hrest)

/-- `__observe` keeps it. -/
theorem TimerInv.observe (h : TimerInv timeout s) (next_time_ns now_ns : Nat) :
    let r := s.timers.observe [] next_time_ns now_ns
    TimerInv timeout
      { s with
        timers := r.2.2
        observed := s.observed ++ [⟨now_ns, s.queued.length, r.1, r.2.1, r.2.2.values⟩] } := by
  have hvalues := s.timers.observe_values next_time_ns now_ns
  obtain ⟨hmoved, hnext, hstay⟩ := s.timers.observe_eq [] next_time_ns now_ns
  dsimp only at hvalues hmoved hnext hstay ⊢
  generalize s.timers.observe [] next_time_ns now_ns = r at *
  obtain ⟨moved, next, timers⟩ := r
  dsimp only at hvalues hmoved hnext hstay ⊢
  rw [List.nil_append] at hmoved
  have hbuckets : ∀ node ∈ timers.nodes, Bucket timeout s.queued.length node.1 node.2 := by
    intro node hnode
    rw [hstay] at hnode
    exact h.buckets node ((List.dropWhile_sublist _).mem hnode)
  have hgone : ∀ node ∈ s.timers.nodes.takeWhile fun e => e.1 ≤ now_ns,
      Bucket timeout s.queued.length node.1 node.2 :=
    fun node hnode => h.buckets node ((List.takeWhile_sublist _).mem hnode)
  have hdue : ∀ e ∈ moved, e.number < s.queued.length ∧ e.deadline timeout ≤ now_ns := by
    intro e he
    rw [hmoved] at he
    obtain ⟨node, hnode, hmem⟩ := List.mem_flatMap.mp he
    refine ⟨(hgone node hnode).number e hmem, ?_⟩
    rw [(hgone node hnode).deadline e hmem]
    simpa using List.mem_takeWhile_imp hnode
  have hlate : ∀ e ∈ timers.values, now_ns < e.deadline timeout := by
    intro e he
    obtain ⟨node, hnode, hmem⟩ := SortedMap.mem_values.mp he
    rw [(hbuckets node hnode).deadline e hmem]
    rw [hstay] at hnode
    exact s.timers.lt_of_mem_dropWhile now_ns hnode
  constructor
  case numbers => exact h.numbers
  case buckets => exact hbuckets
  case once =>
    have honce := h.once
    rw [hvalues] at honce
    simpa [List.flatMap_append] using honce
  case due =>
    intro o ho
    rcases List.mem_append.mp ho with hold | hnew
    · exact h.due o hold
    · rw [List.mem_singleton.mp hnew]
      exact hdue
  case first =>
    refine List.pairwise_append.mpr ⟨h.first, List.pairwise_singleton _ _, ?_⟩
    -- what is moved now was waiting before
    intro o ho o' ho' e he
    rw [List.mem_singleton.mp ho'] at he
    refine h.waiting e ?_ o ho
    rw [hvalues]
    exact List.mem_append_left _ he
  case waiting =>
    intro e he o ho
    rcases List.mem_append.mp ho with hold | hnew
    · refine h.waiting e ?_ o hold
      rw [hvalues]
      exact List.mem_append_right _ he
    · rw [List.mem_singleton.mp hnew]
      exact fun _ => hlate e he
  case past =>
    intro o ho
    rcases List.mem_append.mp ho with hold | hnew
    · exact h.past o hold
    · rw [List.mem_singleton.mp hnew]
  case order =>
    intro o ho
    rcases List.mem_append.mp ho with hold | hnew
    · exact h.order o hold
    · rw [List.mem_singleton.mp hnew]
      dsimp only
      rw [hmoved]
      exact moved_order (s.timers.sorted.sublist (List.takeWhile_sublist _)) hgone
  case next =>
    intro o ho
    rcases List.mem_append.mp ho with hold | hnew
    · exact h.next o hold
    · rw [List.mem_singleton.mp hnew]
      intro hne
      rw [← hstay] at hnext
      refine first_least hbuckets hne ?_
      rcases hnodes : timers.nodes with _ | ⟨node, nodes⟩
      · rfl
      · rw [hnodes] at hnext
        exact hnext

theorem timerInv_new : TimerInv timeout TimerRun.new := by
  constructor <;> simp [TimerRun.new, SortedMap.empty, SortedMap.values]

theorem timerInv_reachable (h : Reachable (TimerRun.step timeout) (TimerRun.InTime timeout)
    TimerRun.new s) : TimerInv timeout s := by
  refine h.invariant timerInv_new ?_
  intro s l s' hinv hok hstep
  cases l with
  | queue_timer t now_ns =>
    cases hstep
    exact hinv.queue_timer hok
  | observe next_time_ns now_ns =>
    cases hstep
    exact hinv.observe next_time_ns now_ns

/-! ## Section 6: Each timer once, in time and in order -/

theorem TimerInv.queued_nodup (h : TimerInv timeout s) : s.queued.Nodup := by
  have hnodup : (s.queued.map TimerEntry.number).Nodup := by
    rw [h.numbers]
    exact List.nodup_range
  exact hnodup.of_map

/-- What is queued has been moved or is stored. -/
theorem TimerInv.moved_or_stored (h : TimerInv timeout s) {e : TimerEntry τ} (he : e ∈ s.queued) :
    (∃ o ∈ s.observed, e ∈ o.moved) ∨ e ∈ s.timers.values := by
  rcases List.mem_append.mp (h.once.mem_iff.mpr he) with hmoved | hstored
  · exact .inl (List.mem_flatMap.mp hmoved)
  · exact .inr hstored

/-- An observation moves what no earlier one was late enough for. -/
theorem TimerInv.moved_iff (h : TimerInv timeout s) {before after : List (Observation τ)}
    {o : Observation τ} (hsplit : s.observed = before ++ o :: after) {e : TimerEntry τ}
    (he : e ∈ s.queued) :
    e ∈ o.moved ↔
      e.number < o.queued ∧ e.deadline timeout ≤ o.now ∧ e.Waits timeout before := by
  have hfirst := h.first
  have hdue := h.due
  rw [hsplit] at hfirst hdue
  obtain ⟨hbefore, hafter, hcross⟩ := List.pairwise_append.mp hfirst
  have hthen := (List.pairwise_cons.mp hafter).1
  constructor
  · intro hmem
    obtain ⟨hnumber, htime⟩ := hdue o (by simp) e hmem
    exact ⟨hnumber, htime, fun o' ho' => hcross o' ho' o List.mem_cons_self e hmem⟩
  · rintro ⟨hnumber, htime, hwaits⟩
    rcases h.moved_or_stored he with ⟨o', ho', hmem⟩ | hstored
    · rw [hsplit] at ho'
      rcases List.mem_append.mp ho' with hin | hin
      · -- an earlier one would have been late enough
        obtain ⟨hnumber', htime'⟩ := hdue o' (List.mem_append_left _ hin) e hmem
        have := hwaits o' hin hnumber'
        omega
      rcases List.mem_cons.mp hin with rfl | hin
      · exact hmem
      · -- this one would not have been late enough for a later one
        have := hthen o' hin e hmem hnumber
        omega
    · have := h.waiting e hstored o (by rw [hsplit]; simp) hnumber
      omega

theorem TimerInv.stored_iff (h : TimerInv timeout s) {e : TimerEntry τ} (he : e ∈ s.queued) :
    e ∈ s.timers.values ↔ e.Waits timeout s.observed := by
  constructor
  · exact h.waiting e
  · intro hwaits
    rcases h.moved_or_stored he with ⟨o, ho, hmem⟩ | hstored
    · obtain ⟨hnumber, htime⟩ := h.due o ho e hmem
      have := hwaits o ho hnumber
      omega
    · exact hstored

/-- After any calls of `__queue_timer` and `__observe`, whatever the clock
    showed: what was queued was moved once or is stored; it was moved by the
    first observation that was late enough; each observation moved by deadline
    and in queue order; and its next time is the least deadline that was left. -/
theorem timers_trigger_once (timeout : τ → Nat) (s : TimerRun τ)
    (h : Reachable (TimerRun.step timeout) (TimerRun.InTime timeout) TimerRun.new s) :
    (s.queued.Nodup ∧
      (s.observed.flatMap Observation.moved ++ s.timers.values).Perm s.queued) ∧
    (∀ before o after, s.observed = before ++ o :: after → ∀ e ∈ s.queued,
      (e ∈ o.moved ↔
        e.number < o.queued ∧ e.deadline timeout ≤ o.now ∧ e.Waits timeout before)) ∧
    (∀ e ∈ s.queued, (e ∈ s.timers.values ↔ e.Waits timeout s.observed)) ∧
    (∀ o ∈ s.observed, o.moved.Pairwise (TimerEntry.Precedes timeout)) ∧
    (∀ o ∈ s.observed, o.left ≠ [] →
      IsLeast {d | ∃ e ∈ o.left, e.deadline timeout = d} o.next) := by
  have hinv := timerInv_reachable h
  refine ⟨⟨hinv.queued_nodup, hinv.once⟩, ?_, ?_, hinv.order, hinv.next⟩
  · exact fun before o after hsplit e he => hinv.moved_iff hsplit he
  · exact fun e he => hinv.stored_iff he

theorem timers_trigger_once_run :
    ∃ s : TimerRun Unit,
      exec (TimerRun.step fun _ => 5) TimerRun.new [.queue_timer () 0, .observe 0 5] = some s ∧
        (s.queued.Nodup ∧
          (s.observed.flatMap Observation.moved ++ s.timers.values).Perm s.queued) := by
  refine ⟨_, rfl, (timers_trigger_once (fun _ => 5) _ ?_).1⟩
  refine @Reachable.of_exec _ _ _ _ _ _ [.queue_timer () 0, .observe 0 5] rfl ⟨?_, trivial, trivial⟩
  exact show 5 + 0 < 2 ^ 64 by omega

end

/-! ## Section 7: The wait -/

section

variable {ε : Type*}

end

end Pump
