import Pump.Time.Engine

/-! # A timer fires once

    A timer has no count of its entries. It is started where it has none, and
    the thread that has started it enqueues one; the worker takes the entry
    and, before it calls back, makes the timer startable again or enqueues it
    again. So entries and the threads that are about to make one are at most
    one together, and none while the timer can be started. -/

namespace Pump

open TimerState

/-- A timer that cannot be started has room for one entry. -/
def TimerState.room : TimerState → ℤ
  | timer_state_none | timer_state_finished => 0
  | _ => 1

variable {ι τ : Type} [DecidableEq τ]

/-! ## Section 1: Entries -/

/-- The call is about to enqueue `t`. -/
def TimerCall.enqueues (t : τ) : TimerCall τ → ℤ
  | .start_enqueue t' => if t' = t then 1 else 0
  | _ => 0

/-- What the call has read: a timer that can be started. -/
def TimerCall.Sound : TimerCall τ → Prop
  | .start_exchange _ st => st.room = 0
  | _ => True

/-- The timers that the observer is about to post. -/
def ObserverPc.holds : ObserverPc τ → List τ
  | .dequeue tl | .drain tl _ _ | .post tl => tl
  | .check | .ended => []

namespace TimeoutPc

/-- The rest of the list that the worker handles. -/
@[simp]
def rest : TimeoutPc τ → List τ
  | .dequeue => []
  | .lock rest | .set_pending _ rest | .restart_check _ rest | .restart_exchange _ rest
  | .restart_enqueue _ rest | .set_finished _ rest | .call _ rest | .callback _ rest _ => rest

/-- The worker has the entry of `t`, or is about to enqueue it. -/
@[simp]
def handles (t : τ) : TimeoutPc τ → ℤ
  | .set_pending t' _ | .restart_check t' _ | .restart_exchange t' _ | .restart_enqueue t' _
  | .set_finished t' _ => if t' = t then 1 else 0
  | .callback _ _ c => c.enqueues t
  | _ => 0

/-- The worker is about to call back. -/
@[simp]
def calling (t : τ) : TimeoutPc τ → ℤ
  | .call t' _ => if t' = t then 1 else 0
  | _ => 0

/-- The worker handles an expired entry of `t`, and has not called back. -/
@[simp]
def expired (t : τ) : TimeoutPc τ → ℤ
  | .set_pending t' _ | .restart_check t' _ | .restart_exchange t' _ | .restart_enqueue t' _
  | .set_finished t' _ | .call t' _ => if t' = t then 1 else 0
  | _ => 0

/-- Only repeated timers are restarted, and a call in a callback is sound. -/
def Sound (repeated : τ → Bool) : TimeoutPc τ → Prop
  | .restart_check t _ | .restart_exchange t _ | .restart_enqueue t _ => repeated t = true
  | .callback _ _ c => c.Sound
  | _ => True

end TimeoutPc

namespace Engine

/-- The entries of `t` in `new_timers_`, in `timers_` and in the lists of
    triggered timers. -/
def entries (s : Engine ι τ) (t : τ) : ℤ :=
  s.new_timers.count t + (s.timers.map Prod.snd).count t + s.observer.holds.count t +
    s.triggered_timers.flatten.count t + s.worker.rest.count t

/-- The entries of `t` that have expired, and the one that is handled. -/
def pending (s : Engine ι τ) (t : τ) : ℤ :=
  s.observer.holds.count t + s.triggered_timers.flatten.count t + s.worker.rest.count t +
    s.worker.expired t

/-- The entries of `t`, with the one that the worker has or is about to make. -/
def live (s : Engine ι τ) (t : τ) : ℤ := s.entries t + s.worker.handles t

/-- How often an event has happened. -/
def times (s : Engine ι τ) (ev : TimerEvent τ) : ℤ := s.events.count ev

/-- What a step does to the entries of `t`, where the threads of the user are
    about to enqueue `d` more. -/
structure Effect (t : τ) (d : ℤ) (s s' : Engine ι τ) : Prop where
  repeated : s'.repeated = s.repeated
  room : d + s'.live t - s.live t ≤ (s'.state t).room - (s.state t).room
  starts : s.repeated t = false →
    d + (s'.live t + s'.worker.calling t + s'.times (.called t)) -
      (s.live t + s.worker.calling t + s.times (.called t)) ≤
        s'.times (.started t) - s.times (.started t)
  expiries : (s'.pending t + s'.times (.called t)) - (s.pending t + s.times (.called t)) ≤
    s'.times (.expired t) - s.times (.expired t)

/-- What a call of `start_timer` or `stop` does. -/
inductive CallEffect (s : Engine ι τ) : TimerCall τ → TimerCall τ × Engine ι τ → Prop
  | quiet (c c' : TimerCall τ) : (∀ t, c.enqueues t = 0) → (∀ t, c'.enqueues t = 0) → c'.Sound →
      (∀ t, c' ≠ .stop_return t) → CallEffect s c (c', s)
  | start (t : τ) : (s.state t).room = 0 → CallEffect s (.start_exchange t (s.state t))
      (.start_enqueue t, ({ s with state := Function.update s.state t timer_state_started } :
        Engine ι τ).record (.started t))
  | enqueue (t : τ) : CallEffect s (.start_enqueue t)
      (.idle, { s with new_timers := s.new_timers ++ [t] })
  | stop (t : τ) : CallEffect s (.stop_store t)
      (.stop_return t, { s with state := Function.update s.state t timer_state_stopped })
  | stopped (t : τ) : CallEffect s (.stop_return t) (.idle, s.record (.stopped t))

theorem call_effect (s : Engine ι τ) (c : TimerCall τ) (hsound : c.Sound) :
    CallEffect s c (s.call_step c) := by
  cases c with
  | idle => exact .quiet .idle .idle (fun _ => rfl) (fun _ => rfl) trivial (fun _ => nofun)
  | start_check t =>
    simp only [call_step]
    split
    · exact .quiet _ _ (fun _ => rfl) (fun _ => rfl) trivial (fun _ => nofun)
    · exact .quiet _ _ (fun _ => rfl) (fun _ => rfl) trivial (fun _ => nofun)
  | start_load t =>
    simp only [call_step]
    split
    · exact .quiet _ _ (fun _ => rfl) (fun _ => rfl) trivial (fun _ => nofun)
    · next hst =>
      refine .quiet _ _ (fun _ => rfl) (fun _ => rfl) ?_ (fun _ => nofun)
      show (s.state t).room = 0
      rw [not_and_or, not_not, not_not] at hst
      rcases hst with hst | hst
      · rw [hst]
        rfl
      · rw [hst]
        rfl
  | start_exchange t st =>
    simp only [call_step, set_state]
    by_cases hst : s.state t = st
    · subst hst
      simp only [if_true]
      exact .start t hsound
    · simp only [if_neg hst]
      exact .quiet _ _ (fun _ => rfl) (fun _ => rfl) trivial (fun _ => nofun)
  | start_enqueue t => exact .enqueue t
  | stop_store t => exact .stop t
  | stop_return t => exact .stopped t

theorem CallEffect.sound {s : Engine ι τ} {c : TimerCall τ} {r : TimerCall τ × Engine ι τ}
    (h : CallEffect s c r) : r.1.Sound := by
  cases h with
  | quiet _ _ _ _ hsound _ => exact hsound
  | _ => trivial

/-- The parts of the engine that a call leaves alone. -/
theorem CallEffect.same {s : Engine ι τ} {c : TimerCall τ} {r : TimerCall τ × Engine ι τ}
    (h : CallEffect s c r) : r.2.repeated = s.repeated ∧ r.2.calls = s.calls ∧
      r.2.worker = s.worker ∧ r.2.observer = s.observer := by
  cases h <;> exact ⟨rfl, rfl, rfl, rfl⟩

theorem room_nonneg (st : TimerState) : 0 ≤ st.room ∧ st.room ≤ 1 := by
  cases st <;> decide

/-- The room of a timer that is set to `st`. -/
theorem room_update (f : τ → TimerState) (t t' : τ) (st : TimerState) :
    (Function.update f t st t').room = if t = t' then st.room else (f t').room := by
  by_cases h : t = t'
  · rw [h, Function.update_self, if_pos rfl]
  · rw [Function.update_of_ne (Ne.symm h), if_neg h]

/-- How often an event has happened once more has happened. -/
theorem times_record (s : Engine ι τ) (ev ev' : TimerEvent τ) :
    (s.record ev).times ev' = s.times ev' + if ev = ev' then 1 else 0 := by
  unfold times record
  rw [List.count_append, List.count_singleton]
  simp only [beq_iff_eq]
  split
  · rfl
  · rfl

omit [DecidableEq τ] in
/-- The number of times an element is in a list that it is put into. -/
theorem count_concat [DecidableEq τ] (l : List τ) (t t' : τ) :
    ((l ++ [t]).count t' : ℤ) = l.count t' + if t = t' then 1 else 0 := by
  rw [List.count_append, List.count_singleton]
  simp only [beq_iff_eq]
  split
  · rfl
  · rfl

/-- A call changes the entries as far as it starts the timer. -/
theorem CallEffect.effect {s : Engine ι τ} {c : TimerCall τ} {r : TimerCall τ × Engine ι τ}
    (h : CallEffect s c r) (t : τ) : Effect t (r.1.enqueues t - c.enqueues t) s r.2 := by
  cases h with
  | quiet _ c' hold hnew hsound _ =>
    have hzero : c'.enqueues t - c.enqueues t = 0 := by
      rw [hold, hnew]
      rfl
    simp only [hzero]
    refine ⟨rfl, ?_, fun _ => ?_, ?_⟩
    all_goals omega
  | start t' hroom =>
    -- a timer that could be started had no room, and has room for this entry
    have hone : (TimerCall.start_enqueue t').enqueues t = if t' = t then 1 else 0 := rfl
    have hzero : (TimerCall.start_exchange t' (s.state t')).enqueues t = 0 := rfl
    refine ⟨rfl, ?_, fun _ => ?_, ?_⟩
    · show _ - _ + s.live t - s.live t ≤ (Function.update s.state t' _ t).room - _
      rw [room_update, hone, hzero]
      split
      · next heq =>
        rw [← heq, hroom]
        show _ ≤ (1 : ℤ) - 0
        omega
      · omega
    · rw [times_record, times_record, hone, hzero]
      simp only [reduceCtorEq, if_false, TimerEvent.started.injEq]
      show _ - 0 + (s.live t + s.worker.calling t + (s.times _ + 0)) - _ ≤ s.times _ + _ - _
      omega
    · rw [times_record, times_record]
      simp only [reduceCtorEq, if_false]
      show s.pending t + (s.times _ + 0) - _ ≤ s.times _ + 0 - _
      omega
  | enqueue t' =>
    -- what was about to be enqueued is an entry now
    have hone : (TimerCall.start_enqueue t').enqueues t = if t' = t then 1 else 0 := rfl
    have hzero : (TimerCall.idle : TimerCall τ).enqueues t = 0 := rfl
    have hlive : ({ s with new_timers := s.new_timers ++ [t'] } : Engine ι τ).live t =
        s.live t + if t' = t then 1 else 0 := by
      unfold live entries
      rw [count_concat]
      ring
    refine ⟨rfl, ?_, fun _ => ?_, ?_⟩
    · rw [hlive, hone, hzero]
      show _ ≤ (s.state t).room - _
      omega
    · rw [hlive, hone, hzero]
      show _ + (_ + _ + s.worker.calling t + s.times _) - _ ≤ s.times _ - _
      omega
    · show s.pending t + s.times _ - _ ≤ s.times _ - _
      omega
  | stop t' =>
    -- a stopped timer has room, whether it had or not
    have hzero : (TimerCall.stop_return t').enqueues t - (TimerCall.stop_store t').enqueues t = 0 :=
      rfl
    simp only [hzero]
    refine ⟨rfl, ?_, fun _ => ?_, ?_⟩
    · have hle := room_nonneg (s.state t)
      show 0 + s.live t - s.live t ≤ (Function.update s.state t' _ t).room - _
      rw [room_update]
      split
      · show _ ≤ (1 : ℤ) - _
        omega
      · omega
    · show 0 + (s.live t + s.worker.calling t + s.times _) - _ ≤ s.times _ - _
      omega
    · show s.pending t + s.times _ - _ ≤ s.times _ - _
      omega
  | stopped t' =>
    have hzero : (TimerCall.idle : TimerCall τ).enqueues t - (TimerCall.stop_return t').enqueues t
        = 0 := rfl
    simp only [hzero]
    refine ⟨rfl, ?_, fun _ => ?_, ?_⟩
    · show 0 + s.live t - s.live t ≤ (s.state t).room - _
      omega
    · rw [times_record, times_record]
      simp only [reduceCtorEq, if_false]
      show 0 + (s.live t + s.worker.calling t + (s.times _ + 0)) - _ ≤ s.times _ + 0 - _
      omega
    · rw [times_record, times_record]
      simp only [reduceCtorEq, if_false]
      show s.pending t + (s.times _ + 0) - _ ≤ s.times _ + 0 - _
      omega

/-! ## Section 2: The observer and the worker -/

omit [DecidableEq τ] in
theorem insert_timer_perm (time : Nat) (t : τ) (timers : List (Nat × τ)) :
    (insert_timer time t timers).Perm ((time, t) :: timers) := by
  induction timers with
  | nil => exact List.Perm.refl _
  | cons e timers ih =>
    unfold insert_timer
    split
    · exact List.Perm.refl _
    · exact (ih.cons e).trans (List.Perm.swap _ _ _)

theorem count_insert_timer (time : Nat) (t t' : τ) (timers : List (Nat × τ)) :
    (((insert_timer time t timers).map Prod.snd).count t' : ℤ) =
      (timers.map Prod.snd).count t' + if t = t' then 1 else 0 := by
  rw [((insert_timer_perm time t timers).map Prod.snd).count_eq, List.map_cons, List.count_cons]
  simp only [beq_iff_eq]
  split
  · rfl
  · rfl

theorem count_observe (timers : List (Nat × τ)) (now : Nat) (t : τ) :
    ((timers.map Prod.snd).count t : ℤ) =
      (observe timers now).1.count t + ((observe timers now).2.map Prod.snd).count t := by
  unfold observe
  rw [← Nat.cast_add, ← List.count_append, ← List.map_append, List.takeWhile_append_dropWhile]

omit [DecidableEq τ] in
theorem holds_observer_end (tl : List τ) : (observer_end tl).holds = tl := by
  unfold observer_end
  split
  · next h =>
    rw [h]
    rfl
  · rfl

theorem count_expired (tl : List τ) (t : τ) :
    (tl.map TimerEvent.expired).count (.expired t) = tl.count t := by
  apply List.count_map_of_injective
  intro a b hab
  cases hab
  rfl

theorem count_expired_ne (tl : List τ) {ev : TimerEvent τ} (h : ∀ t, ev ≠ .expired t) :
    (tl.map TimerEvent.expired).count ev = 0 := by
  rw [List.count_eq_zero]
  intro hmem
  obtain ⟨t, -, ht⟩ := List.mem_map.mp hmem
  exact h t ht.symm

/-- A step of the observer or the worker that starts nothing: the entries are
    no more, and the timers have the room they had. -/
theorem Effect.of_le {s s' : Engine ι τ} {t : τ} (hrepeated : s'.repeated = s.repeated)
    (hroom : s'.live t - s.live t ≤ (s'.state t).room - (s.state t).room)
    (hstarted : s'.times (.started t) = s.times (.started t))
    (hcalling : s.repeated t = false → s'.live t + s'.worker.calling t + s'.times (.called t) ≤
      s.live t + s.worker.calling t + s.times (.called t))
    (hexpired : s'.pending t + s'.times (.called t) - (s.pending t + s.times (.called t)) ≤
      s'.times (.expired t) - s.times (.expired t)) : Effect t 0 s s' := by
  refine ⟨hrepeated, by omega, ?_, hexpired⟩
  intro h
  have hle := hcalling h
  omega

/-- A step that only moves entries. -/
theorem Effect.moved {s s' : Engine ι τ} {t : τ} (hrepeated : s'.repeated = s.repeated)
    (hstate : s'.state = s.state) (hworker : s'.worker = s.worker)
    (hevents : s'.events = s.events) (hentries : s'.entries t = s.entries t)
    (hpending : s'.pending t = s.pending t) : Effect t 0 s s' := by
  have hlive : s'.live t = s.live t := by
    unfold live
    rw [hentries, hworker]
  have htimes : ∀ ev, s'.times ev = s.times ev := by
    intro ev
    unfold times
    rw [hevents]
  apply Effect.of_le hrepeated
  · rw [hlive, hstate]
    omega
  · exact htimes _
  · intro _
    rw [hlive, hworker, htimes]
  · rw [hpending, htimes, htimes]
    omega

/-- The observer goes on with the timers that it holds. -/
theorem Effect.idle {s : Engine ι τ} {pc : ObserverPc τ} (hholds : pc.holds = s.observer.holds)
    (t : τ) : Effect t 0 s { s with observer := pc } := by
  apply Effect.moved
  case hentries =>
    unfold entries
    simp only [hholds]
  case hpending =>
    unfold pending
    simp only [hholds]
  all_goals rfl

/-- The observer takes a new timer into its own. -/
theorem Effect.adopt {s : Engine ι τ} {t' : τ} {new_timers : List τ}
    (hnew : s.new_timers = t' :: new_timers) {pc : ObserverPc τ}
    (hholds : pc.holds = s.observer.holds) (now : Nat) (t : τ) :
    Effect t 0 s { ({ s with new_timers := new_timers } : Engine ι τ).queue_timer t' now with
      observer := pc } := by
  apply Effect.moved
  case hentries =>
    unfold entries queue_timer
    simp only [hholds, hnew, count_insert_timer, List.count_cons, beq_iff_eq]
    split
    · omega
    · omega
  case hpending =>
    unfold pending queue_timer
    simp only [hholds]
  all_goals rfl

theorem observer_effect (s : Engine ι τ) (now later : Nat) (ok : Bool) (t : τ) :
    Effect t 0 s { (s.observer_step now later ok s.observer).2 with
      observer := (s.observer_step now later ok s.observer).1 } := by
  cases hobs : s.observer with
  | check =>
    simp only [observer_step]
    split
    · -- the timers that have expired
      obtain ⟨tl, htl⟩ : ∃ tl, tl = (observe s.timers now).1 := ⟨_, rfl⟩
      have hcount := count_observe s.timers now t
      rw [← htl] at hcount ⊢
      obtain ⟨pc, hpc, hholds⟩ : ∃ pc, (if tl = [] ∧
          next_observe_time (observe s.timers now).2 now > later then ObserverPc.dequeue tl
          else ObserverPc.drain tl later 1024) = pc ∧ pc.holds = tl := by
        split
        · exact ⟨_, rfl, rfl⟩
        · exact ⟨_, rfl, rfl⟩
      simp only [hpc]
      have hnone : s.observer.holds.count t = 0 := by
        rw [hobs]
        rfl
      have hlive : ({ s with
          timers := (observe s.timers now).2
          events := s.events ++ tl.map .expired
          observer := pc } : Engine ι τ).live t = s.live t := by
        unfold live entries
        simp only [hholds]
        omega
      apply Effect.of_le
      case hrepeated => rfl
      case hroom =>
        rw [hlive]
        show _ ≤ (s.state t).room - _
        omega
      case hstarted =>
        unfold times
        rw [List.count_append, count_expired_ne tl (by simp), Nat.add_zero]
      case hcalling =>
        intro _
        rw [hlive]
        unfold times
        rw [List.count_append, count_expired_ne tl (by simp), Nat.add_zero]
      case hexpired =>
        unfold times pending
        simp only [hholds]
        rw [List.count_append, List.count_append, count_expired, count_expired_ne tl (by simp)]
        omega
    · exact Effect.idle (by rw [hobs]; rfl) t
  | dequeue tl =>
    simp only [observer_step]
    split
    · next t' new_timers hnew => exact Effect.adopt hnew (by rw [hobs]; rfl) later t
    · exact Effect.idle (by rw [hobs]; rfl) t
  | drain tl now' left =>
    simp only [observer_step]
    split
    · next left' t' new_timers hnew => exact Effect.adopt hnew (by rw [hobs]; rfl) now' t
    · exact Effect.idle (by rw [hobs, holds_observer_end]; rfl) t
  | post tl =>
    simp only [observer_step]
    have hflat : ((s.triggered_timers ++ [tl]).flatten.count t : ℤ) =
        s.triggered_timers.flatten.count t + tl.count t := by
      rw [List.flatten_append, List.count_append, List.flatten_singleton]
      rfl
    apply Effect.moved
    case hentries =>
      unfold entries
      simp only [hobs, hflat, ObserverPc.holds, List.count_nil]
      omega
    case hpending =>
      unfold pending
      simp only [hobs, hflat, ObserverPc.holds, List.count_nil]
      omega
    all_goals rfl
  | ended => exact Effect.idle (by rw [hobs]; rfl) t

/-- A call in a callback: what it is about to enqueue the worker is about to
    enqueue. -/
theorem Effect.callback {s s' : Engine ι τ} {t t' : τ} {rest : List τ} {c c' : TimerCall τ}
    (heffect : Effect t (c'.enqueues t - c.enqueues t) s s')
    (hworker : s.worker = .callback t' rest c) (hsame : s'.worker = s.worker) :
    Effect t 0 s { s' with worker := .callback t' rest c' } := by
  have hlive : ({ s' with worker := .callback t' rest c' } : Engine ι τ).live t =
      s'.live t + (c'.enqueues t - c.enqueues t) := by
    unfold live entries
    simp only [hsame, hworker, TimeoutPc.rest, TimeoutPc.handles]
    omega
  have hcalling : s'.worker.calling t = 0 := by
    rw [hsame, hworker]
    rfl
  have hpending : ({ s' with worker := .callback t' rest c' } : Engine ι τ).pending t =
      s'.pending t := by
    unfold pending
    simp only [hsame, hworker]
    rfl
  obtain ⟨hrepeated, hroom, hstarts, hexpiries⟩ := heffect
  refine ⟨hrepeated, ?_, ?_, ?_⟩
  · rw [hlive]
    show _ ≤ (s'.state t).room - _
    omega
  · intro h
    have hle := hstarts h
    rw [hlive]
    show 0 + (_ + 0 + s'.times _) - _ ≤ s'.times _ - _
    omega
  · rw [hpending]
    exact hexpiries

/-- A step of the worker that does not call back. It may take a list, exchange
    the state of the timer it handles and enqueue the timer. -/
theorem Effect.handled {s s' : Engine ι τ} {t : τ} (hrepeated : s'.repeated = s.repeated)
    (htimers : s'.timers = s.timers) (hobserver : s'.observer = s.observer)
    (hevents : s'.events = s.events)
    (hroom : s'.new_timers.count t + s'.triggered_timers.flatten.count t +
        s'.worker.rest.count t + s'.worker.handles t - (s.new_timers.count t +
        s.triggered_timers.flatten.count t + s.worker.rest.count t + s.worker.handles t) ≤
      (s'.state t).room - (s.state t).room)
    (hcalling : s.repeated t = false → s'.new_timers.count t +
        s'.triggered_timers.flatten.count t + s'.worker.rest.count t + s'.worker.handles t +
        s'.worker.calling t ≤ s.new_timers.count t + s.triggered_timers.flatten.count t +
        s.worker.rest.count t + s.worker.handles t + s.worker.calling t)
    (hexpired : s'.triggered_timers.flatten.count t + s'.worker.rest.count t +
        s'.worker.expired t ≤ s.triggered_timers.flatten.count t + s.worker.rest.count t +
        s.worker.expired t) : Effect t 0 s s' := by
  have htimes : ∀ ev, s'.times ev = s.times ev := by
    intro ev
    unfold times
    rw [hevents]
  apply Effect.of_le hrepeated
  case hroom =>
    unfold live entries
    rw [htimers, hobserver]
    omega
  case hstarted => exact htimes _
  case hcalling =>
    intro h
    have hle := hcalling h
    unfold live entries
    rw [htimers, hobserver, htimes]
    omega
  case hexpired =>
    unfold pending
    rw [hobserver, htimes, htimes]
    omega

/-- The worker lets go of a timer, or takes the next one. -/
theorem Effect.released {s : Engine ι τ} {t : τ} {pc : TimeoutPc τ}
    (hlive : pc.rest.count t + pc.handles t ≤ s.worker.rest.count t + s.worker.handles t)
    (hcalling : pc.calling t = s.worker.calling t)
    (hpending : pc.rest.count t + pc.expired t ≤ s.worker.rest.count t + s.worker.expired t) :
    Effect t 0 s { s with worker := pc } := by
  apply Effect.handled
  case hroom =>
    show _ ≤ (s.state t).room - _
    simp only
    omega
  case hcalling =>
    intro _
    simp only
    omega
  case hexpired =>
    simp only
    omega
  all_goals rfl

/-- The worker exchanges the state of the timer it handles. -/
theorem Effect.exchanged {s : Engine ι τ} {t t' : τ} {pc : TimeoutPc τ} {desired : TimerState}
    (hroom : pc.rest.count t + pc.handles t - (s.worker.rest.count t + s.worker.handles t) ≤
      if t' = t then desired.room - (s.state t).room else 0)
    (hcalling : pc.handles t + pc.calling t ≤ s.worker.handles t + s.worker.calling t)
    (hrest : pc.rest = s.worker.rest) (hexpired : pc.expired t = s.worker.expired t) :
    Effect t 0 s { s with state := Function.update s.state t' desired, worker := pc } := by
  apply Effect.handled
  case hroom =>
    simp only [room_update]
    split at hroom
    · next h =>
      rw [if_pos h]
      omega
    · next h =>
      rw [if_neg h]
      omega
  case hcalling =>
    intro _
    simp only [hrest]
    omega
  case hexpired =>
    simp only [hrest, hexpired]
    omega
  all_goals rfl

theorem worker_effect (s : Engine ι τ) (ok : Bool) (t : τ) (hsound : s.worker.Sound s.repeated) :
    Effect t 0 s { (s.worker_step ok s.worker).2 with
      worker := (s.worker_step ok s.worker).1 } := by
  cases hworker : s.worker with
  | dequeue =>
    simp only [worker_step]
    split
    · apply Effect.released
      all_goals simp [hworker]
    · next tl rest hnext =>
      have hflat : (s.triggered_timers.flatten.count t : ℤ) =
          tl.count t + rest.flatten.count t := by
        rw [hnext, List.flatten_cons, List.count_append]
        rfl
      apply Effect.handled
      case hroom =>
        simp only [hworker, hflat, TimeoutPc.rest, TimeoutPc.handles, List.count_nil]
        omega
      case hcalling =>
        intro _
        simp only [hworker, hflat, TimeoutPc.rest, TimeoutPc.handles, TimeoutPc.calling,
          List.count_nil]
        omega
      case hexpired =>
        simp only [hworker, hflat, TimeoutPc.rest, TimeoutPc.expired, List.count_nil]
        omega
      all_goals rfl
  | lock l =>
    cases l with
    | nil =>
      apply Effect.released
      all_goals simp [hworker, worker_step]
    | cons t' rest =>
      have hcount : ((t' :: rest).count t : ℤ) = rest.count t + if t' = t then 1 else 0 := by
        rw [List.count_cons]
        simp only [beq_iff_eq]
        split
        · rfl
        · rfl
      -- the entry that is taken is handled, or it is gone
      cases ok with
      | true =>
        simp only [worker_step, if_true]
        apply Effect.released
        all_goals simp only [hworker, TimeoutPc.rest, TimeoutPc.handles, TimeoutPc.calling,
          TimeoutPc.expired, hcount]
        all_goals omega
      | false =>
        simp only [worker_step, Bool.false_eq_true, if_false]
        apply Effect.released
        all_goals simp only [hworker, TimeoutPc.rest, TimeoutPc.handles, TimeoutPc.calling,
          TimeoutPc.expired, hcount]
        all_goals omega
  | set_pending t' rest =>
    simp only [worker_step, set_state]
    by_cases hst : s.state t' = timer_state_started
    · have hroom : t' = t → timer_state_pending.room - (s.state t).room = 0 := by
        intro h
        rw [← h, hst]
        rfl
      simp only [hst, if_true]
      cases hrep : s.repeated t' with
      | true =>
        simp only [if_true]
        apply Effect.exchanged
        case hroom =>
          simp only [hworker, TimeoutPc.rest, TimeoutPc.handles]
          split
          · next h =>
            rw [hroom h]
            omega
          · omega
        all_goals simp [hworker]
      | false =>
        simp only [Bool.false_eq_true, if_false]
        apply Effect.exchanged
        case hroom =>
          simp only [hworker, TimeoutPc.rest, TimeoutPc.handles]
          split
          · next h =>
            rw [hroom h]
            omega
          · omega
        all_goals simp [hworker]
    · simp only [if_neg hst]
      apply Effect.released
      all_goals simp [hworker]
      all_goals split <;> simp
  | restart_check t' rest =>
    simp only [worker_step]
    split
    · apply Effect.released
      all_goals simp [hworker]
    · apply Effect.released
      all_goals simp [hworker]
      all_goals split <;> simp
  | restart_exchange t' rest =>
    simp only [worker_step, set_state]
    by_cases hst : s.state t' = timer_state_pending
    · have hroom : t' = t → timer_state_started.room - (s.state t).room = 0 := by
        intro h
        rw [← h, hst]
        rfl
      simp only [hst, if_true]
      apply Effect.exchanged
      case hroom =>
        simp only [hworker, TimeoutPc.rest, TimeoutPc.handles]
        split
        · next h =>
          rw [hroom h]
          omega
        · omega
      all_goals simp [hworker]
    · simp only [if_neg hst]
      apply Effect.released
      all_goals simp [hworker]
      all_goals split <;> simp
  | restart_enqueue t' rest =>
    -- the entry is in the queue before the callback
    have hrep : t' = t → s.repeated t = true := by
      intro h
      rw [hworker] at hsound
      rw [← h]
      exact hsound
    simp only [worker_step]
    apply Effect.handled
    case hroom =>
      simp only [hworker, count_concat, TimeoutPc.rest, TimeoutPc.handles]
      omega
    case hcalling =>
      intro h
      have hne : t' ≠ t := by
        intro heq
        rw [hrep heq] at h
        cases h
      simp only [hworker, count_concat, TimeoutPc.rest, TimeoutPc.handles, TimeoutPc.calling,
        if_neg hne]
      omega
    case hexpired =>
      simp only [hworker, TimeoutPc.rest, TimeoutPc.expired]
      omega
    all_goals rfl
  | set_finished t' rest =>
    simp only [worker_step, set_state]
    by_cases hst : s.state t' = timer_state_pending
    · have hroom : t' = t → timer_state_finished.room - (s.state t).room = -1 := by
        intro h
        rw [← h, hst]
        rfl
      simp only [hst, if_true]
      apply Effect.exchanged
      case hroom =>
        simp only [hworker, TimeoutPc.rest, TimeoutPc.handles]
        split
        · next h =>
          rw [hroom h]
          omega
        · omega
      all_goals simp [hworker]
    · simp only [if_neg hst]
      apply Effect.released
      all_goals simp [hworker]
      all_goals split <;> simp
  | call t' rest =>
    simp only [worker_step]
    refine ⟨rfl, ?_, fun _ => ?_, ?_⟩
    · simp only [live, entries, record, hworker, TimeoutPc.rest, TimeoutPc.handles,
        TimerCall.enqueues]
      omega
    · simp only [live, entries, hworker, TimeoutPc.rest, TimeoutPc.handles, TimeoutPc.calling,
        TimerCall.enqueues]
      show 0 + (_ + 0 + 0 + (s.record _).times _) - _ ≤ (s.record _).times _ - _
      rw [times_record, times_record]
      simp only [record, reduceCtorEq, if_false, TimerEvent.called.injEq]
      omega
    · simp only [pending, hworker, TimeoutPc.rest, TimeoutPc.expired]
      show _ + (s.record _).times _ - _ ≤ (s.record _).times _ - _
      rw [times_record, times_record]
      simp only [record, reduceCtorEq, if_false, TimerEvent.called.injEq]
      omega
  | callback t' rest c =>
    rw [hworker] at hsound
    have heffect := call_effect s c hsound
    have hidle : c = .idle ∨ s.worker_step ok (.callback t' rest c) =
        (.callback t' rest (s.call_step c).1, (s.call_step c).2) := by
      cases c with
      | idle => exact .inl rfl
      | _ => exact .inr rfl
    rcases hidle with rfl | hidle
    · simp only [worker_step]
      apply Effect.released
      all_goals simp [hworker, TimerCall.enqueues]
    · simp only [hidle]
      exact (heffect.effect t).callback hworker heffect.same.2.2.1

/-! ## Section 3: Runs -/

variable [DecidableEq ι]

/-- The threads of the user are about to enqueue `n` entries of `t`, and these
    have their room. -/
def Entered (s : Engine ι τ) (t : τ) (n : ℤ) : Prop :=
  Total (fun i => (s.calls i).enqueues t) n ∧ n + s.live t ≤ (s.state t).room ∧
    (s.repeated t = false →
      n + (s.live t + s.worker.calling t + s.times (.called t)) ≤ s.times (.started t))

structure FiringInv (s : Engine ι τ) : Prop where
  calls : ∀ i, (s.calls i).Sound
  worker : s.worker.Sound s.repeated
  entered : ∀ t, ∃ n, s.Entered t n
  expired : ∀ t, s.pending t + s.times (.called t) ≤ s.times (.expired t)

omit [DecidableEq ι] in
theorem new_firingInv (repeated : τ → Bool) (timeout_ns : τ → Nat) :
    FiringInv (new repeated timeout_ns : Engine ι τ) := by
  refine ⟨fun _ => trivial, trivial, fun t => ⟨0, ?_, ?_, fun _ => ?_⟩, fun t => ?_⟩
  · exact Total.start fun _ => rfl
  all_goals exact le_refl (0 : ℤ)

omit [DecidableEq ι] in
/-- What a step does to the entries keeps the account of them. -/
theorem FiringInv.effect {s s' : Engine ι τ} {d : τ → ℤ} (h : FiringInv s)
    (hcalls : ∀ i, (s'.calls i).Sound) (hworker : s'.worker.Sound s'.repeated)
    (htotal : ∀ t n, Total (fun i => (s.calls i).enqueues t) n →
      Total (fun i => (s'.calls i).enqueues t) (n + d t))
    (heffect : ∀ t, Effect t (d t) s s') : FiringInv s' := by
  refine ⟨hcalls, hworker, ?_, ?_⟩
  · intro t
    obtain ⟨n, hn, hroom, hstarts⟩ := h.entered t
    obtain ⟨hrepeated, hroom', hstarts', -⟩ := heffect t
    refine ⟨n + d t, htotal t n hn, by omega, ?_⟩
    intro hrep
    rw [hrepeated] at hrep
    have hle := hstarts hrep
    have hle' := hstarts' hrep
    omega
  · intro t
    have hle := h.expired t
    have hle' := (heffect t).expiries
    omega

omit [DecidableEq ι] in
/-- A step in which the threads of the user go on as they were. -/
theorem FiringInv.aside {s s' : Engine ι τ} (h : FiringInv s) (hcalls : s'.calls = s.calls)
    (hworker : s'.worker.Sound s'.repeated) (heffect : ∀ t, Effect t 0 s s') : FiringInv s' := by
  apply h.effect (d := fun _ => 0)
  · intro i
    rw [hcalls]
    exact h.calls i
  · exact hworker
  · intro t n hn
    rw [hcalls, add_zero]
    exact hn
  · exact heffect

omit [DecidableEq ι] [DecidableEq τ] in
theorem observer_same (s : Engine ι τ) (now later : Nat) (ok : Bool) (pc : ObserverPc τ) :
    (s.observer_step now later ok pc).2.calls = s.calls ∧
      (s.observer_step now later ok pc).2.worker = s.worker ∧
      (s.observer_step now later ok pc).2.repeated = s.repeated := by
  cases pc with
  | check =>
    simp only [observer_step]
    split <;> exact ⟨rfl, rfl, rfl⟩
  | dequeue tl =>
    simp only [observer_step]
    split <;> exact ⟨rfl, rfl, rfl⟩
  | drain tl now' left =>
    simp only [observer_step]
    split <;> exact ⟨rfl, rfl, rfl⟩
  | _ => exact ⟨rfl, rfl, rfl⟩

omit [DecidableEq ι] in
theorem set_state_same (s : Engine ι τ) (t : τ) (expected desired : TimerState) :
    (s.set_state t expected desired).2.calls = s.calls ∧
      (s.set_state t expected desired).2.repeated = s.repeated := by
  unfold set_state
  split <;> exact ⟨rfl, rfl⟩

omit [DecidableEq ι] in
/-- The worker leaves the threads of the user alone, and restarts no other
    timers than repeated ones. -/
theorem worker_same (s : Engine ι τ) (ok : Bool) (pc : TimeoutPc τ) (hsound : pc.Sound s.repeated) :
    (s.worker_step ok pc).2.calls = s.calls ∧ (s.worker_step ok pc).2.repeated = s.repeated ∧
      (s.worker_step ok pc).1.Sound s.repeated := by
  cases pc with
  | dequeue =>
    simp only [worker_step]
    split <;> simp [TimeoutPc.Sound]
  | lock l =>
    cases l with
    | nil => exact ⟨rfl, rfl, trivial⟩
    | cons t rest =>
      simp only [worker_step]
      split <;> simp [TimeoutPc.Sound]
  | set_pending t rest =>
    simp only [worker_step]
    refine ⟨(set_state_same s _ _ _).1, (set_state_same s _ _ _).2, ?_⟩
    split
    · split
      · next hrep => exact hrep
      · trivial
    · trivial
  | restart_check t rest =>
    refine ⟨rfl, rfl, ?_⟩
    simp only [worker_step]
    split
    · exact hsound
    · trivial
  | restart_exchange t rest =>
    simp only [worker_step]
    refine ⟨(set_state_same s _ _ _).1, (set_state_same s _ _ _).2, ?_⟩
    split
    · exact hsound
    · trivial
  | restart_enqueue t rest => exact ⟨rfl, rfl, trivial⟩
  | set_finished t rest =>
    simp only [worker_step]
    refine ⟨(set_state_same s _ _ _).1, (set_state_same s _ _ _).2, ?_⟩
    split <;> trivial
  | call t rest => exact ⟨rfl, rfl, trivial⟩
  | callback t rest c =>
    have hcall := call_effect s c hsound
    cases c with
    | idle => exact ⟨rfl, rfl, trivial⟩
    | _ => exact ⟨hcall.same.2.1, hcall.same.1, hcall.sound⟩

omit [DecidableEq ι] in
/-- A call that begins is about to enqueue nothing yet. -/
theorem worker_enter_inv {s s' : Engine ι τ} {c : TimerCall τ} (h : FiringInv s)
    (hc : c.Sound ∧ ∀ t, c.enqueues t = 0) (hs : s.worker_enter c = some s') : FiringInv s' := by
  unfold worker_enter at hs
  split at hs
  · next t' rest hworker =>
    cases hs
    apply h.aside
    case hcalls => rfl
    case hworker => exact hc.1
    case heffect =>
      intro t
      have hzero := hc.2 t
      apply Effect.released
      all_goals simp only [hworker, TimeoutPc.rest, TimeoutPc.handles, TimeoutPc.expired,
        TimeoutPc.calling, hzero]
      all_goals rfl
  · cases hs

/-- Thread `i` takes a step, and goes on at `c`. -/
theorem goto_inv {s s' : Engine ι τ} {i : ι} {c : TimerCall τ} (h : FiringInv s)
    (hc : c.Sound) (hcalls : s'.calls = s.calls) (hrepeated : s'.repeated = s.repeated)
    (hworker : s'.worker = s.worker)
    (heffect : ∀ t, Effect t (c.enqueues t - (s.calls i).enqueues t) s s') :
    FiringInv (s'.goto i c) := by
  apply h.effect
  case hcalls =>
    intro j
    show (Function.update s'.calls i c j).Sound
    rw [hcalls]
    by_cases hj : j = i
    · rw [hj, Function.update_self]
      exact hc
    · rw [Function.update_of_ne hj]
      exact h.calls j
  case hworker =>
    show s'.worker.Sound s'.repeated
    rw [hworker, hrepeated]
    exact h.worker
  case htotal =>
    intro t n hn
    have htotal := hn.move i c
    rw [sub_add] at htotal
    show Total (fun j => (Function.update s'.calls i c j).enqueues t) _
    rw [hcalls]
    rw [← sub_neg_eq_add, neg_sub]
    exact htotal
  case heffect =>
    intro t
    obtain ⟨hrep, hroom, hstarts, hexpiries⟩ := heffect t
    exact ⟨hrep, hroom, hstarts, hexpiries⟩

/-- A call that begins. -/
theorem begin_inv {s : Engine ι τ} {i : ι} {c : TimerCall τ} (h : FiringInv s)
    (hidle : s.calls i = .idle) (hc : c.Sound ∧ ∀ t, c.enqueues t = 0) :
    FiringInv (s.goto i c) := by
  apply goto_inv h hc.1 rfl rfl rfl
  intro t
  have hzero : c.enqueues t - (s.calls i).enqueues t = 0 := by
    rw [hc.2, hidle]
    rfl
  rw [hzero]
  apply Effect.moved
  all_goals rfl

theorem step_firingInv {s s' : Engine ι τ} {l : EngineLabel ι τ} (h : FiringInv s)
    (hs : s.step l = some s') : FiringInv s' := by
  cases l with
  | start_timer i t =>
    simp only [step] at hs
    split at hs
    · next hidle =>
      cases hs
      exact begin_inv h hidle ⟨trivial, fun _ => rfl⟩
    · cases hs
  | stop i t =>
    simp only [step] at hs
    split at hs
    · next hidle =>
      cases hs
      exact begin_inv h hidle ⟨trivial, fun _ => rfl⟩
    · cases hs
  | step i =>
    cases hs
    have hcall := call_effect s (s.calls i) (h.calls i)
    exact goto_inv h hcall.sound hcall.same.2.1 hcall.same.1 hcall.same.2.2.1 hcall.effect
  | observer now later ok =>
    -- the observer moves entries, and leaves the threads alone
    cases hs
    have hsame := observer_same s now later ok s.observer
    apply h.aside
    case hcalls => exact hsame.1
    case hworker =>
      show (s.observer_step now later ok s.observer).2.worker.Sound
        (s.observer_step now later ok s.observer).2.repeated
      rw [hsame.2.1, hsame.2.2]
      exact h.worker
    case heffect => exact observer_effect s now later ok
  | worker ok =>
    cases hs
    have hsame := worker_same s ok s.worker h.worker
    apply h.aside
    case hcalls => exact hsame.1
    case hworker =>
      show (s.worker_step ok s.worker).1.Sound (s.worker_step ok s.worker).2.repeated
      rw [hsame.2.1]
      exact hsame.2.2
    case heffect => exact fun t => worker_effect s ok t h.worker
  | worker_start t =>
    apply worker_enter_inv h _ hs
    exact ⟨trivial, fun _ => rfl⟩
  | worker_stop t =>
    apply worker_enter_inv h _ hs
    exact ⟨trivial, fun _ => rfl⟩
  | engine_stop =>
    cases hs
    apply h.aside
    case hcalls => rfl
    case hworker => exact h.worker
    case heffect =>
      intro t
      apply Effect.moved
      all_goals rfl

theorem reachable_firingInv {repeated : τ → Bool} {timeout_ns : τ → Nat} {s : Engine ι τ}
    (h : Reachable step AnyStep (new repeated timeout_ns) s) : FiringInv s :=
  h.invariant (new_firingInv repeated timeout_ns) fun _ _ _ hinv _ hs => step_firingInv hinv hs

omit [DecidableEq ι] in
/-- What the threads are about to enqueue is not negative. -/
theorem Entered.nonneg {s : Engine ι τ} {t : τ} {n : ℤ} (h : s.Entered t n) : 0 ≤ n := by
  obtain ⟨⟨is, -, hsum⟩, -⟩ := h
  rw [← hsum]
  apply Finset.sum_nonneg
  intro i _
  unfold TimerCall.enqueues
  split
  · split <;> decide
  · exact le_refl _

omit [DecidableEq τ] in
theorem handles_nonneg [DecidableEq τ] (pc : TimeoutPc τ) (t : τ) :
    0 ≤ pc.handles t ∧ 0 ≤ pc.calling t ∧ 0 ≤ pc.expired t := by
  cases pc with
  | callback t' rest c =>
    simp only [TimeoutPc.handles, TimeoutPc.calling, TimeoutPc.expired, TimerCall.enqueues]
    split
    · split <;> simp
    · simp
  | _ =>
    simp only [TimeoutPc.handles, TimeoutPc.calling, TimeoutPc.expired]
    omega

/-- **A timer fires once**: whoever starts and stops the timers, and where in
    their callbacks, a timer has at most one entry. A timer that is not
    repeated is called back at most once for each start of it, and any timer
    at most once for each entry that has expired. -/
theorem fires_once {repeated : τ → Bool} {timeout_ns : τ → Nat} {s : Engine ι τ}
    (h : Reachable step AnyStep (new repeated timeout_ns) s) (t : τ) :
    s.entries t ≤ 1 ∧
      (s.repeated t = false →
        s.events.count (.called t) ≤ s.events.count (.started t)) ∧
      s.events.count (.called t) ≤ s.events.count (.expired t) := by
  have hinv := reachable_firingInv h
  obtain ⟨n, hn⟩ := hinv.entered t
  have hnonneg := hn.nonneg
  obtain ⟨-, hroom, hstarts⟩ := hn
  have hworker := handles_nonneg s.worker t
  have hle := (room_nonneg (s.state t)).2
  refine ⟨?_, ?_, ?_⟩
  · unfold live at hroom
    omega
  · intro hrep
    have hle' := hstarts hrep
    unfold live entries times at hle'
    omega
  · have hexpired := hinv.expired t
    unfold pending times at hexpired
    omega

/-- Two threads start a timer, which is started once. It expires, is called
    back, and is started again in the callback. -/
def restarted_labels : List (EngineLabel Bool Nat) :=
  [EngineLabel.start_timer true 0, EngineLabel.start_timer false 0] ++
    [true, false, true, false, true, false, true].map EngineLabel.step ++
    [EngineLabel.observer 5 5 false, EngineLabel.observer 6 6 true,
      EngineLabel.observer 0 0 false, EngineLabel.observer 20 21 false,
      EngineLabel.observer 0 0 false, EngineLabel.observer 0 0 false] ++
    List.replicate 5 (EngineLabel.worker true) ++ [EngineLabel.worker_start 0] ++
    List.replicate 4 (EngineLabel.worker true)

theorem fires_once_restarted :
    ∃ s : Engine Bool Nat, s.events = [.started 0, .expired 0, .called 0, .started 0] ∧
      s.entries 0 = 1 ∧ s.entries 0 ≤ 1 ∧
      (s.repeated 0 = false → s.events.count (.called 0) ≤ s.events.count (.started 0)) ∧
      s.events.count (.called 0) ≤ s.events.count (.expired 0) := by
  have hexec : (exec step (new (fun _ => false) fun _ => 10) restarted_labels).map
      (fun s => (s.events, s.entries 0)) =
        some ([.started 0, .expired 0, .called 0, .started 0], 1) := by decide
  obtain ⟨s, hs, heq⟩ := Option.map_eq_some_iff.mp hexec
  have hreach := Reachable.of_exec hs (meets_anyStep step _ _)
  obtain ⟨hevents, hentries⟩ := Prod.mk.inj heq
  exact ⟨s, hevents, hentries, fires_once hreach 0⟩

end Engine

end Pump
