import Pump.Lts

/-! # The trackers of a poller

    `trackers_` holds the trackers that are installed. Only the thread of the
    poller changes it, by the records that `install_channel_tracker` and
    `uninstall_channel_tracker` queue in `tevents_`. A tracker is registered
    with the system before its record is queued, so that its events can be
    dispatched, and answered with an uninstall, in between.

    One step is one access to what the threads share. The queue of the records
    gives them in the order in which they were pushed, and which of the
    registered trackers are ready is up to the system. -/

namespace Pump

/-! ## Section 1: Model -/

/-- What a poller uses of a `channel_tracker`: whether it is tracking, whether
    its expected event is not `track_none`, and whether its poller is set. -/
structure TrackerData where
  tracking : Bool
  expects : Bool
  has_poller : Bool
  deriving DecidableEq, Repr

/-- `tracker_event`, with `tracker_append` or `tracker_remove`. -/
inductive TrackerEvent (κ : Type) where
  | append (t : κ)
  | remove (t : κ)
  deriving DecidableEq, Repr

inductive TrackerCall where
  | install_channel_tracker
  | uninstall_channel_tracker
  deriving DecidableEq, Repr

open TrackerCall

/-- Where a thread is in a call. -/
inductive TrackerPc (κ : Type) where
  | idle
  | started (call : TrackerCall) (t : κ)
  | track (t : κ)
  | untrack (t : κ)
  | create (call : TrackerCall) (t : κ)
  | set_poller (t : κ)
  | ctl (call : TrackerCall) (t : κ)
  | unset_poller (t : κ)
  | push (call : TrackerCall) (t : κ)
  | add
  deriving DecidableEq, Repr

/-- Where the thread of the poller is. -/
inductive TrackerWorker (κ : Type) where
  | exited
  | loop
  -- in `__handle_channel_events`, whose handlers may call
  | channel_events
  | tracker_events (cnt : Nat)
  | dispatch (evs : List κ)
  -- in `handle_io_event`, which may call
  | handler (evs : List κ)
  -- a call of pump_abort
  | aborted
  deriving DecidableEq, Repr

/-- A poller with its threads; `none` is its own. The last field is a record of
    the run: an uninstall of the tracker has queued its record, or has returned
    without one, since the tracker was last registered. -/
structure TrackerPoller (ι κ : Type) where
  is_started : Bool
  tracker : κ → TrackerData
  registered : κ → Bool
  tevents : List (TrackerEvent κ)
  tev_cnt : Nat
  trackers : κ → Bool
  pcs : Option ι → TrackerPc κ
  worker : TrackerWorker κ
  uninstalled : κ → Bool

inductive TrackerLabel (ι κ : Type) where
  | start
  | stop
  /-- A call by a thread; by the thread of the poller from a handler only. -/
  | call (th : Option ι) (call : TrackerCall) (t : κ)
  | set_expected_event (t : κ) (expects : Bool)
  | start_channel_tracker (t : κ)
  /-- The next step of a call; `ok` is whether the record can be created, and
      whether the system takes the tracker. -/
  | step (th : Option ι) (ok : Bool)
  /-- The next step of the thread of the poller; `evs` are the trackers that
      `epoll_wait` finds ready. -/
  | work (evs : List κ)
  deriving DecidableEq

namespace TrackerEvent

variable {κ : Type} [DecidableEq κ]

/-- One record in `__handle_channel_tracker_events`. -/
def handle (trackers : κ → Bool) : TrackerEvent κ → κ → Bool
  | append t => Function.update trackers t true
  | remove t => Function.update trackers t false

end TrackerEvent

namespace TrackerPoller

variable {ι κ : Type}

def construct : TrackerPoller ι κ :=
  { is_started := false
    tracker := fun _ => ⟨false, true, false⟩
    registered := fun _ => false
    tevents := []
    tev_cnt := 0
    trackers := fun _ => false
    pcs := fun _ => .idle
    worker := .exited
    uninstalled := fun _ => false }

variable [DecidableEq ι] [DecidableEq κ]

def goto (s : TrackerPoller ι κ) (th : Option ι) (pc : TrackerPc κ) : TrackerPoller ι κ :=
  { s with pcs := Function.update s.pcs th pc }

def set_tracker (s : TrackerPoller ι κ) (t : κ) (data : TrackerData) : TrackerPoller ι κ :=
  { s with tracker := Function.update s.tracker t data }

def note (s : TrackerPoller ι κ) (t : κ) (b : Bool) : TrackerPoller ι κ :=
  { s with uninstalled := Function.update s.uninstalled t b }

/-- A call returns without a record. -/
def give_up (s : TrackerPoller ι κ) (th : Option ι) : TrackerCall → κ → TrackerPoller ι κ
  | install_channel_tracker, _ => s.goto th .idle
  | uninstall_channel_tracker, t => (s.note t true).goto th .idle

def action (s : TrackerPoller ι κ) (th : Option ι) (ok : Bool) :
    TrackerPc κ → Option (TrackerPoller ι κ)
  | .idle => none
  | .started call t =>
    if s.is_started then
      match call with
      | install_channel_tracker => some (s.goto th (.track t))
      | uninstall_channel_tracker => some (s.goto th (.untrack t))
    else some (s.give_up th call t)
  | .track t =>
    if (s.tracker t).expects then
      if (s.tracker t).tracking then some (s.goto th .idle)
      else some ((s.set_tracker t { s.tracker t with tracking := true }).goto th
        (.create install_channel_tracker t))
    else some (s.goto th (.create install_channel_tracker t))
  | .untrack t =>
    some ((s.set_tracker t { s.tracker t with tracking := false }).goto th
      (.ctl uninstall_channel_tracker t))
  | .create call t =>
    if ok then
      match call with
      | install_channel_tracker => some (s.goto th (.set_poller t))
      | uninstall_channel_tracker => some (s.goto th (.push call t))
    else some (s.give_up th call t)
  | .set_poller t =>
    some ((s.set_tracker t { s.tracker t with has_poller := true }).goto th
      (.ctl install_channel_tracker t))
  | .ctl install_channel_tracker t =>
    if ok ∧ s.registered t = false then
      some ((({ s with registered := Function.update s.registered t true } :
        TrackerPoller ι κ).note t false).goto th (.push install_channel_tracker t))
    else some (s.goto th (.unset_poller t))
  | .ctl uninstall_channel_tracker t =>
    some (({ s with registered := Function.update s.registered t false } :
      TrackerPoller ι κ).goto th (.create uninstall_channel_tracker t))
  | .unset_poller t =>
    some ((s.set_tracker t { s.tracker t with has_poller := false }).goto th .idle)
  | .push install_channel_tracker t =>
    some (({ s with tevents := s.tevents ++ [.append t] } : TrackerPoller ι κ).goto th .add)
  | .push uninstall_channel_tracker t =>
    some ((({ s with tevents := s.tevents ++ [.remove t] } : TrackerPoller ι κ).note t true).goto th
      .add)
  | .add => some (({ s with tev_cnt := s.tev_cnt + 1 } : TrackerPoller ι κ).goto th .idle)

/-- The loop of the thread of the poller. -/
def work (s : TrackerPoller ι κ) (evs : List κ) : TrackerWorker κ → Option (TrackerPoller ι κ)
  | .exited => none
  | .loop => some { s with worker := if s.is_started then .channel_events else .exited }
  | .channel_events =>
    if s.pcs none = .idle then some { s with tev_cnt := 0, worker := .tracker_events s.tev_cnt }
    else none
  | .tracker_events 0 =>
    if ∀ t ∈ evs, s.registered t = true then some { s with worker := .dispatch evs } else none
  | .tracker_events (cnt + 1) =>
    match s.tevents with
    | [] => some { s with worker := .aborted }
    | ev :: rest =>
      some { s with
        tevents := rest
        trackers := ev.handle s.trackers
        worker := .tracker_events cnt }
  | .dispatch [] => some { s with worker := .loop }
  | .dispatch (t :: evs) =>
    if (s.tracker t).tracking then
      some { s.set_tracker t { s.tracker t with tracking := false } with worker := .handler evs }
    else some { s with worker := .dispatch evs }
  | .handler evs => if s.pcs none = .idle then some { s with worker := .dispatch evs } else none
  | .aborted => none

/-- A thread may call: the thread of the poller while it is in a handler. -/
def may_call (s : TrackerPoller ι κ) : Option ι → Bool
  | some _ => true
  | none => match s.worker with
    | .channel_events | .handler _ => true
    | _ => false

def step (s : TrackerPoller ι κ) : TrackerLabel ι κ → Option (TrackerPoller ι κ)
  | .start =>
    match s.is_started, s.worker with
    | false, .exited => some { s with is_started := true, worker := .loop }
    | _, _ => none
  | .stop => some { s with is_started := false }
  | .call th call t =>
    if s.pcs th = .idle ∧ s.may_call th then some (s.goto th (.started call t)) else none
  | .set_expected_event t expects => some (s.set_tracker t { s.tracker t with expects := expects })
  | .start_channel_tracker t => some (s.set_tracker t { s.tracker t with tracking := true })
  | .step th ok => s.action th ok (s.pcs th)
  | .work evs => s.work evs s.worker

/-! ## Section 2: What the queued records come to -/

/-- What `trackers_` is once all queued records have been handled. -/
def settled (s : TrackerPoller ι κ) : κ → Bool :=
  s.tevents.foldl TrackerEvent.handle s.trackers

omit [DecidableEq ι] in
theorem settled_push (s : TrackerPoller ι κ) (ev : TrackerEvent κ) :
    ({ s with tevents := s.tevents ++ [ev] } : TrackerPoller ι κ).settled = ev.handle s.settled := by
  unfold settled
  rw [List.foldl_append]
  rfl

omit [DecidableEq ι] in
/-- Handling the first of them changes nothing about that. -/
theorem settled_pop {s : TrackerPoller ι κ} {ev : TrackerEvent κ} {rest : List (TrackerEvent κ)}
    (h : s.tevents = ev :: rest) (w : TrackerWorker κ) :
    ({ s with tevents := rest, trackers := ev.handle s.trackers, worker := w } :
      TrackerPoller ι κ).settled = s.settled := by
  unfold settled
  rw [h]
  rfl

/-- A thread has registered the tracker and has not queued its record. -/
def Installing (s : TrackerPoller ι κ) (t : κ) : Prop :=
  ∃ th, s.pcs th = .push install_channel_tracker t

/-- The tracker will not be in `trackers_`. -/
def Gone (s : TrackerPoller ι κ) (t : κ) : Prop := ¬ s.Installing t ∧ s.settled t = false

/-- The invariant: an uninstalled tracker is gone. -/
def Forgets (s : TrackerPoller ι κ) : Prop := ∀ t, s.uninstalled t = true → s.Gone t

/-- What a step of a call does to the records and to the record of the run. -/
inductive Acts (s : TrackerPoller ι κ) (th : Option ι) (ok : Bool) : TrackerPoller ι κ → Prop
  | other {s' : TrackerPoller ι κ} {pc : TrackerPc κ}
      (hpc : ∀ t, pc ≠ .push install_channel_tracker t)
      (hpcs : s'.pcs = Function.update s.pcs th pc) (hsettled : s'.settled = s.settled)
      (hun : s'.uninstalled = s.uninstalled) : Acts s th ok s'
  | registers {s' : TrackerPoller ι κ} {t : κ}
      (hpcs : s'.pcs = Function.update s.pcs th (.push install_channel_tracker t))
      (hsettled : s'.settled = s.settled)
      (hun : s'.uninstalled = Function.update s.uninstalled t false) : Acts s th ok s'
  | appends {s' : TrackerPoller ι κ} {t : κ} (hat : s.pcs th = .push install_channel_tracker t)
      (hpcs : s'.pcs = Function.update s.pcs th .add)
      (hsettled : s'.settled = Function.update s.settled t true)
      (hun : s'.uninstalled = s.uninstalled) : Acts s th ok s'
  | removes {s' : TrackerPoller ι κ} {t : κ} (hat : s.pcs th = .push uninstall_channel_tracker t)
      (hpcs : s'.pcs = Function.update s.pcs th .add)
      (hsettled : s'.settled = Function.update s.settled t false)
      (hun : s'.uninstalled = Function.update s.uninstalled t true) : Acts s th ok s'
  | gives_up {s' : TrackerPoller ι κ} {t : κ}
      (hat : (s.pcs th = .started uninstall_channel_tracker t ∧ s.is_started = false) ∨
        (s.pcs th = .create uninstall_channel_tracker t ∧ ok = false))
      (hpcs : s'.pcs = Function.update s.pcs th .idle) (hsettled : s'.settled = s.settled)
      (hun : s'.uninstalled = Function.update s.uninstalled t true) : Acts s th ok s'

theorem action_acts {s s' : TrackerPoller ι κ} {th : Option ι} {ok : Bool}
    (h : s.action th ok (s.pcs th) = some s') : s.Acts th ok s' := by
  rcases hp : s.pcs th with _ | ⟨call, t⟩ | t | t | ⟨call, t⟩ | t | ⟨call, t⟩ | t | ⟨call, t⟩ | _
  all_goals rw [hp] at h
  · cases h
  · -- the look at `started_`
    simp only [action] at h
    by_cases hs : s.is_started = true
    · rw [if_pos hs] at h
      rcases call with _ | _
      all_goals
        cases h
        exact .other (by simp) rfl rfl rfl
    · rw [if_neg hs] at h
      rcases call with _ | _
      · cases h
        exact .other (by simp) rfl rfl rfl
      · cases h
        exact .gives_up (Or.inl ⟨hp, Bool.not_eq_true _ ▸ hs⟩) rfl rfl rfl
  · simp only [action] at h
    split at h
    · split at h
      all_goals
        cases h
        exact .other (by simp) rfl rfl rfl
    · cases h
      exact .other (by simp) rfl rfl rfl
  · cases h
    exact .other (by simp) rfl rfl rfl
  · simp only [action] at h
    by_cases hok : ok = true
    · rw [if_pos hok] at h
      rcases call with _ | _
      all_goals
        cases h
        exact .other (by simp) rfl rfl rfl
    · rw [if_neg hok] at h
      rcases call with _ | _
      · cases h
        exact .other (by simp) rfl rfl rfl
      · cases h
        exact .gives_up (Or.inr ⟨hp, Bool.not_eq_true _ ▸ hok⟩) rfl rfl rfl
  · cases h
    exact .other (by simp) rfl rfl rfl
  · rcases call with _ | _
    · simp only [action] at h
      split at h
      · cases h
        exact .registers rfl rfl rfl
      · cases h
        exact .other (by simp) rfl rfl rfl
    · cases h
      exact .other (by simp) rfl rfl rfl
  · cases h
    exact .other (by simp) rfl rfl rfl
  · rcases call with _ | _
    · cases h
      exact .appends hp rfl (s.settled_push _) rfl
    · cases h
      exact .removes hp rfl (s.settled_push _) rfl
  · cases h
    exact .other (by simp) rfl rfl rfl

/-! ## Section 3: Uninstalled trackers -/

/-- The condition: an uninstall does not queue its record while an install has
    registered the tracker and not queued its own, and it does not return
    without a record unless the tracker is gone anyway. -/
def Careful (s : TrackerPoller ι κ) : TrackerLabel ι κ → Prop
  | .step th ok => match s.pcs th with
    | .push uninstall_channel_tracker t => ¬ s.Installing t
    | .started uninstall_channel_tracker t => s.is_started = true ∨ s.Gone t
    | .create uninstall_channel_tracker t => ok = true ∨ s.Gone t
    | _ => True
  | _ => True

instance [Fintype ι] (s : TrackerPoller ι κ) (t : κ) : Decidable (s.Installing t) :=
  inferInstanceAs (Decidable (∃ _, _))

instance [Fintype ι] (s : TrackerPoller ι κ) (t : κ) : Decidable (s.Gone t) :=
  inferInstanceAs (Decidable (_ ∧ _))

instance [Fintype ι] (s : TrackerPoller ι κ) :
    (l : TrackerLabel ι κ) → Decidable (s.Careful l)
  | .step th ok => by
    unfold Careful
    dsimp only
    split <;> infer_instance
  | .start | .stop | .call _ _ _ | .set_expected_event _ _ | .start_channel_tracker _ | .work _ =>
    isTrue trivial

omit [DecidableEq ι] in
/-- Steps that leave the calls and the records alone. -/
theorem Forgets.of_eq {s s' : TrackerPoller ι κ} (h : s.Forgets) (hpcs : s'.pcs = s.pcs)
    (hsettled : s'.settled = s.settled) (hun : s'.uninstalled = s.uninstalled) : s'.Forgets := by
  intro t ht
  unfold Gone Installing
  rw [hpcs, hsettled]
  rw [hun] at ht
  exact h t ht

omit [DecidableEq κ] in
/-- A thread that does not come to register a tracker installs none. -/
theorem installing_of_update {s s' : TrackerPoller ι κ} {th : Option ι} {pc : TrackerPc κ} {t : κ}
    (hpcs : s'.pcs = Function.update s.pcs th pc) (hpc : pc ≠ .push install_channel_tracker t)
    (h : s'.Installing t) : s.Installing t := by
  obtain ⟨th', hth'⟩ := h
  rw [hpcs] at hth'
  by_cases heq : th' = th
  · rw [heq, Function.update_self] at hth'
    exact absurd hth' hpc
  · rw [Function.update_of_ne heq] at hth'
    exact ⟨th', hth'⟩

theorem forgets_acts {s s' : TrackerPoller ι κ} {th : Option ι} {ok : Bool} (h : s.Forgets)
    (hok : s.Careful (.step th ok)) (ha : s.Acts th ok s') : s'.Forgets := by
  intro t ht
  cases ha with
  | other hpc hpcs hsettled hun =>
    rw [hun] at ht
    obtain ⟨hinst, hset⟩ := h t ht
    refine ⟨fun hi => hinst (installing_of_update hpcs (hpc t) hi), ?_⟩
    rw [hsettled]
    exact hset
  | @registers t' hpcs hsettled hun =>
    -- the tracker that is registered counts as not uninstalled from here on
    rw [hun] at ht
    have hne : t ≠ t' := by
      intro heq
      rw [heq, Function.update_self] at ht
      cases ht
    rw [Function.update_of_ne hne] at ht
    obtain ⟨hinst, hset⟩ := h t ht
    refine ⟨fun hi => hinst (installing_of_update hpcs ?_ hi), ?_⟩
    · intro heq
      cases heq
      exact hne rfl
    · rw [hsettled]
      exact hset
  | @appends t' hat hpcs hsettled hun =>
    rw [hun] at ht
    obtain ⟨hinst, hset⟩ := h t ht
    refine ⟨fun hi => hinst (installing_of_update hpcs nofun hi), ?_⟩
    -- the record is that of another tracker, since no install of `t` is under way
    have hne : t ≠ t' := by
      intro heq
      rw [heq] at hinst
      exact hinst ⟨th, hat⟩
    rw [hsettled, Function.update_of_ne hne]
    exact hset
  | @removes t' hat hpcs hsettled hun =>
    simp only [Careful, hat] at hok
    rw [hun] at ht
    by_cases heq : t = t'
    · subst heq
      refine ⟨fun hi => hok (installing_of_update hpcs nofun hi), ?_⟩
      rw [hsettled, Function.update_self]
    · rw [Function.update_of_ne heq] at ht
      obtain ⟨hinst, hset⟩ := h t ht
      refine ⟨fun hi => hinst (installing_of_update hpcs nofun hi), ?_⟩
      rw [hsettled, Function.update_of_ne heq]
      exact hset
  | @gives_up t' hat hpcs hsettled hun =>
    have hgone : s.Gone t' := by
      rcases hat with ⟨hat, hstarted⟩ | ⟨hat, hnot⟩
      · simp only [Careful, hat] at hok
        rcases hok with hs | hgone
        · rw [hstarted] at hs
          cases hs
        · exact hgone
      · simp only [Careful, hat] at hok
        rcases hok with hs | hgone
        · rw [hnot] at hs
          cases hs
        · exact hgone
    have hbefore : s.Gone t := by
      rw [hun] at ht
      by_cases heq : t = t'
      · rw [heq]
        exact hgone
      · rw [Function.update_of_ne heq] at ht
        exact h t ht
    refine ⟨fun hi => hbefore.1 (installing_of_update hpcs nofun hi), ?_⟩
    rw [hsettled]
    exact hbefore.2

omit [DecidableEq ι] in
/-- The thread of the poller handles the records in their order. -/
theorem forgets_work {s s' : TrackerPoller ι κ} {evs : List κ} (h : s.Forgets)
    (hs : s.work evs s.worker = some s') : s'.Forgets := by
  rcases hw : s.worker with _ | _ | _ | (_ | cnt) | (_ | ⟨t, evs'⟩) | evs' | _
  all_goals
    rw [hw] at hs
    simp only [work] at hs
  · cases hs
  · cases hs
    exact h.of_eq rfl rfl rfl
  · split at hs
    · cases hs
      exact h.of_eq rfl rfl rfl
    · cases hs
  · split at hs
    · cases hs
      exact h.of_eq rfl rfl rfl
    · cases hs
  · rcases hq : s.tevents with _ | ⟨ev, rest⟩
    · rw [hq] at hs
      cases hs
      refine h.of_eq rfl ?_ rfl
      unfold settled
      rw [hq]
    · rw [hq] at hs
      cases hs
      exact h.of_eq rfl (settled_pop hq _) rfl
  · cases hs
    exact h.of_eq rfl rfl rfl
  · split at hs
    all_goals
      cases hs
      exact h.of_eq rfl rfl rfl
  · split at hs
    · cases hs
      exact h.of_eq rfl rfl rfl
    · cases hs
  · cases hs

theorem forgets_step {s s' : TrackerPoller ι κ} {l : TrackerLabel ι κ} (h : s.Forgets)
    (hok : s.Careful l) (hs : s.step l = some s') : s'.Forgets := by
  rcases l with _ | _ | ⟨th, call, t⟩ | ⟨t, expects⟩ | t | ⟨th, ok⟩ | evs
  · simp only [step] at hs
    split at hs
    · cases hs
      exact h.of_eq rfl rfl rfl
    · cases hs
  · cases hs
    exact h.of_eq rfl rfl rfl
  · simp only [step] at hs
    split at hs
    · cases hs
      -- a new call installs nothing yet
      have hpcs : (s.goto th (.started call t)).pcs = Function.update s.pcs th (.started call t) := rfl
      intro t' ht'
      obtain ⟨hinst, hset⟩ := h t' ht'
      exact ⟨fun hi => hinst (installing_of_update hpcs nofun hi), hset⟩
    · cases hs
  · cases hs
    exact h.of_eq rfl rfl rfl
  · cases hs
    exact h.of_eq rfl rfl rfl
  · exact forgets_acts h hok (action_acts hs)
  · exact forgets_work h hs

/-- **Uninstalled trackers are forgotten.** In every careful run, with any
    threads, once the tracker has been uninstalled after its registration and
    all records have been handled, `trackers_` does not have it. -/
theorem uninstalled_forgotten {s : TrackerPoller ι κ} {t : κ}
    (h : Reachable step Careful construct s) (hun : s.uninstalled t = true)
    (hdone : s.tevents = []) : s.trackers t = false := by
  have hforgets := h.invariant (I := Forgets) (fun _ ht => by cases ht)
    fun s l s' hi hok hs => forgets_step hi hok hs
  have hsettled := (hforgets t hun).2
  unfold settled at hsettled
  rw [hdone] at hsettled
  exact hsettled

/-- A dialer's thread installs a tracker. Its event is dispatched after some of
    the steps, and the handler uninstalls the tracker. -/
def dialing (before after : Nat) : List (TrackerLabel (Fin 1) (Fin 1)) :=
  [TrackerLabel.start, .work [], .work [], .call (some 0) install_channel_tracker 0] ++
    List.replicate before (TrackerLabel.step (some 0) true) ++
    [TrackerLabel.work [0], .work [], .call none uninstall_channel_tracker 0] ++
    List.replicate 6 (TrackerLabel.step none true) ++
    List.replicate after (TrackerLabel.step (some 0) true) ++
    List.replicate 6 (TrackerLabel.work [])

theorem uninstalled_forgotten_dialed :
    ∃ s : TrackerPoller (Fin 1) (Fin 1), exec step construct (dialing 7 0) = some s ∧
      s.uninstalled 0 = true ∧ s.trackers 0 = false := by
  have hexec : (exec step construct (dialing 7 0)).map (fun s => (s.uninstalled 0, s.tevents)) =
      some (true, []) := by
    decide
  obtain ⟨s, hs, hend⟩ := Option.map_eq_some_iff.mp hexec
  obtain ⟨hun, hdone⟩ := Prod.mk.inj hend
  have h : Reachable step Careful construct s := Reachable.of_exec hs (by decide)
  exact ⟨s, hs, hun, uninstalled_forgotten h hun hdone⟩

/-- The event comes before the record of the install is queued: it is queued,
    and handled, behind that of the uninstall. -/
theorem not_uninstalled_forgotten :
    ¬ ∀ (ls : List (TrackerLabel (Fin 1) (Fin 1))) (s : TrackerPoller (Fin 1) (Fin 1)),
      exec step construct ls = some s → s.uninstalled 0 = true → s.tevents = [] →
        s.trackers 0 = false := by
  intro hall
  have hexec : (exec step construct (dialing 5 2)).map
      (fun s => (s.uninstalled 0, s.tevents, s.trackers 0)) = some (true, [], true) := by
    decide
  obtain ⟨s, hs, hend⟩ := Option.map_eq_some_iff.mp hexec
  simp only [Prod.mk.injEq] at hend
  obtain ⟨hun, hdone, htrackers⟩ := hend
  have hforgotten := hall _ s hs hun hdone
  rw [htrackers] at hforgotten
  cases hforgotten

end TrackerPoller

end Pump
