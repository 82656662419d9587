import Pump.Poll.Trackers

/-! # The trackers of a batch are alive

    `epoll_wait` returns plain pointers to trackers, and the thread of the
    poller follows them one after the other, while other threads and the
    handlers of the batch install and uninstall. A tracker lives as long as
    `trackers_`, a queued record or a call has a `channel_tracker_sptr` of it. -/

namespace Pump

open TrackerCall

variable {ι κ : Type}

/-! ## Section 1: Who keeps a tracker -/

namespace TrackerPc

/-- The tracker of an uninstall. -/
@[simp] def uninstalls : TrackerPc κ → Option κ
  | .started uninstall_channel_tracker t | .untrack t | .ctl uninstall_channel_tracker t
  | .create uninstall_channel_tracker t | .push uninstall_channel_tracker t => some t
  | _ => none

/-- The tracker of an install that has not registered it. -/
@[simp] def begins : TrackerPc κ → Option κ
  | .started install_channel_tracker t | .track t | .create install_channel_tracker t
  | .set_poller t | .ctl install_channel_tracker t | .unset_poller t => some t
  | _ => none

/-- The tracker of an uninstall that has taken it from the system. -/
@[simp] def removes : TrackerPc κ → Option κ
  | .create uninstall_channel_tracker t | .push uninstall_channel_tracker t => some t
  | _ => none

theorem uninstalls_of_removes {pc : TrackerPc κ} {t : κ} (h : pc.removes = some t) :
    pc.uninstalls = some t := by
  rcases pc with _ | ⟨_ | _, _⟩ | _ | _ | ⟨_ | _, _⟩ | _ | ⟨_ | _, _⟩ | _ | ⟨_ | _, _⟩ | _
  all_goals simp at h
  all_goals simp [h]

theorem not_uninstalls_of_begins {pc : TrackerPc κ} {t : κ} (h : pc.begins = some t) :
    pc.uninstalls = none := by
  rcases pc with _ | ⟨_ | _, _⟩ | _ | _ | ⟨_ | _, _⟩ | _ | ⟨_ | _, _⟩ | _ | ⟨_ | _, _⟩ | _
  all_goals simp at h
  all_goals simp

/-- A step of a call on its way that neither registers nor queues. -/
structure Follows (pc pc' : TrackerPc κ) : Prop where
  begins : ∀ t, pc'.begins = some t → pc.begins = some t
  uninstalls : ∀ t, pc'.uninstalls = some t → pc.uninstalls = some t
  removes : ∀ t, pc'.removes = some t → pc.removes = some t
  not_push : ∀ t, pc ≠ .push install_channel_tracker t

end TrackerPc

namespace TrackerPoller

variable [DecidableEq ι] [DecidableEq κ]

/-- The poller or an install has the tracker. -/
def Kept (s : TrackerPoller ι κ) (t : κ) : Prop :=
  s.trackers t = true ∨ .append t ∈ s.tevents ∨ s.Installing t

/-- The trackers that the thread of the poller still goes through. -/
def batch (s : TrackerPoller ι κ) : List κ :=
  match s.worker with
  | .dispatch evs | .handler evs => evs
  | _ => []

/-- No call has come to the tracker. -/
def Fresh (s : TrackerPoller ι κ) (t : κ) : Prop :=
  s.registered t = false ∧ s.uninstalled t = false ∧
    ∀ th, (s.pcs th).begins ≠ some t ∧ (s.pcs th).uninstalls ≠ some t

/-- An install has come through. -/
def Known (s : TrackerPoller ι κ) (t : κ) : Prop :=
  s.registered t = true ∨ s.uninstalled t = true ∨ ∃ th, (s.pcs th).uninstalls = some t

/-- The condition, which the callers keep: a tracker is new when it is
    installed, and only what was installed is uninstalled. -/
def Proper (s : TrackerPoller ι κ) : TrackerLabel ι κ → Prop
  | .call _ install_channel_tracker t => s.Fresh t
  | .call _ uninstall_channel_tracker t => s.Known t
  | _ => True

instance [Fintype ι] (s : TrackerPoller ι κ) (l : TrackerLabel ι κ) : Decidable (s.Proper l) := by
  cases l with
  | call th call t =>
    cases call with
    | install_channel_tracker =>
      exact inferInstanceAs (Decidable (s.registered t = false ∧ s.uninstalled t = false ∧
        ∀ th, (s.pcs th).begins ≠ some t ∧ (s.pcs th).uninstalls ≠ some t))
    | uninstall_channel_tracker =>
      exact inferInstanceAs (Decidable (s.registered t = true ∨ s.uninstalled t = true ∨
        ∃ th, (s.pcs th).uninstalls = some t))
  | _ => exact isTrue trivial

/-- **The invariant.** -/
structure KeptInv (s : TrackerPoller ι κ) : Prop where
  /-- An install that is not through has the tracker for itself. -/
  begins : ∀ th t, (s.pcs th).begins = some t → s.registered t = false ∧ s.uninstalled t = false ∧
    ∀ th', th' ≠ th → (s.pcs th').begins ≠ some t ∧ (s.pcs th').uninstalls ≠ some t
  removed : ∀ t, .remove t ∈ s.tevents → s.uninstalled t = true
  registered : ∀ t, s.registered t = true → s.Kept t ∧ .remove t ∉ s.tevents ∧
    ∀ th, (s.pcs th).removes ≠ some t
  batch : ∀ t ∈ s.batch, s.Kept t

theorem keptInv_construct : KeptInv (construct : TrackerPoller ι κ) := by
  constructor
  case begins => exact fun th t hpc => by cases hpc
  case removed => exact fun t ht => by cases ht
  case registered => exact fun t ht => by cases ht
  case batch => exact fun t ht => by cases ht

/-! ## Section 2: The steps of a call -/

/-- What a step of a call does to what the system and the queue have. -/
inductive Goes (s : TrackerPoller ι κ) (th : Option ι) : TrackerPoller ι κ → Prop
  | on {s' : TrackerPoller ι κ} {old pc : TrackerPc κ} (hat : s.pcs th = old)
      (hfollows : old.Follows pc) (hpcs : s'.pcs = Function.update s.pcs th pc)
      (hregistered : s'.registered = s.registered) (htevents : s'.tevents = s.tevents)
      (hun : s'.uninstalled = s.uninstalled) : Goes s th s'
  | registers {s' : TrackerPoller ι κ} {t : κ} (hat : s.pcs th = .ctl install_channel_tracker t)
      (hpcs : s'.pcs = Function.update s.pcs th (.push install_channel_tracker t))
      (hregistered : s'.registered = Function.update s.registered t true)
      (htevents : s'.tevents = s.tevents)
      (hun : s'.uninstalled = Function.update s.uninstalled t false) : Goes s th s'
  | unregisters {s' : TrackerPoller ι κ} {t : κ} (hat : s.pcs th = .ctl uninstall_channel_tracker t)
      (hpcs : s'.pcs = Function.update s.pcs th (.create uninstall_channel_tracker t))
      (hregistered : s'.registered = Function.update s.registered t false)
      (htevents : s'.tevents = s.tevents) (hun : s'.uninstalled = s.uninstalled) : Goes s th s'
  | appends {s' : TrackerPoller ι κ} {t : κ} (hat : s.pcs th = .push install_channel_tracker t)
      (hpcs : s'.pcs = Function.update s.pcs th .add) (hregistered : s'.registered = s.registered)
      (htevents : s'.tevents = s.tevents ++ [.append t]) (hun : s'.uninstalled = s.uninstalled) :
      Goes s th s'
  | removes {s' : TrackerPoller ι κ} {t : κ} (hat : s.pcs th = .push uninstall_channel_tracker t)
      (hpcs : s'.pcs = Function.update s.pcs th .add) (hregistered : s'.registered = s.registered)
      (htevents : s'.tevents = s.tevents ++ [.remove t])
      (hun : s'.uninstalled = Function.update s.uninstalled t true) : Goes s th s'
  | gives_up {s' : TrackerPoller ι κ} {t : κ} (hat : (s.pcs th).uninstalls = some t)
      (hpcs : s'.pcs = Function.update s.pcs th .idle) (hregistered : s'.registered = s.registered)
      (htevents : s'.tevents = s.tevents)
      (hun : s'.uninstalled = Function.update s.uninstalled t true) : Goes s th s'

theorem action_goes {s s' : TrackerPoller ι κ} {th : Option ι} {ok : Bool}
    (h : s.action th ok (s.pcs th) = some s') :
    s.Goes th s' ∧ s'.trackers = s.trackers ∧ s'.worker = s.worker := by
  rcases hp : s.pcs th with _ | ⟨call, t⟩ | t | t | ⟨call, t⟩ | t | ⟨call, t⟩ | t | ⟨call, t⟩ | _
  all_goals
    rw [hp] at h
  · cases h
  · -- the look at `started_`
    simp only [action] at h
    by_cases hs : s.is_started = true
    · rw [if_pos hs] at h
      rcases call with _ | _
      all_goals
        cases h
        exact ⟨.on hp (by constructor <;> simp) rfl rfl rfl rfl, rfl, rfl⟩
    · rw [if_neg hs] at h
      rcases call with _ | _
      · cases h
        exact ⟨.on hp (by constructor <;> simp) rfl rfl rfl rfl, rfl, rfl⟩
      · cases h
        exact ⟨.gives_up (by rw [hp]; rfl) rfl rfl rfl rfl, rfl, rfl⟩
  · simp only [action] at h
    split at h
    · split at h
      all_goals
        cases h
        exact ⟨.on hp (by constructor <;> simp) rfl rfl rfl rfl, rfl, rfl⟩
    · cases h
      exact ⟨.on hp (by constructor <;> simp) rfl rfl rfl rfl, rfl, rfl⟩
  · cases h
    exact ⟨.on hp (by constructor <;> simp) rfl rfl rfl rfl, rfl, rfl⟩
  · simp only [action] at h
    by_cases hok : ok = true
    · rw [if_pos hok] at h
      rcases call with _ | _
      all_goals
        cases h
        exact ⟨.on hp (by constructor <;> simp) rfl rfl rfl rfl, rfl, rfl⟩
    · rw [if_neg hok] at h
      rcases call with _ | _
      · cases h
        exact ⟨.on hp (by constructor <;> simp) rfl rfl rfl rfl, rfl, rfl⟩
      · cases h
        exact ⟨.gives_up (by rw [hp]; rfl) rfl rfl rfl rfl, rfl, rfl⟩
  · cases h
    exact ⟨.on hp (by constructor <;> simp) rfl rfl rfl rfl, rfl, rfl⟩
  · rcases call with _ | _
    · simp only [action] at h
      split at h
      · cases h
        exact ⟨.registers hp rfl rfl rfl rfl, rfl, rfl⟩
      · cases h
        exact ⟨.on hp (by constructor <;> simp) rfl rfl rfl rfl, rfl, rfl⟩
    · cases h
      exact ⟨.unregisters hp rfl rfl rfl rfl, rfl, rfl⟩
  · cases h
    exact ⟨.on hp (by constructor <;> simp) rfl rfl rfl rfl, rfl, rfl⟩
  · rcases call with _ | _
    · cases h
      exact ⟨.appends hp rfl rfl rfl rfl, rfl, rfl⟩
    · cases h
      exact ⟨.removes hp rfl rfl rfl rfl, rfl, rfl⟩
  · cases h
    exact ⟨.on hp (by constructor <;> simp) rfl rfl rfl rfl, rfl, rfl⟩

variable {s s' : TrackerPoller ι κ} {th : Option ι} {pc : TrackerPc κ}

omit [DecidableEq κ] in
/-- The calls of the other threads stay where they are. -/
theorem begins_of_update (h : s.KeptInv) (hpcs : s'.pcs = Function.update s.pcs th pc)
    (hbegins : ∀ t, pc.begins = some t → (s.pcs th).begins = some t)
    (huninstalls : ∀ t, pc.uninstalls = some t → (s.pcs th).uninstalls = some t) {th₁ : Option ι}
    {t : κ} (ht : (s'.pcs th₁).begins = some t) :
    (s.pcs th₁).begins = some t ∧ s.registered t = false ∧ s.uninstalled t = false ∧
      (∀ th', th' ≠ th₁ → (s.pcs th').begins ≠ some t ∧ (s.pcs th').uninstalls ≠ some t) ∧
      ∀ th', th' ≠ th₁ → (s'.pcs th').begins ≠ some t ∧ (s'.pcs th').uninstalls ≠ some t := by
  have hold : (s.pcs th₁).begins = some t := by
    by_cases he : th₁ = th
    · rw [hpcs, he, Function.update_self] at ht
      rw [he]
      exact hbegins t ht
    · rw [hpcs, Function.update_of_ne he] at ht
      exact ht
  obtain ⟨hreg, hun, hothers⟩ := h.begins th₁ t hold
  refine ⟨hold, hreg, hun, hothers, fun th' hne => ?_⟩
  obtain ⟨hb, hu⟩ := hothers th' hne
  by_cases he : th' = th
  · subst he
    rw [hpcs, Function.update_self]
    exact ⟨fun hpc => hb (hbegins t hpc), fun hpc => hu (huninstalls t hpc)⟩
  · rw [hpcs, Function.update_of_ne he]
    exact ⟨hb, hu⟩

omit [DecidableEq κ] in
theorem removes_of_update (hpcs : s'.pcs = Function.update s.pcs th pc) {t : κ}
    (hpc : pc.removes ≠ some t) (h : ∀ th', (s.pcs th').removes ≠ some t) (th' : Option ι) :
    (s'.pcs th').removes ≠ some t := by
  by_cases he : th' = th
  · rw [hpcs, he, Function.update_self]
    exact hpc
  · rw [hpcs, Function.update_of_ne he]
    exact h th'

omit [DecidableEq κ] in
theorem installing_stays (hpcs : s'.pcs = Function.update s.pcs th pc) {t : κ}
    (hat : s.pcs th ≠ .push install_channel_tracker t) (h : s.Installing t) : s'.Installing t := by
  obtain ⟨th', hth'⟩ := h
  refine ⟨th', ?_⟩
  have hne : th' ≠ th := by
    rintro rfl
    exact hat hth'
  rw [hpcs, Function.update_of_ne hne]
  exact hth'

/-- **A step of a call** loses no tracker. -/
theorem kept_goes (hg : s.Goes th s') (htrackers : s'.trackers = s.trackers) {t : κ}
    (h : s.Kept t) : s'.Kept t := by
  unfold Kept
  rw [htrackers]
  rcases h with hin | hqueued | hinstalling
  · exact .inl hin
  · refine .inr (.inl ?_)
    cases hg with
    | on hat hfollows hpcs hregistered htevents => rw [htevents]; exact hqueued
    | registers hat hpcs hregistered htevents => rw [htevents]; exact hqueued
    | unregisters hat hpcs hregistered htevents => rw [htevents]; exact hqueued
    | appends hat hpcs hregistered htevents => rw [htevents]; exact List.mem_append_left _ hqueued
    | removes hat hpcs hregistered htevents => rw [htevents]; exact List.mem_append_left _ hqueued
    | gives_up hat hpcs hregistered htevents => rw [htevents]; exact hqueued
  · cases hg with
    | on hat hfollows hpcs =>
      exact .inr (.inr (installing_stays hpcs (by rw [hat]; exact hfollows.not_push t) hinstalling))
    | registers hat hpcs =>
      exact .inr (.inr (installing_stays hpcs (by rw [hat]; simp) hinstalling))
    | unregisters hat hpcs =>
      exact .inr (.inr (installing_stays hpcs (by rw [hat]; simp) hinstalling))
    | @appends t' hat hpcs hregistered htevents =>
      by_cases he : t = t'
      · rw [htevents, he]
        exact .inr (.inl (List.mem_append_right _ (List.mem_singleton_self _)))
      · refine .inr (.inr (installing_stays hpcs ?_ hinstalling))
        rw [hat]
        simp [Ne.symm he]
    | removes hat hpcs =>
      exact .inr (.inr (installing_stays hpcs (by rw [hat]; simp) hinstalling))
    | gives_up hat hpcs =>
      refine .inr (.inr (installing_stays hpcs ?_ hinstalling))
      intro hpush
      rw [hpush] at hat
      cases hat

theorem keptInv_goes (h : s.KeptInv) (hg : s.Goes th s') (htrackers : s'.trackers = s.trackers)
    (hworker : s'.worker = s.worker) : s'.KeptInv := by
  have hbatch : s'.batch = s.batch := by
    unfold TrackerPoller.batch
    rw [hworker]
  have hkept : ∀ t, s.Kept t → s'.Kept t := fun t => kept_goes hg htrackers
  suffices hrest : (∀ th t, (s'.pcs th).begins = some t → s'.registered t = false ∧
        s'.uninstalled t = false ∧
        ∀ th', th' ≠ th → (s'.pcs th').begins ≠ some t ∧ (s'.pcs th').uninstalls ≠ some t) ∧
      (∀ t, .remove t ∈ s'.tevents → s'.uninstalled t = true) ∧
      ∀ t, s'.registered t = true → s'.Kept t ∧ .remove t ∉ s'.tevents ∧
        ∀ th, (s'.pcs th).removes ≠ some t from
    ⟨hrest.1, hrest.2.1, hrest.2.2, fun t ht => hkept t (h.batch t (hbatch ▸ ht))⟩
  cases hg with
  | on hat hfollows hpcs hregistered htevents hun =>
    refine ⟨fun th₁ t ht => ?_, fun t ht => ?_, fun t ht => ?_⟩
    · obtain ⟨-, hreg, hunold, -, hothers⟩ := begins_of_update h hpcs
        (by rw [hat]; exact hfollows.begins) (by rw [hat]; exact hfollows.uninstalls) ht
      rw [hregistered, hun]
      exact ⟨hreg, hunold, hothers⟩
    · rw [htevents] at ht
      rw [hun]
      exact h.removed t ht
    · rw [hregistered] at ht
      obtain ⟨hk, hq, hr⟩ := h.registered t ht
      rw [htevents]
      refine ⟨hkept t hk, hq, removes_of_update hpcs (fun hpc => ?_) hr⟩
      refine hr th ?_
      rw [hat]
      exact hfollows.removes t hpc
  | @registers t' hat hpcs hregistered htevents hun =>
    have hmine : (s.pcs th).begins = some t' := by
      rw [hat]
      rfl
    obtain ⟨hreg', hun', hothers'⟩ := h.begins th t' hmine
    refine ⟨fun th₁ t ht => ?_, fun t ht => ?_, fun t ht => ?_⟩
    · obtain ⟨hold, hreg, hunold, hold', hothers⟩ :=
        begins_of_update h hpcs (by simp) (by simp) ht
      have hne : th ≠ th₁ := by
        rintro rfl
        rw [hpcs, Function.update_self] at ht
        cases ht
      have htne : t ≠ t' := by
        rintro rfl
        exact (hold' th hne).1 hmine
      rw [hregistered, hun, Function.update_of_ne htne, Function.update_of_ne htne]
      exact ⟨hreg, hunold, hothers⟩
    · rw [htevents] at ht
      have htne : t ≠ t' := by
        rintro rfl
        cases hun'.symm.trans (h.removed t ht)
      rw [hun, Function.update_of_ne htne]
      exact h.removed t ht
    · rw [htevents]
      by_cases he : t = t'
      · subst he
        refine ⟨.inr (.inr ⟨th, by rw [hpcs, Function.update_self]⟩), fun hq => ?_,
          removes_of_update hpcs (by simp) fun th' hr => ?_⟩
        · cases hun'.symm.trans (h.removed t hq)
        · by_cases hth : th' = th
          · rw [hth, hat] at hr
            cases hr
          · exact (hothers' th' hth).2 (TrackerPc.uninstalls_of_removes hr)
      · rw [hregistered, Function.update_of_ne he] at ht
        obtain ⟨hk, hq, hr⟩ := h.registered t ht
        exact ⟨hkept t hk, hq, removes_of_update hpcs (by simp) hr⟩
  | @unregisters t' hat hpcs hregistered htevents hun =>
    refine ⟨fun th₁ t ht => ?_, fun t ht => ?_, fun t ht => ?_⟩
    · obtain ⟨-, hreg, hunold, -, hothers⟩ := begins_of_update h hpcs (by simp)
        (by rw [hat]; simp) ht
      rw [hregistered, hun]
      refine ⟨?_, hunold, hothers⟩
      by_cases he : t = t'
      · rw [he, Function.update_self]
      · rw [Function.update_of_ne he]
        exact hreg
    · rw [htevents] at ht
      rw [hun]
      exact h.removed t ht
    · have he : t ≠ t' := by
        rintro rfl
        rw [hregistered, Function.update_self] at ht
        cases ht
      rw [hregistered, Function.update_of_ne he] at ht
      obtain ⟨hk, hq, hr⟩ := h.registered t ht
      rw [htevents]
      exact ⟨hkept t hk, hq, removes_of_update hpcs (by simp [Ne.symm he]) hr⟩
  | @appends t' hat hpcs hregistered htevents hun =>
    refine ⟨fun th₁ t ht => ?_, fun t ht => ?_, fun t ht => ?_⟩
    · obtain ⟨-, hreg, hunold, -, hothers⟩ := begins_of_update h hpcs (by simp) (by simp) ht
      rw [hregistered, hun]
      exact ⟨hreg, hunold, hothers⟩
    · rw [htevents] at ht
      rw [hun]
      refine h.removed t ?_
      simpa using ht
    · rw [hregistered] at ht
      obtain ⟨hk, hq, hr⟩ := h.registered t ht
      rw [htevents]
      exact ⟨hkept t hk, by simpa using hq, removes_of_update hpcs (by simp) hr⟩
  | @removes t' hat hpcs hregistered htevents hun =>
    have hmine : (s.pcs th).uninstalls = some t' := by
      rw [hat]
      rfl
    refine ⟨fun th₁ t ht => ?_, fun t ht => ?_, fun t ht => ?_⟩
    · obtain ⟨-, hreg, hunold, hold, hothers⟩ := begins_of_update h hpcs (by simp) (by simp) ht
      have hne : th ≠ th₁ := by
        rintro rfl
        rw [hpcs, Function.update_self] at ht
        cases ht
      have htne : t ≠ t' := by
        rintro rfl
        exact (hold th hne).2 hmine
      rw [hregistered, hun, Function.update_of_ne htne]
      exact ⟨hreg, hunold, hothers⟩
    · rw [htevents] at ht
      rw [hun]
      by_cases he : t = t'
      · rw [he, Function.update_self]
      · rw [Function.update_of_ne he]
        refine h.removed t ?_
        simpa [he] using ht
    · rw [hregistered] at ht
      obtain ⟨hk, hq, hr⟩ := h.registered t ht
      -- the tracker of the record is not registered
      have he : t ≠ t' := by
        rintro rfl
        refine hr th ?_
        rw [hat]
        rfl
      rw [htevents]
      exact ⟨hkept t hk, by simp [hq, he], removes_of_update hpcs (by simp) hr⟩
  | @gives_up t' hat hpcs hregistered htevents hun =>
    refine ⟨fun th₁ t ht => ?_, fun t ht => ?_, fun t ht => ?_⟩
    · obtain ⟨-, hreg, hunold, hold, hothers⟩ := begins_of_update h hpcs (by simp) (by simp) ht
      have hne : th ≠ th₁ := by
        rintro rfl
        rw [hpcs, Function.update_self] at ht
        cases ht
      have htne : t ≠ t' := by
        rintro rfl
        exact (hold th hne).2 hat
      rw [hregistered, hun, Function.update_of_ne htne]
      exact ⟨hreg, hunold, hothers⟩
    · rw [htevents] at ht
      rw [hun]
      by_cases he : t = t'
      · rw [he, Function.update_self]
      · rw [Function.update_of_ne he]
        exact h.removed t ht
    · rw [hregistered] at ht
      obtain ⟨hk, hq, hr⟩ := h.registered t ht
      rw [htevents]
      exact ⟨hkept t hk, hq, removes_of_update hpcs (by simp) hr⟩

/-! ## Section 3: The thread of the poller -/

omit [DecidableEq ι] [DecidableEq κ] in
/-- A step that leaves the calls, the records and the map alone. -/
theorem KeptInv.of_eq (h : s.KeptInv) (hpcs : s'.pcs = s.pcs)
    (hregistered : s'.registered = s.registered) (htevents : s'.tevents = s.tevents)
    (htrackers : s'.trackers = s.trackers) (hun : s'.uninstalled = s.uninstalled)
    (hbatch : ∀ t ∈ s'.batch, s.Kept t) : s'.KeptInv := by
  have hkept : ∀ t, s'.Kept t ↔ s.Kept t := by
    intro t
    unfold Kept Installing
    rw [hpcs, htevents, htrackers]
  constructor
  case begins =>
    rw [hpcs, hregistered, hun]
    exact h.begins
  case removed =>
    rw [htevents, hun]
    exact h.removed
  case registered =>
    intro t ht
    rw [hregistered] at ht
    rw [hkept, htevents, hpcs]
    exact h.registered t ht
  case batch => exact fun t ht => (hkept t).mpr (hbatch t ht)

omit [DecidableEq ι] in
/-- **A record** is handled while no batch is under way. -/
theorem KeptInv.handle {cnt : Nat} {ev : TrackerEvent κ} {rest : List (TrackerEvent κ)}
    (h : s.KeptInv) (hq : s.tevents = ev :: rest) :
    KeptInv { s with tevents := rest, trackers := ev.handle s.trackers,
                     worker := .tracker_events cnt } := by
  constructor
  case begins => exact h.begins
  case removed => exact fun t ht => h.removed t (by rw [hq]; exact List.mem_cons_of_mem _ ht)
  case registered =>
    intro t ht
    obtain ⟨hk, hno, hr⟩ := h.registered t ht
    rw [hq] at hno
    refine ⟨?_, fun ht' => hno (List.mem_cons_of_mem _ ht'), hr⟩
    cases ev with
    | append t' =>
      by_cases he : t = t'
      · subst he
        exact .inl (Function.update_self ..)
      · rcases hk with hin | hqueued | hinstalling
        · exact .inl ((Function.update_of_ne he ..).trans hin)
        · rw [hq] at hqueued
          refine .inr (.inl (List.mem_of_ne_of_mem ?_ hqueued))
          simp [he]
        · exact .inr (.inr hinstalling)
    | remove t' =>
      -- a registered tracker has no such record
      have he : t ≠ t' := by
        rintro rfl
        exact hno List.mem_cons_self
      rcases hk with hin | hqueued | hinstalling
      · exact .inl ((Function.update_of_ne he ..).trans hin)
      · rw [hq] at hqueued
        exact .inr (.inl (List.mem_of_ne_of_mem (by simp) hqueued))
      · exact .inr (.inr hinstalling)
  case batch => exact fun t ht => by cases ht

omit [DecidableEq ι] in
theorem keptInv_work {evs : List κ} (h : s.KeptInv) (hs : s.work evs s.worker = some s') :
    s'.KeptInv := by
  have hbatch : ∀ {evs'}, s.worker = .dispatch evs' ∨ s.worker = .handler evs' → ∀ t ∈ evs',
      s.Kept t := by
    intro evs' hw t ht
    refine h.batch t ?_
    unfold TrackerPoller.batch
    rcases hw with hw | hw
    · rw [hw]
      exact ht
    · rw [hw]
      exact ht
  rcases hw : s.worker with _ | _ | _ | (_ | cnt) | (_ | ⟨t, evs'⟩) | evs' | _
  all_goals
    rw [hw] at hs
    simp only [work] at hs
  · cases hs
  · cases hs
    refine h.of_eq rfl rfl rfl rfl rfl fun t ht => ?_
    unfold TrackerPoller.batch at ht
    split at ht
    · next evs' heq =>
      simp only at heq
      split at heq <;> cases heq
    · next evs' heq =>
      simp only at heq
      split at heq <;> cases heq
    · cases ht
  · split at hs
    · cases hs
      exact h.of_eq rfl rfl rfl rfl rfl fun t ht => by cases ht
    · cases hs
  · -- `epoll_wait` returns what is registered
    split at hs
    · next hready =>
      cases hs
      exact h.of_eq rfl rfl rfl rfl rfl fun t ht => (h.registered t (hready t ht)).1
    · cases hs
  · rcases hq : s.tevents with _ | ⟨ev, rest⟩
    · rw [hq] at hs
      cases hs
      exact h.of_eq rfl rfl hq.symm rfl rfl fun t ht => by cases ht
    · rw [hq] at hs
      cases hs
      exact h.handle hq
  · cases hs
    exact h.of_eq rfl rfl rfl rfl rfl fun t ht => by cases ht
  · split at hs
    all_goals
      cases hs
      exact h.of_eq rfl rfl rfl rfl rfl fun t' ht' =>
        hbatch (.inl hw) t' (List.mem_cons_of_mem _ ht')
  · split at hs
    · cases hs
      exact h.of_eq rfl rfl rfl rfl rfl fun t ht => hbatch (.inr hw) t ht
    · cases hs
  · cases hs

omit [DecidableEq κ] in
/-- A tracker that is known has no install under way. -/
theorem Known.not_begins {t : κ} (h : s.KeptInv) (hknown : s.Known t) (th' : Option ι) :
    (s.pcs th').begins ≠ some t := by
  intro hbegins
  obtain ⟨hreg, hun, hothers⟩ := h.begins th' t hbegins
  rcases hknown with hr | hu | ⟨th₀, hth₀⟩
  · cases hreg.symm.trans hr
  · cases hun.symm.trans hu
  · by_cases he : th₀ = th'
    · rw [he, TrackerPc.not_uninstalls_of_begins hbegins] at hth₀
      cases hth₀
    · exact (hothers th₀ he).2 hth₀

/-- **A new call.** -/
theorem keptInv_call {call : TrackerCall} {t : κ} (h : s.KeptInv) (hidle : s.pcs th = .idle)
    (hok : s.Proper (.call th call t)) : (s.goto th (.started call t)).KeptInv := by
  have hpcs : (s.goto th (.started call t)).pcs = Function.update s.pcs th (.started call t) := rfl
  have hother : ∀ th', th' ≠ th → (s.goto th (.started call t)).pcs th' = s.pcs th' :=
    fun th' hne => Function.update_of_ne hne ..
  have hkept : ∀ t', s.Kept t' → (s.goto th (.started call t)).Kept t' := fun t' hk =>
    hk.imp (fun h => h) fun hk => hk.imp (fun h => h) (installing_stays hpcs (by rw [hidle]; simp))
  -- nobody else is in an install of the tracker
  have hclear : ∀ th', (s.pcs th').begins ≠ some t := by
    cases call with
    | install_channel_tracker => exact fun th' => (hok.2.2 th').1
    | uninstall_channel_tracker => exact Known.not_begins h hok
  constructor
  case begins =>
    intro th₁ t₁ ht
    by_cases hth : th₁ = th
    · subst hth
      rw [hpcs, Function.update_self] at ht
      cases call with
      | install_channel_tracker =>
        cases ht
        obtain ⟨hreg, hun, hnobody⟩ := hok
        refine ⟨hreg, hun, fun th' hne => ?_⟩
        rw [hother th' hne]
        exact hnobody th'
      | uninstall_channel_tracker => cases ht
    · rw [hother th₁ hth] at ht
      obtain ⟨hreg, hun, hothers⟩ := h.begins th₁ t₁ ht
      have hne : t ≠ t₁ := by
        rintro rfl
        exact hclear th₁ ht
      refine ⟨hreg, hun, fun th' hth' => ?_⟩
      by_cases he : th' = th
      · rw [he, hpcs, Function.update_self]
        cases call with
        | install_channel_tracker => simp [hne]
        | uninstall_channel_tracker => simp [hne]
      · rw [hother th' he]
        exact hothers th' hth'
  case removed => exact h.removed
  case registered =>
    intro t' ht'
    obtain ⟨hk, hq, hr⟩ := h.registered t' ht'
    refine ⟨hkept t' hk, hq, removes_of_update hpcs ?_ hr⟩
    cases call with
    | install_channel_tracker => simp
    | uninstall_channel_tracker => simp
  case batch => exact fun t' ht' => hkept t' (h.batch t' ht')

theorem keptInv_step {l : TrackerLabel ι κ} (h : s.KeptInv) (hok : s.Proper l)
    (hs : s.step l = some s') : s'.KeptInv := by
  cases l with
  | start =>
    simp only [step] at hs
    split at hs
    · cases hs
      exact h.of_eq rfl rfl rfl rfl rfl fun t ht => by cases ht
    · cases hs
  | stop =>
    cases hs
    exact h.of_eq rfl rfl rfl rfl rfl h.batch
  | call th call t =>
    simp only [step] at hs
    split at hs
    · next hen =>
      cases hs
      exact keptInv_call h hen.1 hok
    · cases hs
  | set_expected_event t expects =>
    cases hs
    exact h.of_eq rfl rfl rfl rfl rfl h.batch
  | start_channel_tracker t =>
    cases hs
    exact h.of_eq rfl rfl rfl rfl rfl h.batch
  | step th ok =>
    obtain ⟨hg, htrackers, hworker⟩ := action_goes hs
    exact keptInv_goes h hg htrackers hworker
  | work evs => exact keptInv_work h hs

/-- **No tracker of a batch is freed.** In every run, with any threads, the
    poller or an install still has each tracker that the thread of the poller
    is going to follow a pointer to. -/
theorem batch_kept {s : TrackerPoller ι κ} {t : κ} (h : Reachable step Proper construct s)
    (ht : t ∈ s.batch) : s.Kept t :=
  (h.invariant keptInv_construct fun _ _ _ hi hok hs => keptInv_step hi hok hs).batch t ht

/-- Two trackers in one batch; the handler of the first one uninstalls the
    other. -/
theorem batch_kept_two_trackers :
    ∃ s : TrackerPoller (Fin 1) (Fin 2), exec step construct
        ([.start, .work [], .work [], .call (some 0) install_channel_tracker 0] ++
          List.replicate 7 (.step (some 0) true) ++ [.call (some 0) install_channel_tracker 1] ++
          List.replicate 7 (.step (some 0) true) ++
          [.work [0, 1], .work [], .call none uninstall_channel_tracker 1] ++
          List.replicate 6 (.step none true)) = some s ∧
      s.batch = [1] ∧ s.registered 1 = false ∧ s.Kept 1 := by
  have hexec : (exec step (construct : TrackerPoller (Fin 1) (Fin 2))
      ([.start, .work [], .work [], .call (some 0) install_channel_tracker 0] ++
        List.replicate 7 (.step (some 0) true) ++ [.call (some 0) install_channel_tracker 1] ++
        List.replicate 7 (.step (some 0) true) ++
        [.work [0, 1], .work [], .call none uninstall_channel_tracker 1] ++
        List.replicate 6 (.step none true))).map (fun s => (s.batch, s.registered 1)) =
          some ([1], false) := by
    decide
  obtain ⟨s, hs, hend⟩ := Option.map_eq_some_iff.mp hexec
  obtain ⟨hbatch, hreg⟩ := Prod.mk.inj hend
  refine ⟨s, hs, hbatch, hreg, batch_kept (.of_exec hs (by decide)) ?_⟩
  rw [hbatch]
  exact List.mem_singleton_self 1

end TrackerPoller

end Pump
