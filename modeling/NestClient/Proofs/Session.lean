import NestClient.Proofs.Steps
import NestClient.Session

/-! Two runs side by side, each on a disk of its own.

* `Alongside`: both fail, or both give the same value and leave related disks.
* `Reads`: both also leave the disks as they are.
* `Gives`: a single run that does not fail, told by its disks and its value.
* `Does`: all runs on a disk are such.
* `Succeeds` and `Fails`: a single run that leaves its disk as it is. -/

namespace NestClient.Action

open Steps

variable {α β γ : Type}

/-- Run on two disks, the actions both fail or both give the same value, and then the disks that they
leave are related. -/
def Alongside (d d' : Disk) (a a' : Action α) (R : α → Disk → Disk → Prop) : Prop :=
  ∀ s s' : Session, s.disk = d → s'.disk = d' →
    (∃ v t t', a.run.run s = (.ok v, t) ∧ a'.run.run s' = (.ok v, t') ∧ R v t.disk t'.disk) ∨
      ∃ f f' t t', a.run.run s = (.error f, t) ∧ a'.run.run s' = (.error f', t')

/-- The actions find the same on both disks, which they do not change. -/
def Reads (d d' : Disk) (a a' : Action α) (Q : α → Prop) : Prop :=
  Alongside d d' a a' fun v e e' => e = d ∧ e' = d' ∧ Q v

variable {d d' : Disk} {a a' : Action α} {f f' : α → Action β} {R : α → Disk → Disk → Prop}
  {S : β → Disk → Disk → Prop} {Q : α → Prop} {P : β → Prop}

/-! ## Runs of single steps -/

theorem Alongside.mono {R' : α → Disk → Disk → Prop} (h : Alongside d d' a a' R)
    (hR : ∀ v e e', R v e e' → R' v e e') : Alongside d d' a a' R' := by
  intro s s' hs hs'
  refine (h s s' hs hs').imp_left ?_
  rintro ⟨v, t, t', hrun, hrun', hv⟩
  exact ⟨v, t, t', hrun, hrun', hR v _ _ hv⟩

theorem Alongside.bind (h : Alongside d d' a a' R)
    (hf : ∀ v e e', R v e e' → Alongside e e' (f v) (f' v) S) :
    Alongside d d' (a >>= f) (a' >>= f') S := by
  intro s s' hs hs'
  rcases h s s' hs hs' with ⟨v, t, t', hrun, hrun', hv⟩ | ⟨g, g', t, t', hrun, hrun'⟩
  · rw [bind_ok hrun, bind_ok hrun']
    exact hf v _ _ hv t t' rfl rfl
  · exact .inr ⟨g, g', t, t', bind_error hrun, bind_error hrun'⟩

theorem Alongside.of_ok {v v' : α} {e e' : Disk}
    (hrun : ∀ s : Session, s.disk = d → a.run.run s = (.ok v, { s with disk := e }))
    (hrun' : ∀ s : Session, s.disk = d' → a'.run.run s = (.ok v', { s with disk := e' }))
    (h : Alongside e e' (f v) (f' v') S) : Alongside d d' (a >>= f) (a' >>= f') S := by
  intro s s' hs hs'
  rw [bind_ok (hrun s hs), bind_ok (hrun' s' hs')]
  exact h _ _ rfl rfl

theorem alongside_pure {v : α} (h : R v d d') : Alongside d d' (pure v) (pure v) R := by
  intro s s' hs hs'
  refine .inl ⟨v, s, s', rfl, rfl, ?_⟩
  rw [hs, hs']
  exact h

theorem alongside_throw (g : Failure) : Alongside d d' (throw g) (throw g) R :=
  fun s s' _ _ => .inr ⟨g, g, s, s', rfl, rfl⟩

theorem run_report (events : List Event) (s : Session) :
    (report events).run.run s = (.ok (), { s with events := s.events ++ events }) := rfl

theorem alongside_report {events events' : List Event} {R : Unit → Disk → Disk → Prop}
    (h : R () d d') : Alongside d d' (report events) (report events') R := by
  intro s s' hs hs'
  refine .inl ⟨(), _, _, run_report events s, run_report events' s', ?_⟩
  dsimp only
  rw [hs, hs']
  exact h

theorem run_change (c : DiskChange α) (s : Session) :
    (change c).run.run s = (match (c.run.run s.disk).1 with
      | .ok a => return a
      | .error fault => throw (.disk fault) : Action α).run.run
        { s with disk := (c.run.run s.disk).2 } := rfl

theorem run_change_ok {c : DiskChange α} {s : Session} {v : α} {e : Disk}
    (h : c.run.run s.disk = (.ok v, e)) : (change c).run.run s = (.ok v, { s with disk := e }) := by
  rw [run_change, h]
  rfl

theorem run_change_error {c : DiskChange α} {s : Session} {g : DiskFault} {e : Disk}
    (h : c.run.run s.disk = (.error g, e)) :
    (change c).run.run s = (.error (.disk g), { s with disk := e }) := by
  rw [run_change, h]
  rfl

/-! ## Reading -/

theorem Reads.bind (h : Reads d d' a a' Q) (hf : ∀ v, Q v → Alongside d d' (f v) (f' v) S) :
    Alongside d d' (a >>= f) (a' >>= f') S := by
  refine Alongside.bind h ?_
  rintro v e e' ⟨rfl, rfl, hv⟩
  exact hf v hv

theorem reads_pure {v : α} (h : Q v) : Reads d d' (pure v) (pure v) Q := alongside_pure ⟨rfl, rfl, h⟩

theorem reads_throw (g : Failure) : Reads d d' (throw g) (throw g) Q := alongside_throw g

theorem reads_report (events : List Event) :
    Reads d d' (report events) (report events) fun _ => True :=
  alongside_report ⟨rfl, rfl, trivial⟩

theorem alongside_disk {g g' : Disk → Action β} (h : Alongside d d' (g d) (g' d') S) :
    Alongside d d' (disk >>= g) (disk >>= g') S := by
  rintro s s' rfl rfl
  exact h s s' rfl rfl

theorem reads_relative (p root : Path) :
    Reads d d' (relative p root) (relative p root) fun t =>
      (p.relativeTo? root).map Path.text = some t := by
  unfold relative
  cases hbelow : p.relativeTo? root with
  | none => exact reads_throw _
  | some below => exact reads_pure rfl

/-! ## Lists of actions -/

theorem reads_foldlM {g g' : β → γ → Action β} (items : List γ)
    (h : ∀ acc, P acc → ∀ item ∈ items, Reads d d' (g acc item) (g' acc item) P) {start : β}
    (hstart : P start) : Reads d d' (items.foldlM g start) (items.foldlM g' start) P := by
  induction items generalizing start with
  | nil => exact reads_pure hstart
  | cons item items ih =>
    rw [List.foldlM_cons, List.foldlM_cons]
    refine (h start hstart item List.mem_cons_self).bind fun acc hacc => ?_
    exact ih (fun acc hacc item hitem => h acc hacc item (List.mem_cons_of_mem _ hitem)) hacc

theorem reads_mapM {g g' : β → Action γ} {result? : β → Option γ} (items : List β)
    (h : ∀ item ∈ items, Reads d d' (g item) (g' item) fun v => result? item = some v) :
    Reads d d' (items.mapM g) (items.mapM g') fun vs => items.map result? = vs.map some := by
  induction items with
  | nil =>
    rw [List.mapM_nil, List.mapM_nil]
    exact reads_pure rfl
  | cons item items ih =>
    rw [List.mapM_cons, List.mapM_cons]
    refine (h item List.mem_cons_self).bind fun v hv => ?_
    refine (ih fun item hitem => h item (List.mem_cons_of_mem _ hitem)).bind fun vs hvs => ?_
    exact reads_pure (by rw [List.map_cons, List.map_cons, hv, hvs])

theorem alongside_mapM {g g' : β → Action γ} {I : Disk → Disk → Prop} (items : List β)
    (h : ∀ item ∈ items, ∀ e e', I e e' → Alongside e e' (g item) (g' item) fun _ => I)
    (hI : I d d') : Alongside d d' (items.mapM g) (items.mapM g') fun _ => I := by
  induction items generalizing d d' with
  | nil =>
    rw [List.mapM_nil, List.mapM_nil]
    exact alongside_pure hI
  | cons item items ih =>
    rw [List.mapM_cons, List.mapM_cons]
    refine (h item List.mem_cons_self d d' hI).bind fun v e e' he => ?_
    refine (ih (fun item hitem => h item (List.mem_cons_of_mem _ hitem)) he).bind ?_
    exact fun vs e e' he => alongside_pure he

/-! ## Single runs -/

/-- Run on a disk, the action gives a value and leaves another disk. -/
def Gives (a : Action α) (d : Disk) (v : α) (e : Disk) : Prop :=
  ∃ s t : Session, s.disk = d ∧ t.disk = e ∧ a.run.run s = (.ok v, t)

variable {e : Disk} {v : α} {w : β}

theorem Gives.of_bind (h : Gives (a >>= f) d w e) : ∃ v m, Gives a d v m ∧ Gives (f v) m w e := by
  obtain ⟨s, t, hs, ht, hrun⟩ := h
  obtain ⟨v, m, ha, hf⟩ := exists_of_bind_ok hrun
  exact ⟨v, m.disk, ⟨s, m, hs, rfl, ha⟩, ⟨m, t, rfl, ht, hf⟩⟩

/-- What holds of two runs on one disk holds of a run and itself. -/
theorem Alongside.gives (h : Alongside d d a a R) (hrun : Gives a d v e) : R v e e := by
  obtain ⟨s, t, hs, rfl, hrun⟩ := hrun
  rcases h s s hs hs with ⟨v', t', t'', hrun', hrun'', hv⟩ | ⟨f, f', t', t'', hrun', -⟩
  · rw [hrun] at hrun' hrun''
    cases hrun'
    cases hrun''
    exact hv
  · rw [hrun] at hrun'
    cases hrun'

theorem Gives.of_pure {u : α} (h : Gives (pure u) d v e) : v = u ∧ e = d := by
  obtain ⟨s, t, rfl, rfl, hrun⟩ := h
  cases hrun
  exact ⟨rfl, rfl⟩

theorem Gives.of_report {events : List Event} {u : Unit} (h : Gives (report events) d u e) : e = d := by
  obtain ⟨s, t, rfl, rfl, hrun⟩ := h
  rw [run_report] at hrun
  cases hrun
  rfl

theorem Gives.of_change {c : DiskChange α} (h : Gives (change c) d v e) :
    c.run.run d = (.ok v, e) := by
  obtain ⟨s, t, rfl, rfl, hrun⟩ := h
  cases hc : c.run.run s.disk with
  | mk result d' =>
    cases result with
    | ok u =>
      rw [run_change_ok hc] at hrun
      cases hrun
      rfl
    | error g =>
      rw [run_change_error hc] at hrun
      cases hrun

/-- A pass over a list gives the result of each step and keeps what each step keeps. -/
theorem Gives.of_mapM {g : β → Action γ} {result : β → γ} {I : List β → Disk → Prop}
    {done items : List β} (hstep : ∀ done, ∀ item ∈ items, ∀ d v e, I done d → Gives (g item) d v e →
      v = result item ∧ I (done ++ [item]) e)
    {vs : List γ} (hI : I done d) (h : Gives (items.mapM g) d vs e) :
    vs = items.map result ∧ I (done ++ items) e := by
  induction items generalizing done d vs with
  | nil =>
    rw [List.mapM_nil] at h
    obtain ⟨rfl, rfl⟩ := h.of_pure
    rw [List.append_nil]
    exact ⟨rfl, hI⟩
  | cons item items ih =>
    rw [List.mapM_cons] at h
    obtain ⟨v, m, hitem, h⟩ := h.of_bind
    obtain ⟨vs', m', hitems, h⟩ := h.of_bind
    obtain ⟨rfl, rfl⟩ := h.of_pure
    obtain ⟨rfl, hm⟩ := hstep done item List.mem_cons_self d v m hI hitem
    obtain ⟨rfl, he⟩ := ih (fun done item hitem => hstep done item (List.mem_cons_of_mem _ hitem))
      hm hitems
    rw [List.append_assoc, List.singleton_append] at he
    exact ⟨rfl, he⟩

/-! ## Runs on one disk -/

/-- Run on a disk, the action always gives the value and leaves the other disk. -/
def Does (a : Action α) (d : Disk) (v : α) (e : Disk) : Prop :=
  ∀ s : Session, s.disk = d → ∃ events, a.run.run s = (.ok v, ⟨e, events⟩)

theorem does_of_run (h : ∀ s : Session, s.disk = d → a.run.run s = (.ok v, { s with disk := e })) :
    Does a d v e := fun s hs => ⟨s.events, h s hs⟩

theorem does_pure (v : α) (d : Disk) : Does (pure v) d v d := by
  rintro s rfl
  exact ⟨s.events, rfl⟩

theorem does_report (events : List Event) (d : Disk) : Does (report events) d () d := by
  rintro s rfl
  exact ⟨_, run_report events s⟩

theorem does_change {c : DiskChange α} (h : c.run.run d = (.ok v, e)) : Does (change c) d v e := by
  refine does_of_run ?_
  rintro s rfl
  exact run_change_ok h

theorem Does.bind {e' : Disk} (h : Does a d v e) (hf : Does (f v) e w e') :
    Does (a >>= f) d w e' := by
  intro s hs
  obtain ⟨events, hrun⟩ := h s hs
  obtain ⟨events', hrun'⟩ := hf ⟨e, events⟩ rfl
  exact ⟨events', (bind_ok hrun).trans hrun'⟩

/-- A pass over a list gives the result of each step if each step can follow what was done. -/
theorem does_mapM {g : β → Action γ} {result : β → γ} {I : List β → Disk → Prop}
    {done items : List β} (hstep : ∀ done, ∀ item ∈ items, ∀ d, I done d →
      ∃ e, Does (g item) d (result item) e ∧ I (done ++ [item]) e) (hI : I done d) :
    ∃ e, Does (items.mapM g) d (items.map result) e ∧ I (done ++ items) e := by
  induction items generalizing done d with
  | nil =>
    rw [List.mapM_nil, List.append_nil]
    exact ⟨d, does_pure [] d, hI⟩
  | cons item items ih =>
    obtain ⟨m, hitem, hm⟩ := hstep done item List.mem_cons_self d hI
    obtain ⟨e, hitems, he⟩ :=
      ih (fun done item hitem => hstep done item (List.mem_cons_of_mem _ hitem)) hm
    rw [List.append_assoc, List.singleton_append] at he
    rw [List.mapM_cons]
    exact ⟨e, hitem.bind (hitems.bind (does_pure _ e)), he⟩

/-! ## Runs that leave the disk as it is -/

section Succeeds

variable {s : Session}

/-- The run gives a value, and reports at most. -/
def Succeeds (a : Action α) (s : Session) (Q : α → Prop) : Prop :=
  ∃ v events, a.run.run s = (.ok v, { s with events }) ∧ Q v

/-- The run gives no value, and reports at most. -/
def Fails (a : Action α) (s : Session) : Prop :=
  ∃ failure events, a.run.run s = (.error failure, { s with events })

theorem Succeeds.bind (h : a.Succeeds s Q) (hf : ∀ v events, Q v → (f v).Succeeds { s with events } P) :
    (a >>= f).Succeeds s P := by
  obtain ⟨v, events, hrun, hv⟩ := h
  obtain ⟨w, events', hrun', hw⟩ := hf v events hv
  exact ⟨w, events', (bind_ok hrun).trans hrun', hw⟩

theorem Fails.of_bind (h : a.Fails s) : (a >>= f).Fails s := by
  obtain ⟨failure, events, hrun⟩ := h
  exact ⟨failure, events, bind_error hrun⟩

theorem Succeeds.bind_fails (h : a.Succeeds s Q) (hf : ∀ v events, Q v → (f v).Fails { s with events }) :
    (a >>= f).Fails s := by
  obtain ⟨v, events, hrun, hv⟩ := h
  obtain ⟨failure, events', hrun'⟩ := hf v events hv
  exact ⟨failure, events', (bind_ok hrun).trans hrun'⟩

theorem Succeeds.mono {R : α → Prop} (h : a.Succeeds s Q) (hR : ∀ v, Q v → R v) : a.Succeeds s R := by
  obtain ⟨v, events, hrun, hv⟩ := h
  exact ⟨v, events, hrun, hR v hv⟩

theorem succeeds_pure {v : α} (h : Q v) : (pure v : Action α).Succeeds s Q := ⟨v, s.events, rfl, h⟩

theorem succeeds_report (events : List Event) : (report events).Succeeds s fun _ => True :=
  ⟨(), _, rfl, trivial⟩

theorem succeeds_disk : disk.Succeeds s (· = s.disk) := ⟨_, s.events, rfl, rfl⟩

end Succeeds

end NestClient.Action
