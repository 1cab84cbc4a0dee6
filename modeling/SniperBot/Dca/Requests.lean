import SniperBot.Dca.Pacing

/-!
# Tenants' requests and the leases that workers have lost

A request is refused while a lease runs, but leaves the lease's owner in the row. A worker that
records after its lease has run out is still taken for the owner, whatever the tenant did
meanwhile. While workers record in time, a schedule runs only when it is active and due.
-/

namespace SniperBot.Dca

open Lib.LeaseTable Lib.Slots Lib.Runs List Option

/-- The request changes the schedule: it is the tenant's, in a state that the request starts
from, and no lease on it runs. -/
def System.Accepts (s : System) (kind : Request) (organizationId id : String) : Prop :=
  ∃ d, s.store.schedules id = some d ∧ d.organizationId = organizationId ∧
    d.status ∈ kind.sources ∧ d.lease.free s.clock = true

/-- A worker that is a schedule's lease owner records a run of it before the lease has run
out. -/
def InTime (e : Entry System Label) : Prop :=
  ∀ worker schedule d, e.label = .record worker schedule →
    e.pre.store.schedules schedule.id = some d →
    Schedules.Owned schedule worker schedule.id d → d.lease.free e.pre.clock = false

theorem Schedules.transition_some {t : Schedules} {id : String} {d : DcaSchedule}
    (hd : t id = some d) (organizationId other : String) (sources : List DcaStatus)
    (target : DcaStatus) (now : Int) :
    t.transition organizationId other sources target now id =
    some (if id = other ∧ d.organizationId = organizationId ∧ d.status ∈ sources ∧
        d.lease.free now = true then
      (if target = .active then { d with status := .active, nextRunAt := now + d.interval }
          else { d with status := target })
        else d) :=
  Table.update_some hd

namespace System

/-- A schedule and its runs, as long as workers record in time. -/
structure Timely (s : System) (id : String) (d : DcaSchedule) : Prop where
  interval_pos : 0 < d.interval
  punctual : ∀ run ∈ s.store.runsOf id, run.slotAt ≤ run.createdAt
  recorded : ∀ run ∈ s.store.runsOf id, run.createdAt ≤ s.clock
  ahead : ∀ run ∈ s.store.runsOf id, run.slotAt < d.nextRunAt
  held : d.lease.owner ≠ none → d.lease.free s.clock = false →
    d.status = .active ∧ d.nextRunAt ≤ s.clock

/-- Every schedule is timely, and one that does not exist has no runs. -/
structure Punctual (s : System) (id : String) : Prop where
  absent : s.store.schedules id = none → s.store.runsOf id = []
  timely : ∀ d, s.store.schedules id = some d → s.Timely id d

variable {s : System} {id : String} {d : DcaSchedule} {t : System} {label : Label} {s' : System} {d' : DcaSchedule}

theorem Timely.of_fresh (hf : d.Fresh) (hr : s.store.runsOf id = []) : s.Timely id d := by
  refine ⟨hf.checks.period_pos, ?_, ?_, ?_, ?_⟩
  · rw [hr]
    intro run hru
    cases hru
  · rw [hr]
    intro run hru
    cases hru
  · rw [hr]
    intro run hru
    cases hru
  · intro ho
    rw [hf.lease] at ho
    exact absurd rfl ho

theorem Punctual.of_row (hr : s.store.schedules id = some d) (h : s.Timely id d) :
    s.Punctual id := by
  constructor
  · intro hn
    exact absurd (hr.symm.trans hn) (some_ne_none d)
  · intro d' hd'
    obtain rfl := some.inj (hr.symm.trans hd')
    exact h

theorem Timely.of_next (h : s.Timely id d) (hc : s.clock ≤ t.clock)
    (hr : t.store.runsOf id = s.store.runsOf id) (hi : d'.intervalSecs = d.intervalSecs)
    (hnext : d'.nextRunAt = d.nextRunAt ∨ s.clock < d'.nextRunAt)
    (hh : d'.lease.owner ≠ none → d'.lease.free t.clock = false →
    d'.status = .active ∧ d'.nextRunAt ≤ t.clock) : t.Timely id d' := by
  constructor
  · unfold DcaSchedule.interval
    rw [hi]
    exact h.interval_pos
  · rw [hr]
    exact h.punctual
  · rw [hr]
    exact fun run hru => (h.recorded run hru).trans hc
  · rw [hr]
    intro run hru
    have hsl := h.punctual run hru
    have hc := h.recorded run hru
    have ha := h.ahead run hru
    omega
  · exact hh

theorem Timely.recordable {schedule : DueSchedule} {worker : String} (h : s.Timely schedule.id d)
    (ho : Schedules.Owned schedule worker schedule.id d) (hl : d.lease.free s.clock = false)
    : d.status = .active ∧ d.nextRunAt ≤ s.clock := by
  refine h.held ?_ hl
  rw [ho.2.2]
  exact some_ne_none worker

theorem Timely.charged (h : s.Timely id d) (hd : d.nextRunAt ≤ s.clock) (hcl : t.clock = s.clock)
    (hr : t.store.runsOf id = s.store.runsOf id ++ [Store.intent id d s.clock]) :
    t.Timely id (d.charged (Store.intent id d s.clock).amountSol s.clock) := by
  have hnext : s.clock < nextSlot d.interval d.nextRunAt s.clock := lt_nextSlot h.interval_pos _ _
  have hc : ∀ run ∈ t.store.runsOf id,
      run ∈ s.store.runsOf id ∨ run = Store.intent id d s.clock := by
    intro run hru
    rw [hr] at hru
    exact (mem_append.mp hru).imp_right mem_singleton.mp
  refine ⟨h.interval_pos, ?_, ?_, ?_, fun ho => absurd rfl ho⟩
  · intro run hru
    rcases hc run hru with hru | rfl
    · exact h.punctual run hru
    · exact hd
  · intro run hru
    rw [hcl]
    rcases hc run hru with hru | rfl
    · exact h.recorded run hru
    · exact Int.le_refl _
  · intro run hru
    change run.slotAt < nextSlot d.interval d.nextRunAt s.clock
    rcases hc run hru with hru | rfl
    · have hsl := h.punctual run hru
      have hcl := h.recorded run hru
      omega
    · change d.nextRunAt < _
      omega

theorem Punctual.step (h : s.Punctual id) (htim : InTime ⟨s, label, t⟩) (hst : Step s label t) :
    t.Punctual id := by
  cases moves_of_step id hst with
  | stays hc hro hr =>
    refine ⟨fun hn => hr.trans (h.absent (hro.symm.trans hn)), fun d hd => ?_⟩
    have hti := h.timely d (hro.symm.trans hd)
    refine hti.of_next hc hr rfl (.inl rfl) fun how hlea => ?_
    obtain ⟨ha, hdu⟩ := hti.held how (Lease.not_free_of_le hc hlea)
    exact ⟨ha, hdu.trans hc⟩
  | created d hne hfr hro hr =>
    exact .of_row hro (.of_fresh hfr (hr.trans (h.absent hne)))
  | set d d' hd hse hc hro hr =>
    have hti := h.timely d hd
    refine .of_row hro ?_
    cases hse with
    | claimed _ ha hdu =>
      exact hti.of_next hc.ge hr rfl (.inl rfl) fun _ _ => ⟨ha, hc ▸ hdu⟩
    | left hsa hlea =>
      exact hti.of_next hc.ge hr hsa.interval (.inl hsa.next)
        fun how => absurd (congrArg _ hlea) how
    | requested kind _ hf =>
      -- accepted only after the lease has run out: the owner it leaves is out of time
      have hpos := hti.interval_pos
      have hov : d.lease.owner ≠ none → d.lease.free t.clock = false → False := by
        rw [hc, hf]
        exact fun _ h => Bool.noConfusion h
      split_ifs
      · refine hti.of_next hc.ge hr rfl (.inr ?_) fun ho hl => (hov ho hl).elim
        change s.clock < s.clock + d.interval
        omega
      · exact hti.of_next hc.ge hr rfl (.inl rfl) fun ho hl => (hov ho hl).elim
  | ran worker schedule d hla hi hd hre hc hro hr =>
    subst hi
    obtain ⟨-, hdu⟩ := (h.timely d hd).recordable hre.1 (htim worker schedule d hla hd hre.1)
    exact .of_row hro ((h.timely d hd).charged hdu hc hr)

theorem Fresh.punctual (h : s.Fresh) (id : String) : s.Punctual id := by
  have hr : s.store.runsOf id = [] := by
    unfold Store.runsOf
    rw [h.runs]
    rfl
  exact ⟨fun _ => hr, fun d hd => .of_fresh (h.schedules id d hd) hr⟩

/-! ### While a schedule is paused or cancelled -/

/-- What a schedule that is paused or cancelled keeps: it has no further run and stays so, and
if it is cancelled it stays cancelled. -/
structure StaysClosed (s s' : System) (id : String) (d : DcaSchedule) : Prop where
  runs : s'.store.runsOf id = s.store.runsOf id
  row : ∃ d', s'.store.schedules id = some d' ∧ (d'.status = .paused ∨ d'.status = .cancelled) ∧
    (d.status = .cancelled → d'.status = .cancelled)

theorem StaysClosed.of_same (hc : d.status = .paused ∨ d.status = .cancelled)
    (hr : s'.store.runsOf id = s.store.runsOf id)
    (hd' : s'.store.schedules id = some d') (hst : d'.status = d.status) :
    StaysClosed s s' id d := by
  refine ⟨hr, d', hd', ?_, ?_⟩
  · rw [hst]
    exact hc
  · rw [hst]
    exact fun h => h

theorem Punctual.closed_step (h : s.Punctual id) (hti : InTime ⟨s, label, t⟩)
    (hste : Step s label t) (hd : s.store.schedules id = some d)
    (hc : d.status = .paused ∨ d.status = .cancelled)
    (hres : ∀ organizationId, label = .request .resume organizationId id →
    ¬ s.Accepts .resume organizationId id) : StaysClosed s t id d := by
  have hi : d.status ≠ .active := by
    intro ha
    rw [ha] at hc
    rcases hc with hc | hc <;> cases hc
  -- an owner is in time, so the schedule would be active
  have hun : ∀ worker schedule, label = .record worker schedule →
      ¬ Schedules.Owned schedule worker id d := by
    intro worker schedule hl ho
    obtain rfl := ho.1
    exact hi ((h.timely d hd).recordable ho (hti worker schedule d hl hd ho)).1
  cases moves_of_step id hste with
  | stays _ hro hr => exact .of_same hc hr (hro.trans hd) rfl
  | created _ hn => exact absurd (hn.symm.trans hd) (some_ne_none d).symm
  | set d' d'' hd' hse _ hro hr =>
    obtain rfl := some.inj (hd.symm.trans hd')
    cases hse with
    | claimed _ ha => exact absurd ha hi
    | left _ _ hst =>
      rcases hst with hst | ⟨worker, schedule, hl, ho⟩
      · exact .of_same hc hr hro hst
      · exact absurd ho (hun worker schedule hl)
    | requested kind hso hf =>
      refine ⟨hr, _, hro, ?_⟩
      cases kind with
      | pause => exact absurd (mem_singleton.mp hso) hi
      | resume => exact absurd ⟨d, hd, rfl, hso, hf⟩ (hres _ rfl)
      | cancel => exact ⟨Or.inr rfl, fun _ => rfl⟩
  | ran worker schedule d' hl hid hd' hre =>
    subst hid
    obtain rfl := some.inj (hd.symm.trans hd')
    exact absurd hre.1 (hun worker schedule hl)

theorem Punctual.cancelled_step (h : s.Punctual id) (hti : InTime ⟨s, label, s'⟩)
    (hste : Step s label s') (hd : s.store.schedules id = some d)
    (hc : d.status = .cancelled) :
    ∃ d', s'.store.schedules id = some d' ∧ d'.status = .cancelled := by
  have hcl : StaysClosed s s' id d := by
    refine h.closed_step hti hste hd (Or.inr hc) ?_
    intro organizationId _ ha
    obtain ⟨d', hd', -, hso, -⟩ := ha
    obtain rfl := some.inj (hd.symm.trans hd')
    rw [hc] at hso
    exact absurd (mem_singleton.mp hso) (by decide)
  obtain ⟨d', hd', -, hst⟩ := hcl.row
  exact ⟨d', hd', hst hc⟩

theorem Punctual.slot_le (h : s.Punctual id) {run : DcaRun} (hr : run ∈ s.store.runsOf id) :
    run.slotAt ≤ run.createdAt := by
  cases hd : s.store.schedules id with
  | none =>
    rw [h.absent hd] at hr
    cases hr
  | some d => exact (h.timely d hd).punctual run hr

theorem record_of_new_run (hst : Step s label s') (hn : s'.store.runsOf id ≠ s.store.runsOf id) :
    ∃ worker schedule, label = .record worker schedule := by
  cases moves_of_step id hst with
  | stays _ _ hr | created _ _ _ _ hr | set _ _ _ _ _ _ hr => exact absurd hr hn
  | ran worker schedule _ hl => exact ⟨worker, schedule, hl⟩

theorem Punctual.stays_closed {tr : List (Entry System Label)} (h : s.Punctual id)
    (hru : Run Step s tr t) (hti : ∀ e ∈ tr, InTime e)
    (hc : ∃ d, s.store.schedules id = some d ∧ (d.status = .paused ∨ d.status = .cancelled))
    (hr : ∀ e ∈ tr, ∀ organizationId, e.label = .request .resume organizationId id →
    ¬ e.pre.Accepts .resume organizationId id) :
    t.Punctual id ∧ ∃ d, t.store.schedules id = some d ∧
    (d.status = .paused ∨ d.status = .cancelled) := by
  refine hru.invariant_of_entries (I := fun s => s.Punctual id ∧ ∃ d,
    s.store.schedules id = some d ∧ (d.status = .paused ∨ d.status = .cancelled))
    (P := fun e => InTime e ∧ ∀ organizationId, e.label = .request .resume organizationId id →
      ¬ e.pre.Accepts .resume organizationId id) ?_ ?_ ⟨h, hc⟩
  · intro s a t ⟨hs, d, hd, hst⟩ ⟨hti, hr⟩ hste
    obtain ⟨d', hd', hs', -⟩ := (hs.closed_step hti hste hd hst hr).row
    exact ⟨hs.step hti hste, d', hd', hs'⟩
  · intro e he
    exact ⟨hti e he, hr e he⟩

theorem closed_of_accepted {kind : Request} {organizationId : String} (hk : kind ≠ .resume)
    (ha : s.Accepts kind organizationId id)
    (hst : Step s (.request kind organizationId id) s') :
    ∃ d, s'.store.schedules id = some d ∧ (d.status = .paused ∨ d.status = .cancelled) := by
  obtain ⟨d, hd, ho, hso, hf⟩ := ha
  cases hst with
  | request =>
    refine ⟨_, Schedules.transition_some hd .., ?_⟩
    rw [if_pos ⟨rfl, ho, hso, hf⟩]
    cases kind with
    | pause => exact Or.inl rfl
    | resume => exact absurd rfl hk
    | cancel => exact Or.inr rfl

end System

/-- If every worker that owns a lease records before it has run out: between an accepted pause
or cancel and the next accepted resume no run is recorded; a cancelled schedule stays
cancelled; every run is recorded at or after its slot; and no run is for the next slot of an
active schedule. -/
theorem runs_only_while_active {s t : System} {tr : List (Entry System Label)}
    (hfresh : s.Fresh) (hrun : Run Step s tr t) (htime : ∀ e ∈ tr, InTime e) (id : String) :
    (∀ before e between later after, tr = before ++ e :: (between ++ later :: after) →
      ∀ kind organizationId, e.label = .request kind organizationId id → kind ≠ .resume →
      e.pre.Accepts kind organizationId id →
      (∀ x ∈ between, ∀ org, x.label = .request .resume org id → ¬ x.pre.Accepts .resume org id) →
      later.post.store.runsOf id = later.pre.store.runsOf id) ∧
    (∀ e ∈ tr, ∀ d, e.pre.store.schedules id = some d → d.status = .cancelled →
      ∃ d', e.post.store.schedules id = some d' ∧ d'.status = .cancelled) ∧
    (∀ run ∈ t.store.runsOf id, run.slotAt ≤ run.createdAt) ∧
    ∀ d, t.store.schedules id = some d → d.status = .active →
      ∀ run ∈ t.store.runsOf id, run.slotAt ≠ d.nextRunAt := by
  have hst : ∀ s a t, System.Punctual s id → InTime ⟨s, a, t⟩ → Step s a t → t.Punctual id :=
    fun _ _ _ h htime hs => h.step htime hs
  refine ⟨?_, ?_, ?_, ?_⟩
  · intro before e between later after htr kind organizationId hl hk ha hre
    subst htr
    obtain ⟨hbe, he, hrest⟩ := hrun.around
    obtain ⟨hbet, hla, -⟩ := hrest.around
    have hpr : e.pre.Punctual id := hbe.invariant_of_entries hst
      (fun x hx => htime x (List.mem_append_left _ hx)) (hfresh.punctual id)
    have hpo : e.post.Punctual id := hpr.step (htime e (by simp)) he
    rw [hl] at he
    obtain ⟨hpu, d, hd, hcl⟩ := hpo.stays_closed hbet
      (fun x hx => htime x (by simp [hx])) (System.closed_of_accepted hk ha he) hre
    by_contra hn
    obtain ⟨worker, schedule, hr⟩ := System.record_of_new_run hla hn
    refine hn (hpu.closed_step (htime later (by simp)) hla hd hcl ?_).runs
    intro org hl
    rw [hr] at hl
    cases hl
  · intro e he d hd hc
    obtain ⟨hpr, hs⟩ := hrun.invariant_before hst htime (hfresh.punctual id) he
    exact hpr.cancelled_step (htime e he) hs hd hc
  · intro run hm
    have hpu : t.Punctual id := hrun.invariant_of_entries hst htime (hfresh.punctual id)
    exact hpu.slot_le hm
  · intro d hd _ run hm
    have hpu : t.Punctual id := hrun.invariant_of_entries hst htime (hfresh.punctual id)
    exact ((hpu.timely d hd).ahead run hm).ne

/-! ### Two schedules, one worker -/

def allAtOnce : DcaSchedule := { everyMinute with amountPerRunSol := 5 }

def twoSchedules : System where
  clock := 0
  store := ⟨fun id => if id = "dca_1" then some everyMinute
    else if id = "dca_2" then some allAtOnce else none, []⟩
  claims := []

theorem twoSchedules_fresh : twoSchedules.Fresh := by
  refine ⟨?_, rfl⟩
  intro id d hd
  unfold twoSchedules at hd
  dsimp only at hd
  split_ifs at hd
  · obtain rfl := some.inj hd
    exact ⟨by constructor <;> decide +kernel, rfl, rfl, rfl⟩
  · obtain rfl := some.inj hd
    exact ⟨by constructor <;> decide +kernel, rfl, rfl, rfl⟩

def bothClaimed : System where
  clock := 60000000
  store := { twoSchedules.store with schedules :=
    (twoSchedules.store.schedules.claimDue "w1" 30000000 "org" 60000000 ["dca_1", "dca_2"]).1 }
  claims := [("w1", .ofRow "dca_1" everyMinute), ("w1", .ofRow "dca_2" allAtOnce)]

theorem run_bothClaimed : ∃ tr, Run Step twoSchedules tr bothClaimed ∧ tr.map Entry.label =
    [.advance 60000000, .claim "w1" 30000000 "org" ["dca_1", "dca_2"]] ∧
    ∀ e ∈ tr, InTime e := by
  have h0 : Run Step twoSchedules [] twoSchedules := .nil
  have h1 := h0.snoc (a := .advance 60000000) (.advance (by decide))
  have hd : twoSchedules.store.schedules.claimDue "w1" 30000000 "org" 60000000
      ["dca_1", "dca_2"] = (bothClaimed.store.schedules,
        [.ofRow "dca_1" everyMinute, .ofRow "dca_2" allAtOnce]) :=
    Prod.ext rfl (by decide +kernel)
  have hclaim : Step { twoSchedules with clock := 60000000 }
      (.claim "w1" 30000000 "org" ["dca_1", "dca_2"]) bothClaimed :=
    .claim (s := { twoSchedules with clock := 60000000 }) hd
  refine ⟨_, h1.snoc hclaim, rfl, ?_⟩
  intro e he worker schedule d hl
  simp only [mem_append, mem_singleton, not_mem_nil, false_or] at he
  rcases he with rfl | rfl <;> cases hl

/-- The worker comes back when its lease has run out. The schedule that was cancelled in the
meantime gets a run and becomes completed. The one that was paused and resumed gets a run for a
slot that is still to come, and that slot stays its next one. -/
theorem lost_lease_still_records : ∃ tr t, Run Step twoSchedules tr t ∧ tr.map Entry.label =
      [.advance 60000000, .claim "w1" 30000000 "org" ["dca_1", "dca_2"], .advance 100000000,
        .request .cancel "org" "dca_2", .record "w1" (.ofRow "dca_2" allAtOnce),
        .request .pause "org" "dca_1", .request .resume "org" "dca_1",
        .record "w1" (.ofRow "dca_1" everyMinute)] ∧
    (∃ e ∈ tr, e.label = .request .cancel "org" "dca_2" ∧ e.post.store.runsOf "dca_2" = [] ∧
      (e.post.store.schedules "dca_2").map DcaSchedule.status = some .cancelled) ∧
    (t.store.runsOf "dca_2").length = 1 ∧
    (t.store.schedules "dca_2").map DcaSchedule.status = some .completed ∧
    (t.store.runsOf "dca_1").map (fun run => (run.slotAt, run.createdAt)) =
      [(160000000, 100000000)] ∧
    (t.store.schedules "dca_1").map (fun d => (d.status, d.nextRunAt)) =
      some (.active, 160000000) := by
  obtain ⟨tr, hc, hl, -⟩ := run_bothClaimed
  let lapsed : System := { bothClaimed with clock := 100000000 }
  let cancelled : System := { lapsed with store := { lapsed.store with
    schedules := lapsed.store.schedules.transition "org" "dca_2" [.active, .paused] .cancelled
      100000000 } }
  have h1 : Run Step twoSchedules _ lapsed :=
    hc.snoc (a := .advance 100000000) (.advance (by decide))
  have h2 : Run Step twoSchedules _ cancelled :=
    h1.snoc (a := .request .cancel "org" "dca_2") .request
  have h3 := h2.snoc (a := .record "w1" (.ofRow "dca_2" allAtOnce)) (.record (by decide +kernel))
  have h4 := h3.snoc (a := .request .pause "org" "dca_1") .request
  have h5 := h4.snoc (a := .request .resume "org" "dca_1") .request
  have h6 := h5.snoc (a := .record "w1" (.ofRow "dca_1" everyMinute)) (.record (by decide +kernel))
  refine ⟨_, _, h6, ?_, ⟨⟨lapsed, .request .cancel "org" "dca_2", cancelled⟩, ?_, rfl, ?_, ?_⟩,
    ?_, ?_, ?_, ?_⟩
  · simp only [List.map_append, hl]
    rfl
  · simp only [List.mem_append, List.mem_singleton, or_true, true_or]
  all_goals decide +kernel

theorem runs_only_while_active_in_time : ∃ tr t, Run Step twoSchedules tr t ∧ tr.map Entry.label =
      [.advance 60000000, .claim "w1" 30000000 "org" ["dca_1", "dca_2"],
        .record "w1" (.ofRow "dca_1" everyMinute), .request .pause "org" "dca_1",
        .request .resume "org" "dca_1"] ∧
    (t.store.runsOf "dca_1").length = 1 ∧
    (∀ run ∈ t.store.runsOf "dca_1", run.slotAt ≤ run.createdAt) ∧
    ∀ d, t.store.schedules "dca_1" = some d → d.status = .active →
      ∀ run ∈ t.store.runsOf "dca_1", run.slotAt ≠ d.nextRunAt := by
  obtain ⟨tr, hc, hla, hti⟩ := run_bothClaimed
  have h1 := hc.snoc (a := .record "w1" (.ofRow "dca_1" everyMinute)) (.record (by decide +kernel))
  have h2 := h1.snoc (a := .request .pause "org" "dca_1") .request
  have h3 := h2.snoc (a := .request .resume "org" "dca_1") .request
  refine ⟨_, _, h3, ?_, by decide +kernel,
    (runs_only_while_active twoSchedules_fresh h3 ?_ "dca_1").2.2⟩
  · simp only [List.map_append, hla]
    rfl
  · intro e he
    simp only [List.mem_append, List.mem_singleton] at he
    rcases he with ((he | rfl) | rfl) | rfl
    · exact hti e he
    · intro worker schedule d hl hd _
      cases hl
      have hh : (bothClaimed.store.schedules "dca_1").all
          fun d => d.lease.free 60000000 = false := by decide +kernel
      have hd : bothClaimed.store.schedules "dca_1" = some d := hd
      rw [hd] at hh
      exact of_decide_eq_true hh
    · intro worker schedule d hl
      cases hl
    · intro worker schedule d hl
      cases hl

end SniperBot.Dca
