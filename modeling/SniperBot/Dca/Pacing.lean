import Mathlib.Algebra.BigOperators.Group.List.Basic
import Mathlib.Algebra.Order.BigOperators.Group.List
import Mathlib.Tactic.Linarith
import SniperBot.Dca.Worker

/-!
# Budget and pacing of a schedule

While a tenant leaves a schedule alone, its spend is the sum of its runs and within the budget,
and its runs follow the slots of its interval. A worker whose lease has run out may still record,
if it was the last to claim the schedule.
-/

namespace SniperBot.Dca

open Lib.LeaseTable Lib.Slots Lib.Runs Function List Option Store DcaRun

/-- The columns that only a run changes, and those that nothing does. -/
structure DcaSchedule.SameTerms (d d' : DcaSchedule) : Prop where
  amount : d'.amountPerRunSol = d.amountPerRunSol
  interval : d'.intervalSecs = d.intervalSecs
  budget : d'.budgetSol = d.budgetSol
  spent : d'.spentSol = d.spentSol
  next : d'.nextRunAt = d.nextRunAt

theorem DcaSchedule.SameTerms.refl (d : DcaSchedule) : d.SameTerms d := ⟨rfl, rfl, rfl, rfl, rfl⟩

theorem DcaSchedule.Checks.of_same {d d' : DcaSchedule} (h : d.Checks) (hs : d.SameTerms d') :
    d'.Checks := by
  obtain ⟨ha, hi, hbu, hsp, -⟩ := hs
  constructor
  · rw [ha]
    exact h.amount_pos
  · rw [hi]
    exact h.interval_pos
  · rw [hbu]
    exact h.budget_pos
  · rw [hsp]
    exact h.spent_nonneg
  · rw [ha, hbu]
    exact h.covers_one_run
  · rw [hsp, hbu]
    exact h.spent_le

theorem DcaSchedule.Checks.period_pos {d : DcaSchedule} (h : d.Checks) : 0 < d.interval := by
  have hpos := h.interval_pos
  unfold DcaSchedule.interval
  omega

namespace System

structure Sound (s : System) (id : String) (d : DcaSchedule) : Prop where
  checks : d.Checks
  spent : d.spentSol = ((s.store.runsOf id).map amountSol).sum
  bounded : ∀ run ∈ s.store.runsOf id, run.amountSol ≤ d.amountPerRunSol
  paced : Paced d.interval slotAt createdAt (s.store.runsOf id) d.nextRunAt
  /-- Only a schedule that is due has a lease owner. -/
  due : d.lease.owner ≠ none → d.nextRunAt ≤ s.clock

variable {id : String} {d : DcaSchedule}

theorem Sound.of_same {s s' : System} {d d' : DcaSchedule} (h : s.Sound id d)
    (hs : d.SameTerms d') (hr : s'.store.runsOf id = s.store.runsOf id)
    (hd : d'.lease.owner ≠ none → d'.nextRunAt ≤ s'.clock) : s'.Sound id d' := by
  have hi : d'.interval = d.interval := by
    unfold DcaSchedule.interval
    rw [hs.interval]
  refine ⟨h.checks.of_same hs, ?_, ?_, ?_, hd⟩
  · rw [hs.spent, hr]
    exact h.spent
  · rw [hs.amount, hr]
    exact h.bounded
  · rw [hi, hs.next, hr]
    exact h.paced

theorem Sound.of_fresh {s : System} (hf : d.Fresh)
    (hr : s.store.runsOf id = []) : s.Sound id d := by
  refine ⟨hf.checks, ?_, ?_, ?_, ?_⟩
  · rw [hr, hf.spent]
    rfl
  · rw [hr]
    intro run hru
    cases hru
  · rw [hr]
    exact .nil _
  · intro ho
    rw [hf.lease] at ho
    exact absurd rfl ho

/-- A schedule that exists is sound, and one that does not has no runs. -/
structure Kept (s : System) (id : String) : Prop where
  absent : s.store.schedules id = none → s.store.runsOf id = []
  sound : ∀ d, s.store.schedules id = some d → s.Sound id d

theorem Kept.of_row {s : System}
    (hr : s.store.schedules id = some d) (h : s.Sound id d) : s.Kept id := by
  constructor
  · intro hn
    exact absurd (hr.symm.trans hn) (some_ne_none d)
  · intro d' hd'
    obtain rfl := some.inj (hr.symm.trans hd')
    exact h

end System

/-! ### Recording a run -/

namespace Store

variable {s : Store}

theorem runsOf_append_self {id : String} {run : DcaRun} (h : run.scheduleId = id)
    (schedules : Schedules) :
    (mk schedules (s.runs ++ [run])).runsOf id = s.runsOf id ++ [run] := by
  unfold runsOf
  rw [filter_append, filter_cons_of_pos (by simpa using h), filter_nil]

theorem runsOf_append_of_ne {id : String} {run : DcaRun} (h : run.scheduleId ≠ id)
    (schedules : Schedules) :
    (mk schedules (s.runs ++ [run])).runsOf id = s.runsOf id := by
  unfold runsOf
  rw [filter_append, filter_cons_of_neg (by simpa using h), filter_nil, append_nil]

theorem recordSlot_cases (schedule : DueSchedule) (worker : String) (now : Int) :
    (s.recordSlot schedule worker now).1 =
        { s with schedules := s.schedules.complete schedule worker } ∨
      (s.recordSlot schedule worker now).1 =
        { s with schedules := s.schedules.release schedule worker } ∨
      ∃ d, s.schedules schedule.id = some d ∧ s.Records schedule worker d ∧
        (s.recordSlot schedule worker now).1 = ⟨update s.schedules schedule.id
              (some (d.charged (intent schedule.id d now).amountSol now)),
            s.runs ++ [intent schedule.id d now]⟩ := by
  unfold recordSlot
  split_ifs
  · exact Or.inl rfl
  · cases hro : (s.schedules schedule.id).filter fun d => s.Records schedule worker d with
    | none => exact Or.inr (Or.inl rfl)
    | some d =>
      obtain ⟨hd, hr⟩ := filter_eq_some_iff.mp hro
      exact Or.inr (Or.inr ⟨d, hd, of_decide_eq_true hr, rfl⟩)

end Store

/-! ### What a step does to one schedule -/

inductive Sets (now : Int) (id : String) (d : DcaSchedule) : Label → DcaSchedule → Prop
  | claimed {label : Label} (lease : Lease String) : d.status = .active → d.nextRunAt ≤ now →
      Sets now id d label { d with lease := lease }
  | left {label : Label} {d' : DcaSchedule} : d.SameTerms d' → d'.lease = .released →
      (d'.status = d.status ∨ ∃ worker schedule, label = .record worker schedule ∧
        Schedules.Owned schedule worker id d) →
      Sets now id d label d'
  | requested (kind : Request) : d.status ∈ kind.sources → d.lease.free now = true →
      Sets now id d (.request kind d.organizationId id) (if kind.target = .active then
          { d with status := .active, nextRunAt := now + d.interval }
        else { d with status := kind.target })

inductive Moves (s : System) (id : String) (label : Label) (t : System) : Prop
  | stays : s.clock ≤ t.clock → t.store.schedules id = s.store.schedules id →
      t.store.runsOf id = s.store.runsOf id → Moves s id label t
  | created (d : DcaSchedule) : s.store.schedules id = none → d.Fresh →
      t.store.schedules id = some d → t.store.runsOf id = s.store.runsOf id → Moves s id label t
  | set (d d' : DcaSchedule) : s.store.schedules id = some d → Sets s.clock id d label d' →
      t.clock = s.clock → t.store.schedules id = some d' →
      t.store.runsOf id = s.store.runsOf id → Moves s id label t
  | ran (worker : String) (schedule : DueSchedule) (d : DcaSchedule) :
      label = .record worker schedule → schedule.id = id → s.store.schedules id = some d →
      s.store.Records schedule worker d → t.clock = s.clock →
      t.store.schedules id = some (d.charged (intent id d s.clock).amountSol s.clock) →
      t.store.runsOf id = s.store.runsOf id ++ [intent id d s.clock] → Moves s id label t

section

variable {s t : System} {id : String} {label : Label}

theorem moves_of_update {sel : String → DcaSchedule → Prop} [∀ i d, Decidable (sel i d)]
    {set : DcaSchedule → DcaSchedule} {claims : List (String × DueSchedule)}
    (hse : ∀ d, s.store.schedules id = some d → sel id d → Sets s.clock id d label (set d)) :
    Moves s id label
      { s with store := { s.store with schedules := s.store.schedules.update sel set }
               claims := claims } := by
  by_cases hr : ∃ d, s.store.schedules id = some d ∧ sel id d
  · obtain ⟨d, hd, hs⟩ := hr
    exact .set d (set d) hd (hse d hd hs) rfl (Table.update_of_sel hd hs) rfl
  · exact .stays le_rfl (Table.update_eq_of_not_sel fun d hd hs => hr ⟨d, hd, hs⟩) rfl

theorem moves_of_record (worker : String) (schedule : DueSchedule) :
    Moves s id (.record worker schedule)
      { s with store := (s.store.recordSlot schedule worker s.clock).1 } := by
  rcases s.store.recordSlot_cases schedule worker s.clock with hc | hc | hc
  · rw [hc]
    exact moves_of_update fun d _ ho =>
      .left ⟨rfl, rfl, rfl, rfl, rfl⟩ rfl (.inr ⟨worker, schedule, rfl, ho⟩)
  · rw [hc]
    exact moves_of_update fun d _ _ => .left ⟨rfl, rfl, rfl, rfl, rfl⟩ rfl (.inl rfl)
  · obtain ⟨d, hd, hr, hst⟩ := hc
    rw [hst]
    by_cases hi : schedule.id = id
    · subst hi
      exact .ran worker schedule d rfl rfl hd hr rfl (update_self ..) (runsOf_append_self rfl _)
    · exact .stays le_rfl (update_of_ne (Ne.symm hi) _ _) (runsOf_append_of_ne hi _)

theorem moves_of_step (id : String) (hst : Step s label t) : Moves s id label t := by
  cases hst with
  | advance hle => exact .stays hle rfl rfl
  | @create newId row hn hfr =>
    by_cases hi : id = newId
    · subst hi
      exact .created row hn hfr (update_self ..) rfl
    · exact .stays le_rfl (update_of_ne hi _ _) rfl
  | claim hclaim =>
    obtain ⟨rfl, -⟩ := Prod.mk.inj hclaim
    refine moves_of_update fun d hd hc => ?_
    obtain ⟨d', hd', hdu⟩ := Table.of_mem_select hc
    obtain rfl := some.inj (hd.symm.trans hd')
    exact .claimed _ hdu.2.1 hdu.2.2.1
  | record _ => exact moves_of_record _ _
  | fail _ =>
    exact moves_of_update fun d _ _ => .left ⟨rfl, rfl, rfl, rfl, rfl⟩ rfl (.inl rfl)
  | @request kind organizationId other =>
    refine moves_of_update fun d _ hse => ?_
    obtain ⟨rfl, rfl, hso, hf⟩ := hse
    exact .requested kind hso hf

end

theorem DcaSchedule.Checks.charged {d : DcaSchedule} (h : d.Checks) {amountSol : ℚ} {now : Int}
    (hn : 0 ≤ amountSol) (hle : d.spentSol + amountSol ≤ d.budgetSol) :
    (d.charged amountSol now).Checks :=
  ⟨h.amount_pos, h.interval_pos, h.budget_pos, add_nonneg h.spent_nonneg hn, h.covers_one_run, hle⟩

namespace System

variable {s : System}

theorem Sound.recorded {t : System} {id worker : String} {d : DcaSchedule}
    {schedule : DueSchedule} (h : s.Sound id d) (hre : s.store.Records schedule worker d)
    (hr : t.store.runsOf id = s.store.runsOf id ++ [intent id d s.clock]) :
    t.Sound id (d.charged (intent id d s.clock).amountSol s.clock) := by
  obtain ⟨⟨-, -, ho⟩, hbu, -⟩ := hre
  have hd : d.nextRunAt ≤ s.clock := by
    apply h.due
    rw [ho]
    exact some_ne_none worker
  have ha : 0 ≤ min d.amountPerRunSol (d.budgetSol - d.spentSol) :=
    le_min h.checks.amount_pos.le hbu.le
  have hw : d.spentSol + min d.amountPerRunSol (d.budgetSol - d.spentSol) ≤ d.budgetSol := by
    have hri := min_le_right d.amountPerRunSol (d.budgetSol - d.spentSol)
    linarith
  refine ⟨h.checks.charged ha hw, ?_, ?_, ?_, ?_⟩
  · rw [hr, map_append, sum_append, ← h.spent]
    simp [DcaSchedule.charged]
  · intro run hru
    rw [hr] at hru
    rcases mem_append.mp hru with hru | hru
    · exact h.bounded run hru
    · obtain rfl := mem_singleton.mp hru
      exact min_le_left _ _
  · rw [hr]
    exact Paced.snoc (b := intent id d s.clock) h.checks.period_pos h.paced rfl hd
  · intro hn
    exact absurd rfl hn

theorem Kept.step {id : String} {label : Label} {t : System} (h : s.Kept id)
    (hst : ∀ kind organizationId, label ≠ .request kind organizationId id)
    (hste : Step s label t) : t.Kept id := by
  cases moves_of_step id hste with
  | stays hc hro hr =>
    refine ⟨fun hn => hr.trans (h.absent (hro.symm.trans hn)), fun d hd => ?_⟩
    have hso := h.sound d (hro.symm.trans hd)
    exact hso.of_same (.refl d) hr fun ho => (hso.due ho).trans hc
  | created d hne hf hro hr =>
    exact .of_row hro (.of_fresh hf (hr.trans (h.absent hne)))
  | set d d' hd hse hc hro hr =>
    refine .of_row hro ?_
    cases hse with
    | claimed _ _ hdu =>
      exact (h.sound d hd).of_same ⟨rfl, rfl, rfl, rfl, rfl⟩ hr fun _ => hc ▸ hdu
    | left hsa hl =>
      exact (h.sound d hd).of_same hsa hr fun ho => absurd (congrArg _ hl) ho
    | requested kind => exact absurd rfl (hst kind _)
  | ran worker schedule d _ _ hd hre _ hro hr =>
    exact .of_row hro ((h.sound d hd).recorded hre hr)

structure Fresh (s : System) : Prop where
  schedules : ∀ id d, s.store.schedules id = some d → d.Fresh
  runs : s.store.runs = []

theorem Fresh.kept (h : s.Fresh) (id : String) : s.Kept id := by
  have hr : s.store.runsOf id = [] := by
    unfold runsOf
    rw [h.runs]
    rfl
  refine ⟨fun _ => hr, ?_⟩
  intro d hd
  exact .of_fresh (h.schedules id d hd) hr

theorem Kept.next_after_run {id : String} {label : Label} {s' : System} (h : s.Kept id)
    (hst : Step s label s') (hru : s'.store.runsOf id ≠ s.store.runsOf id) :
    ∃ d, s'.store.schedules id = some d ∧ s'.clock < d.nextRunAt := by
  cases moves_of_step id hst with
  | stays _ _ hr | created _ _ _ _ hr | set _ _ _ _ _ _ hr => exact absurd hr hru
  | ran _ _ d _ _ hd _ hc hro =>
    refine ⟨_, hro, ?_⟩
    rw [hc]
    exact lt_nextSlot (h.sound d hd).checks.period_pos _ _

end System

/-- As long as a tenant leaves the schedule alone: its spend is the sum of its runs and within
the budget; no run exceeds the amount per run; no slot has two runs; the slots of consecutive
runs are a positive number of intervals apart; and whenever a run was recorded, the next slot
lies in the future. However long no worker was there, of the slots that had passed by then at
most one gets a run. -/
theorem budget_and_pacing {s t : System} {tr : List (Entry System Label)} (hfresh : s.Fresh)
    (hrun : Run Step s tr t) {id : String}
    (hstays : ∀ e ∈ tr, ∀ kind organizationId, e.label ≠ .request kind organizationId id) :
    (∀ d, t.store.schedules id = some d →
      d.spentSol = ((t.store.runsOf id).map DcaRun.amountSol).sum ∧ d.spentSol ≤ d.budgetSol ∧
      (∀ run ∈ t.store.runsOf id, run.amountSol ≤ d.amountPerRunSol) ∧
      ((t.store.runsOf id).map DcaRun.slotAt).Nodup ∧
      ((t.store.runsOf id).IsChain fun a b =>
        ∃ k : ℕ, 0 < k ∧ b.slotAt = a.slotAt + k * d.interval) ∧
      ∀ moment : Int, ((t.store.runsOf id).filter fun run =>
        run.slotAt ≤ moment ∧ moment ≤ run.createdAt).length ≤ 1) ∧
    ∀ e ∈ tr, e.post.store.runsOf id ≠ e.pre.store.runsOf id →
      ∃ d, e.post.store.schedules id = some d ∧ e.post.clock < d.nextRunAt := by
  have hst : ∀ s a t, System.Kept s id →
      (∀ kind organizationId, a ≠ .request kind organizationId id) → Step s a t → t.Kept id :=
    fun _ _ _ h hP hs => h.step hP hs
  constructor
  · intro d hd
    have hkept : t.Kept id := hrun.invariant_of_entries hst hstays (hfresh.kept id)
    have hso := hkept.sound d hd
    exact ⟨hso.spent, hso.checks.spent_le, hso.bounded,
      hso.paced.nodup hso.checks.period_pos, hso.paced.chain.imp fun _ _ h => h.1,
      hso.paced.made_up⟩
  · intro e he ha
    obtain ⟨hkept, hs⟩ := hrun.invariant_before hst hstays (hfresh.kept id) he
    exact hkept.next_after_run hs ha

def everyMinute : DcaSchedule where
  organizationId := "org"
  mint := "So11111111111111111111111111111111111111112"
  amountPerRunSol := 3
  intervalSecs := 60
  budgetSol := 5
  spentSol := 0
  status := .active
  createdAt := 0
  nextRunAt := 60000000
  lastRunAt := none
  lease := .released
  attempts := 0
  lastError := none

def oneSchedule : System where
  clock := 0
  store := ⟨update (fun _ => none) "dca_1" (some everyMinute), []⟩
  claims := []

theorem oneSchedule_fresh : oneSchedule.Fresh := by
  refine ⟨?_, rfl⟩
  intro id d hd
  have hso : (update (fun _ => none) "dca_1" (some everyMinute) :
      String → Option DcaSchedule) id = some d := hd
  rw [update_apply] at hso
  split_ifs at hso
  obtain rfl := some.inj hso
  exact ⟨by constructor <;> decide +kernel, rfl, rfl, rfl⟩

/-- The first worker comes at 200 seconds, when three slots have passed. Only the first of them
gets a run; the next slot is at 240 seconds, and its run takes what is left. -/
theorem budget_and_pacing_after_outage : ∃ tr t, Run Step oneSchedule tr t ∧
    (t.store.runsOf "dca_1").map (fun run => (run.slotAt, run.amountSol)) =
      [(60000000, 3), (240000000, 2)] ∧
    (t.store.schedules "dca_1").map DcaSchedule.status = some .completed ∧
    (∀ d, t.store.schedules "dca_1" = some d →
      d.spentSol = ((t.store.runsOf "dca_1").map DcaRun.amountSol).sum ∧
      d.spentSol ≤ d.budgetSol ∧
      (∀ run ∈ t.store.runsOf "dca_1", run.amountSol ≤ d.amountPerRunSol) ∧
      ((t.store.runsOf "dca_1").map DcaRun.slotAt).Nodup ∧
      ((t.store.runsOf "dca_1").IsChain fun a b =>
        ∃ k : ℕ, 0 < k ∧ b.slotAt = a.slotAt + k * d.interval) ∧
      ∀ moment : Int, ((t.store.runsOf "dca_1").filter fun run =>
        run.slotAt ≤ moment ∧ moment ≤ run.createdAt).length ≤ 1) ∧
    ∀ e ∈ tr, e.post.store.runsOf "dca_1" ≠ e.pre.store.runsOf "dca_1" →
      ∃ d, e.post.store.schedules "dca_1" = some d ∧ e.post.clock < d.nextRunAt := by
  let first := DueSchedule.ofRow "dca_1" everyMinute
  let second : DueSchedule := { first with spentSol := 3, nextRunAt := 240000000 }
  have h0 : Run Step oneSchedule [] oneSchedule := .nil
  have h1 := h0.snoc (a := .advance 200000000) (.advance (by decide))
  have h2 := h1.snoc (a := .claim "w1" 60000000 "org" ["dca_1"]) (.claim rfl)
  have h3 := h2.snoc (a := .record "w1" first) (.record (by decide +kernel))
  have h4 := h3.snoc (a := .advance 240000000) (.advance (by decide))
  have h5 := h4.snoc (a := .claim "w2" 60000000 "org" ["dca_1"]) (.claim rfl)
  have h6 := h5.snoc (a := .record "w2" second) (.record (by decide +kernel))
  refine ⟨_, _, h6, by decide +kernel, by decide +kernel, budget_and_pacing oneSchedule_fresh h6 ?_⟩
  intro e he kind organizationId
  simp only [List.mem_append, List.mem_singleton, List.not_mem_nil, false_or] at he
  rcases he with ((((rfl | rfl) | rfl) | rfl) | rfl) | rfl <;> exact Label.noConfusion

end SniperBot.Dca
