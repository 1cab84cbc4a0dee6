import Mathlib.Tactic.Linarith
import SniperBot.Dca.Worker
import SniperBot.Lib.Interleaving

/-!
# The DCA scheduler of one process

A pass lists the schedules of its organization and records a run for each that is due, one call of
the store after another. It sizes a run by what it has listed. Times are nanoseconds and amounts
exact.
-/

namespace SniperBot.Sniper.Dca

open Lib.Runs Lib.Interleaving Lib.Slots List
open SniperBot.Dca (DcaStatus)

structure DcaSchedule where
  id : String
  mint : String
  amountPerRunSol : ℚ
  intervalSecs : ℕ
  budgetSol : ℚ
  spentSol : ℚ
  status : DcaStatus
  nextRunAt : Int
  deriving DecidableEq

def lamportSol : ℚ := 1 / 1000000000

structure DcaRun where
  scheduleId : String
  mint : String
  amountSol : ℚ
  finalRun : Bool
  /-- The due time that the run is for. The source does not keep it. -/
  slot : Int

namespace DcaSchedule

variable (d : DcaSchedule)

def remainingBudgetSol : ℚ :=
  if d.budgetSol - d.spentSol < lamportSol then 0 else d.budgetSol - d.spentSol

def budgetExhausted : Bool := d.remainingBudgetSol ≤ 0

def nextRunAmountSol : ℚ := min d.amountPerRunSol d.remainingBudgetSol

def due (now : Int) : Bool := d.status = .active ∧ ¬ d.budgetExhausted ∧ d.nextRunAt ≤ now

def run : DcaRun where
  scheduleId := d.id
  mint := d.mint
  amountSol := d.nextRunAmountSol
  finalRun := d.budgetSol - lamportSol ≤ d.spentSol + d.nextRunAmountSol
  slot := d.nextRunAt

/-- The next slot is whole intervals on, and past `now`. -/
def charged (allowed : ℚ) (now : Int) : DcaSchedule :=
  let interval : Int := (max d.intervalSecs 1 : ℕ) * 1000000000
  let d := { d with
    spentSol := d.spentSol + allowed
    nextRunAt := nextSlot interval d.nextRunAt (max d.nextRunAt now) }
  if d.budgetExhausted then { d with status := .completed } else d

end DcaSchedule

abbrev Store := List DcaSchedule

def listOpen (store : Store) : List DcaSchedule :=
  store.filter fun d => d.status ≠ .completed ∧ d.status ≠ .cancelled

def recordRun (id : String) (amountSol : ℚ) (now : Int) : Store → Except String Store
  | [] => .error ("dca " ++ id ++ " not found")
  | d :: store =>
    if d.id = id then
      let allowed := min amountSol d.remainingBudgetSol
      if allowed ≤ 0 then .error "dca: run refused — budget already exhausted"
      else .ok (d.charged allowed now :: store)
    else (recordRun id amountSol now store).map (d :: ·)

inductive Section where
  | list (now : Int)
  | record (now : Int) (schedules : List DcaSchedule) (runs : List DcaRun)

/-- What `run_once` does, call after call. A call that fails ends the pass. -/
def act : Section → Store → Store × (Section ⊕ Except String (List DcaRun))
  | .list now, store =>
    let schedules := (listOpen store).filter fun d => d.due now ∧ 0 < d.nextRunAmountSol
    (store, .inl (.record now schedules []))
  | .record _ [] runs, store => (store, .inr (.ok runs))
  | .record now (d :: schedules) runs, store =>
    match recordRun d.id d.nextRunAmountSol now store with
    | .ok store => (store, .inl (.record now schedules (runs ++ [d.run])))
    | .error e => (store, .inr (.error e))

def IsCall (k : Section) : Prop := ∃ now, k = .list now

abbrev Action := Label Section (Except String (List DcaRun))

def stored (id : String) (store : Store) : Option DcaSchedule := store.find? (·.id = id)

/-- A run is recorded on the schedule as it was listed. -/
def asListed (e : Entry (State Store Section) Action) : Bool :=
  match e.label with
  | .act (.record _ (d :: _) _) _ => stored d.id e.pre.shared = some d
  | _ => true

/-- The run that a pass puts on its list, now that the store has recorded it. -/
def released : Action → List DcaRun
  | .act (.record _ (d :: _) _) (.inl _) => [d.run]
  | _ => []

def runsOf (id : String) (tr : List (Entry (State Store Section) Action)) : List DcaRun :=
  (tr.flatMap (released ·.label)).filter (·.scheduleId = id)

variable {id : String} {store store' : Store} {d : DcaSchedule} {now : Int} {amountSol : ℚ}
  {s t : State Store Section} {a : Action} {tr : List (Entry (State Store Section) Action)}

open DcaSchedule

theorem charged_spent (allowed : ℚ) (now : Int) :
    (d.charged allowed now).spentSol = d.spentSol + allowed ∧
    (d.charged allowed now).budgetSol = d.budgetSol ∧ (d.charged allowed now).id = d.id ∧
    d.nextRunAt < (d.charged allowed now).nextRunAt := by
  have hi : (0 : Int) < (max d.intervalSecs 1 : ℕ) * 1000000000 := by omega
  have hn := (le_max_left _ now).trans_lt (lt_nextSlot hi d.nextRunAt (max d.nextRunAt now))
  unfold charged
  dsimp only
  split <;> exact ⟨rfl, rfl, rfl, hn⟩

theorem recordRun_ok (h : recordRun id amountSol now store = .ok store') :
    ∃ d, stored id store = some d ∧ 0 < min amountSol d.remainingBudgetSol ∧
    stored id store' = some (d.charged (min amountSol d.remainingBudgetSol) now) ∧
    ∀ id' ≠ id, stored id' store' = stored id' store := by
  induction store generalizing store' with
  | nil => cases h
  | cons d store ih =>
    rw [recordRun] at h
    split_ifs at h with hd
    · dsimp only at h
      split_ifs at h with hz
      cases h
      simp only [stored, find?_cons, (charged_spent (d := d) _ now).2.2.1, hd]
      exact ⟨d, by simp, not_le.mp hz, by simp, fun id' hi => by simp [hi.symm]⟩
    · cases hr : recordRun id amountSol now store with
      | error e => simp [hr, Except.map] at h
      | ok rest =>
        obtain rfl : d :: rest = store' := by simpa [hr, Except.map] using h
        obtain ⟨d', hs, hp, hc, ho⟩ := ih hr
        have hco : ∀ (id' : String) (xs : Store), stored id' (d :: xs) =
          if d.id = id' then some d else stored id' xs := fun id' xs => by
            by_cases hi : d.id = id' <;> simp [stored, hi]
        simp only [hco, if_neg hd]
        exact ⟨d', hs, hp, hc, fun id' hi => by rw [ho id' hi]⟩

/-- The runs are for slots before the next one and add up to what is spent. -/
structure Sound (runs : List DcaRun) (d : DcaSchedule) : Prop where
  spent : (runs.map DcaRun.amountSol).sum = d.spentSol
  le_budget : d.spentSol ≤ d.budgetSol
  slots : (runs.map DcaRun.slot).Nodup
  past : ∀ r ∈ runs, r.slot < d.nextRunAt

theorem Sound.charged {runs : List DcaRun} (h : Sound runs d)
    (hp : 0 < min d.nextRunAmountSol d.remainingBudgetSol) :
    Sound (runs ++ [d.run]) (d.charged (min d.nextRunAmountSol d.remainingBudgetSol) now) := by
  obtain ⟨hs, hb, -, hn⟩ := charged_spent (d := d) (min d.nextRunAmountSol d.remainingBudgetSol) now
  have hm : min d.nextRunAmountSol d.remainingBudgetSol = d.nextRunAmountSol :=
    min_eq_left (min_le_right _ _)
  rw [hm] at hp hs hb hn ⊢
  have hle : d.nextRunAmountSol ≤ d.budgetSol - d.spentSol := by
    have hr : d.nextRunAmountSol ≤ d.remainingBudgetSol := min_le_right _ _
    unfold remainingBudgetSol at hr
    split_ifs at hr
    · exact absurd hp (not_lt.mpr hr)
    · exact hr
  constructor
  · simp [hs, h.spent, run]
  · rw [hs, hb]
    linarith
  · rw [map_append, map_singleton, ← concat_eq_append, nodup_concat]
    refine ⟨fun hi => ?_, h.slots⟩
    obtain ⟨r, hr, he⟩ := mem_map.mp hi
    exact (h.past r hr).ne he
  · intro r hr
    rcases mem_append.mp hr with hr | hr
    · exact (h.past r hr).trans hn
    · rwa [mem_singleton.mp hr]

theorem sound_step (h : ∃ d', stored id s.shared = some d' ∧ d'.budgetSol = d.budgetSol ∧
    Sound (runsOf id tr) d') (hl : asListed ⟨s, a, t⟩ = true) (hs : Step act IsCall s a t) :
    ∃ d', stored id t.shared = some d' ∧ d'.budgetSol = d.budgetSol ∧
    Sound (runsOf id (tr ++ [⟨s, a, t⟩])) d' := by
  obtain ⟨d', hd, hb, h⟩ := h
  have hsn : runsOf id (tr ++ [⟨s, a, t⟩]) =
      runsOf id tr ++ (released a).filter (·.scheduleId = id) := by simp [runsOf]
  rw [hsn]
  rcases hs.shared_cases with ⟨k, rfl, hsh⟩ | ⟨k, -, rfl, hsh⟩
  · exact ⟨d', hsh ▸ hd, hb, by simpa [released] using h⟩
  rw [hsh]
  match k, hl with
  | .list now, _ | .record now [] _, _ => exact ⟨d', hd, hb, by simpa [act, released] using h⟩
  | .record now (q :: schedules) runs, hl =>
    cases hr : recordRun q.id q.nextRunAmountSol now s.shared with
    | error e => exact ⟨d', by simpa [act, hr] using hd, hb, by simpa [act, hr, released] using h⟩
    | ok store' =>
      obtain ⟨q', hq, hp, hc, ho⟩ := recordRun_ok hr
      obtain rfl : q = q' := Option.some.inj ((of_decide_eq_true hl).symm.trans hq)
      simp only [act, hr, released]
      by_cases hi : id = q.id
      · subst hi
        obtain rfl : d' = q := Option.some.inj (hd.symm.trans hq)
        refine ⟨_, hc, (charged_spent _ now).2.1.trans hb, ?_⟩
        simpa [run] using h.charged hp
      · exact ⟨d', (ho id hi).trans hd, hb, by simpa [run, Ne.symm hi] using h⟩

/-- Where every run is recorded on the schedule as it was listed, the runs released of a schedule
add up to what it is charged, which its budget covers, and no two are for one slot. -/
theorem released_within_budget (hrun : Run (Step act IsCall) ⟨store, []⟩ tr t)
    (hl : ∀ e ∈ tr, asListed e = true) (hd : stored id store = some d) (h0 : d.spentSol = 0)
    (hb : 0 < d.budgetSol) :
    ∃ d', stored id t.shared = some d' ∧ d'.budgetSol = d.budgetSol ∧
      ((runsOf id tr).map DcaRun.amountSol).sum ≤ d'.spentSol ∧ d'.spentSol ≤ d.budgetSol ∧
      ((runsOf id tr).map DcaRun.slot).Nodup := by
  obtain ⟨d', hd', hb', h⟩ := hrun.invariant_history (I := fun tr t => ∃ d', stored id t.shared =
      some d' ∧ d'.budgetSol = d.budgetSol ∧ Sound (runsOf id tr) d')
    (fun _ _ _ _ => sound_step) hl
    ⟨d, hd, rfl, h0.symm, h0.trans_le hb.le, List.nodup_nil, fun _ hr => nomatch hr⟩
  exact ⟨d', hd', hb', h.spent.le, hb' ▸ h.le_budget, h.slots⟩

private def oneAndAHalf : DcaSchedule := ⟨"dca", "MINT", 1, 60, 3 / 2, 0, .active, 0⟩

theorem released_within_budget_in_turn : ∃ tr t, Run (Step act IsCall) ⟨[oneAndAHalf], []⟩ tr t ∧
      (runsOf "dca" tr).map DcaRun.amountSol = [1, 1 / 2] ∧ ∃ d, stored "dca" t.shared = some d ∧
        ((runsOf "dca" tr).map DcaRun.amountSol).sum ≤ d.spentSol ∧ d.spentSol ≤ 3 / 2 := by
  obtain ⟨tr, t, hr, hl, ha⟩ : ∃ tr t, Run (Step act IsCall) ⟨[oneAndAHalf], []⟩ tr t ∧
      (∀ e ∈ tr, asListed e = true) ∧ (runsOf "dca" tr).map DcaRun.amountSol = [1, 1 / 2] :=
    exists_run_of_follow [.call (.list 0), .go 0, .go 0, .go 0, .call (.list 60000000000), .go 0,
      .go 0, .go 0] (by simp [Move.Allowed, IsCall]) (by decide +kernel)
  obtain ⟨d, hd, -, hs, hb, -⟩ :=
    @released_within_budget "dca" _ oneAndAHalf t tr hr hl (by decide +kernel) rfl (by decide +kernel)
  exact ⟨tr, t, hr, ha, d, hd, hs, hb⟩

/-- Two passes list before either records: both release the whole amount for the first slot, and
the store charges the second with what is left. -/
theorem two_passes_overspend :
    ∃ tr t, Run (Step act IsCall) ⟨[oneAndAHalf], []⟩ tr t ∧ t.running = [] ∧
      t.shared.map (fun d => (d.budgetSol, d.spentSol)) = [(3 / 2, 3 / 2)] ∧
      (runsOf "dca" tr).map (fun r => (r.amountSol, r.slot)) = [(1, 0), (1, 0)] :=
  exists_run_of_follow [.call (.list 0), .call (.list 0), .go 0, .go 1, .go 0, .go 1, .go 0, .go 0]
    (by simp [Move.Allowed, IsCall]) (by decide +kernel)

end SniperBot.Sniper.Dca
