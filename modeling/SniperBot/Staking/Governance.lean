import SniperBot.Lib.Timelock
import SniperBot.Staking.Reference

/-!
# Governance over whole runs

The configuration as a timelocked value: the parameters are its live value, the
pending update its queue. What a deployment fixes for good, and what only an
applied update can change, is stated here for runs from any well-formed state.
-/

namespace SniperBot.Staking

open Lib.MachineInt Lib.Runs Option List
open Lib (Timelock.Queued Timelock.State Timelock.Event Timelock.Step)

section

variable {Pubkey : Type}

structure Params where
  feeBps : UInt16
  rewardRateBps : UInt64
  minStake : UInt64
  unstakeDelay : Int64
  timelockSecs : Int64
  deriving DecidableEq

def Config.live (c : Config Pubkey) : Params :=
  ⟨c.feeBps, c.rewardRateBps, c.minStake, c.unstakeDelay, c.timelockSecs⟩

def PendingParams.values (p : PendingParams) : Params :=
  ⟨p.feeBps, p.rewardRateBps, p.minStake, p.unstakeDelay, p.timelockSecs⟩

/-- When a queued update becomes applicable, by the timelock in force. -/
def eligibleAt (queuedAt timelockSecs : Int64) : Int :=
  (I64.saturatingAdd queuedAt timelockSecs).toInt

def timelockOf : Option (Config Pubkey) → Timelock.State Params
  | none => ⟨none, none⟩
  | some c =>
    ⟨some c.live, if c.pending.active then
      some ⟨c.pending.values, eligibleAt c.pending.queuedAt c.timelockSecs⟩ else none⟩

variable [Inhabited Pubkey] {c c' : Option (Config Pubkey)} {now : Int64} {a : Action Pubkey}

/-- What a step at time `now`, from one configuration to another, does to the timelock. -/
def timelockEvent (now : Int64) (c c' : Option (Config Pubkey)) :
    Action Pubkey → Timelock.Event Params
  | .execute _ (.initializeConfig ..) => .start (c'.getD default).live
  | .execute _ (.updateParams fee rate minStake delay timelock) =>
    .queue ⟨((c.getD default).resolveUpdate fee rate minStake delay timelock).values,
      eligibleAt now (c.getD default).timelockSecs⟩
  | .execute _ .cancelParams => .cancel
  | .execute _ .applyParams => .apply now.toInt
  | _ => .other

def TouchesQueue : Action Pubkey → Prop
  | .execute _ (.updateParams ..) | .execute _ .cancelParams | .execute _ .applyParams => True
  | _ => False

theorem timelockEvent_other (h : timelockEvent now c c' a = .other) : ¬ TouchesQueue a := by
  intro ht
  unfold TouchesQueue at ht
  split at ht
  · simp [timelockEvent] at h
  · simp [timelockEvent] at h
  · simp [timelockEvent] at h
  · exact ht

theorem timelockEvent_apply {n : Int} (h : timelockEvent now c c' a = .apply n) :
    ∃ accounts, a = .execute accounts .applyParams ∧ n = now.toInt := by
  unfold timelockEvent at h
  split at h
  all_goals first
    | contradiction
    | exact ⟨_, rfl, (Timelock.Event.apply.inj h).symm⟩

theorem timelockEvent_queue {q : Timelock.Queued Params} (h : timelockEvent now c c' a = .queue q) :
    ∃ accounts fee rate minStake delay timelock,
    a = .execute accounts (.updateParams fee rate minStake delay timelock) ∧
    q = ⟨((c.getD default).resolveUpdate fee rate minStake delay timelock).values,
      eligibleAt now (c.getD default).timelockSecs⟩ := by
  unfold timelockEvent at h
  split at h
  all_goals first
    | contradiction
    | exact ⟨_, _, _, _, _, _, rfl, (Timelock.Event.queue.inj h).symm⟩

theorem governed_timelock {accounts : List (AccountMeta Pubkey)}
    {c c' : Config Pubkey} {ix : StakingInstruction Pubkey}
    (h : Governed now accounts c ix c') :
    Timelock.Step (timelockOf (some c)) (timelockEvent now (some c) (some c') (.execute accounts ix))
    (timelockOf (some c')) := by
  cases h with
  | @queue fee rate minStake delay timelock p hp hl hi hc =>
    subst hp
    simp only [timelockOf, hi, timelockEvent]
    exact .queue
  | apply ha he hc =>
    simp only [timelockOf, ha]
    exact .apply (Int64.le_iff_toInt_le.mp he)
  | cancel hl ha =>
    simp only [timelockOf, ha]
    exact .cancel
  | pause | unpause | transferAdmin | acceptAdmin => exact .other

end

variable {Pubkey : Type} [DecidableEq Pubkey] [Inhabited Pubkey] {rt : Runtime Pubkey}
  {w w' : World Pubkey} {a : Action Pubkey} {c c' : Config Pubkey}
  {tr : List (Entry (World Pubkey) (Action Pubkey))}

theorem configStep_timelock {now : Int64} {accounts : List (AccountMeta Pubkey)}
    {o o' : Option (Config Pubkey)} {ix : StakingInstruction Pubkey}
    (h : ConfigStep rt now accounts o ix o') :
    Timelock.Step (timelockOf o) (timelockEvent now o o' (.execute accounts ix)) (timelockOf o') := by
  cases h with
  | deploy hc hled =>
    subst hc
    exact .start
  | govern hg => exact governed_timelock hg
  | genesis hled hl => exact .other
  | keep hi =>
    cases ix with
    | stake | unstake | claim | createTokenMetadata => exact .other
    | _ => contradiction

theorem config_kept (hs : Step rt w a w') (ha : ∀ accounts ix, a ≠ .execute accounts ix) :
    w'.configOf rt = w.configOf rt := by
  cases hs with
  | execute => exact absurd rfl (ha _ _)
  | reject => rfl
  | environment he => exact World.configOf_congr (he.pda_kept isPda_configKey)

theorem timelock_step (h : WellFormed rt w) (hs : Step rt w a w') :
    Timelock.Step (timelockOf (w.configOf rt))
    (timelockEvent w.clock (w.configOf rt) (w'.configOf rt) a)
    (timelockOf (w'.configOf rt)) := by
  cases a with
  | execute accounts ix =>
    cases hs with
    | execute ha ho => exact configStep_timelock (instruction_outcome h ha ho).config
  | reject accounts ix | environment =>
    rw [config_kept hs (by simp)]
    exact .other

def timelockEntry (ids : Addresses Pubkey) (e : Entry (World Pubkey) (Action Pubkey)) :
    Entry (Timelock.State Params) (Timelock.Event Params) :=
  ⟨timelockOf (e.pre.configOf ids),
    timelockEvent e.pre.clock (e.pre.configOf ids) (e.post.configOf ids) e.label,
    timelockOf (e.post.configOf ids)⟩

theorem timelock_run (h : WellFormed rt w) (hr : Run (Step rt) w tr w') :
    Run Timelock.Step (timelockOf (w.configOf rt))
    (tr.map (timelockEntry rt)) (timelockOf (w'.configOf rt)) :=
  hr.simulate (fun w => timelockOf (w.configOf rt)) _
    (fun _ _ _ hw hs => wellFormed_step hw hs) (fun _ _ _ hw hs => timelock_step hw hs) h

/-! ## What a deployment fixes -/

theorem sameDeployment_step (h : WellFormed rt w) (hs : Step rt w a w')
    (hc : w.configOf rt = some c) :
    ∃ c', w'.configOf rt = some c' ∧ SameDeployment c c' ∧
    (c.genesisDone = true → c'.genesisDone = true) := by
  cases a with
  | execute accounts ix =>
    cases hs with
    | execute ha ho =>
      have hcs := (instruction_outcome h ha ho).config
      rw [hc] at hcs
      generalize w'.configOf rt = o' at hcs ⊢
      cases hcs with
      | @govern _ c' _ hgo =>
        obtain ⟨hsa, -, hd⟩ := governed_same hgo
        exact ⟨c', rfl, hsa, fun hg => hd.trans hg⟩
      | genesis => exact ⟨_, rfl, ⟨rfl, rfl, rfl, rfl⟩, fun _ => rfl⟩
      | keep => exact ⟨c, rfl, .refl c, id⟩
  | reject accounts ix | environment =>
    exact ⟨c, (config_kept hs (by simp)).trans hc, .refl c, id⟩

section

variable (h : WellFormed rt w) (hr : Run (Step rt) w tr w') (hc : w.configOf rt = some c)

include h hr hc

theorem sameDeployment_run : ∃ c', w'.configOf rt = some c' ∧ SameDeployment c c' := by
  induction hr with
  | nil => exact ⟨c, hc, .refl c⟩
  | snoc hr hs ih =>
    obtain ⟨c1, hc1, h1⟩ := ih
    obtain ⟨c2, hc2, h2, -⟩ := sameDeployment_step (wellFormed_run h hr) hs hc1
    exact ⟨c2, hc2, h2.mint.trans h1.mint, h2.vault.trans h1.vault, h2.bump.trans h1.bump,
      h2.maxSupply.trans h1.maxSupply⟩

theorem live_run_of_no_apply (hc' : w'.configOf rt = some c')
    (hn : ∀ e ∈ tr, ∀ accounts, e.label ≠ .execute accounts .applyParams) :
    c'.live = c.live := by
  have hru := timelock_run h hr
  rw [hc, hc'] at hru
  by_contra hne
  obtain ⟨before, e, after, now, hsp, he, -⟩ :=
    Lib.Timelock.live_changed hru (by simp [timelockOf]) fun heq =>
      hne (some.inj heq)
  have hm : e ∈ tr.map (timelockEntry rt) := by
    rw [hsp]
    simp
  obtain ⟨e0, he0, rfl⟩ := mem_map.mp hm
  obtain ⟨accounts, hl, -⟩ := timelockEvent_apply he
  exact hn e0 he0 accounts hl

end

/-! ## The origin of every change -/

theorem eligibleAt_eq {queuedAt timelock : Int64} (h : 0 ≤ timelock) :
    eligibleAt queuedAt timelock = min (queuedAt.toInt + timelock.toInt) I64.maxInt := by
  have h0 : 0 ≤ timelock.toInt := Int64.le_iff_toInt_le.mp h
  have hq := I64.minInt_le queuedAt
  unfold eligibleAt
  rw [I64.toInt_saturatingAdd]
  unfold I64.minInt I64.maxInt at *
  omega

/-- A successful `UpdateParams` by the admin of the time, from configuration `c`. -/
structure QueuedBy (ids : Addresses Pubkey) (e : Entry (World Pubkey) (Action Pubkey))
    (c : Config Pubkey) (values : Params) : Prop where
  config : e.pre.configOf ids = some c
  update : ∃ accounts fee rate minStake delay timelock,
    e.label = .execute accounts (.updateParams fee rate minStake delay timelock) ∧
    LedBy accounts c.admin ∧
    values = (c.resolveUpdate fee rate minStake delay timelock).values

theorem queuedBy_of_step {q : Timelock.Queued Params}
    {e : Entry (World Pubkey) (Action Pubkey)} (h : WellFormed rt e.pre)
    (hs : Step rt e.pre e.label e.post)
    (hq : (timelockEntry rt e).label = .queue q) :
    ∃ c, QueuedBy rt e c q.values ∧
    q.ready = min (e.pre.clock.toInt + c.timelockSecs.toInt) I64.maxInt := by
  obtain ⟨accounts, fee, rate, minStake, delay, timelock, hl, rfl⟩ := timelockEvent_queue hq
  rw [hl] at hs
  cases hs with
  | execute ha ho =>
    obtain ⟨c, c', hc, hg, -⟩ := processQueueUpdate_ok ho
    have hlo := (h.deployed hc).caps.timelock.1
    simp only [hc]
    refine ⟨c, ⟨hc, accounts, fee, rate, minStake, delay, timelock, hl, ?_, rfl⟩, eligibleAt_eq hlo⟩
    cases hg with
    | queue hp hled hi hca => exact hled

/-- In every reachable state the parameters are within the caps. Whenever they
differ from an earlier state of the deployment, an `ApplyParams` since then set
the values that the admin of the time had queued, no earlier than the timelock in
force at queue time after it (or at the last representable time), and nothing
queued, cancelled or applied an update in between. -/
theorem timelocked_governance {w0 w1 w2 : World Pubkey} {c1 c2 : Config Pubkey}
    {tr1 tr2 : List (Entry (World Pubkey) (Action Pubkey))}
    (hf : Fresh rt.toAddresses w0) (h1 : Run (Step rt) w0 tr1 w1) (h2 : Run (Step rt) w1 tr2 w2)
    (hc1 : w1.configOf rt.toAddresses = some c1) (hc2 : w2.configOf rt.toAddresses = some c2) :
    (c2.feeBps.toNat ≤ 1000 ∧ c2.rewardRateBps.toNat ≤ 10000 ∧
      0 ≤ c2.timelockSecs.toInt ∧ c2.timelockSecs.toInt ≤ 30 * 24 * 60 * 60) ∧
    (c2.live ≠ c1.live → ∃ before queue between tail apply after c,
      tr2 = tail ++ apply :: after ∧ tr1 ++ tail = before ++ queue :: between ∧
      QueuedBy rt.toAddresses queue c c2.live ∧
      (∃ accounts, apply.label = .execute accounts .applyParams) ∧
      min (queue.pre.clock.toInt + c.timelockSecs.toInt) I64.maxInt ≤ apply.pre.clock.toInt ∧
      (∀ e ∈ between, ¬ TouchesQueue e.label) ∧
      ∀ e ∈ after, ∀ accounts, e.label ≠ .execute accounts .applyParams) := by
  have hw := wellFormed_run hf.wellFormed h1
  have hc := ((wellFormed_run hw h2).deployed hc2).caps
  refine ⟨⟨UInt16.le_iff_toNat_le.mp hc.fee, UInt64.le_iff_toNat_le.mp hc.rate,
    Int64.le_iff_toInt_le.mp hc.timelock.1, Int64.le_iff_toInt_le.mp hc.timelock.2⟩, ?_⟩
  intro hn
  have hr1 := timelock_run hf.wellFormed h1
  have hr2 := timelock_run hw h2
  rw [configOf_of_unallocated (hf.unused _ isPda_configKey), hc1] at hr1
  rw [hc1, hc2] at hr2
  obtain ⟨before, queue, between, tail, apply, after, q, now, hs2, hs1, hq, hbe, hap, hr,
    hli, ha⟩ := Lib.Timelock.change_origin hr1 hr2 rfl (by simp [timelockOf])
      fun heq => hn (Option.some.inj heq)
  -- lift the decomposition of the abstract trace to the trace of the program
  obtain ⟨tail', rest, rfl, rfl, hrest⟩ := List.map_eq_append_iff.mp hs2
  obtain ⟨apply', after', rfl, rfl, rfl⟩ := List.map_eq_cons_iff.mp hrest
  rw [← List.map_append] at hs1
  obtain ⟨before', rest', hsp, rfl, hr'⟩ := List.map_eq_append_iff.mp hs1
  obtain ⟨queue', between', rfl, rfl, rfl⟩ := List.map_eq_cons_iff.mp hr'
  obtain ⟨hta, -, -⟩ := h2.around
  have hru : Run (Step rt) w0 (before' ++ queue' :: between') apply'.pre := hsp ▸ h1.append hta
  obtain ⟨hpr, hst, -⟩ := hru.around
  obtain ⟨c, hqu, hq'⟩ := queuedBy_of_step (wellFormed_run hf.wellFormed hpr) hst hq
  obtain ⟨accounts, hl, rfl⟩ := timelockEvent_apply hap
  have hv : c2.live = q.values := Option.some.inj hli
  refine ⟨before', queue', between', tail', apply', after', c, rfl, hsp, hv ▸ hqu,
    ⟨accounts, hl⟩, hq' ▸ hr, fun e he => ?_, fun e he acc hac => ?_⟩
  · exact timelockEvent_other (hbe _ (List.mem_map_of_mem he))
  · refine ha _ (List.mem_map_of_mem he) e.pre.clock.toInt ?_
    simp [timelockEntry, hac, timelockEvent]

section

open Reference

def feeUpdate : Instruction Key := updateParamsIx keys admin (some 200) none none none none

def feeQueued (now timelock : Int64) : World Key := run (deployed now 10 timelock) feeUpdate

def feeChange (now timelock later : Int64) : List (Entry (World Key) (Action Key)) :=
  [entry (deployed now 10 timelock) feeUpdate,
    ⟨feeQueued now timelock, .environment, (feeQueued now timelock).advance later⟩,
    entry ((feeQueued now timelock).advance later) (applyParamsIx keys)]

def feeChanged (now timelock later : Int64) : World Key :=
  run ((feeQueued now timelock).advance later) (applyParamsIx keys)

theorem run_feeChange {now timelock later : Int64}
    (h1 : succeeds (deployed now 10 timelock) feeUpdate = true)
    (h2 : (feeQueued now timelock).clock.toInt ≤ later.toInt)
    (h3 : succeeds ((feeQueued now timelock).advance later) (applyParamsIx keys) = true) :
    Run (Step chain) (deployed now 10 timelock) (feeChange now timelock later)
    (feeChanged now timelock later) :=
  ((Run.single (step_run _ feeUpdate rfl h1)).snoc (.environment (environment_advance h2))).snoc
    (step_run _ (applyParamsIx keys) rfl h3)

theorem timelocked_governance_fee : ∃ before queue between tail apply after c c2,
      (feeChanged 1 5 6).configOf keys = some c2 ∧ c2.feeBps = 200 ∧
      feeChange 1 5 6 = tail ++ apply :: after ∧
      [entry (genesis 1) (initializeIx 100 1000 0 10 5 1000000)] ++ tail =
        before ++ queue :: between ∧
      QueuedBy keys queue c c2.live ∧
      min (queue.pre.clock.toInt + c.timelockSecs.toInt) I64.maxInt ≤ apply.pre.clock.toInt := by
  obtain ⟨c1, hc1⟩ : ∃ c, (deployed 1 10 5).configOf keys = some c :=
    Option.isSome_iff_exists.mp (by decide +kernel)
  obtain ⟨c2, hc⟩ : ∃ c, (feeChanged 1 5 6).configOf keys = some c :=
    Option.isSome_iff_exists.mp (by decide +kernel)
  have hf : ((feeChanged 1 5 6).configOf keys).map Config.feeBps = some 200 := by decide +kernel
  have hl : ((feeChanged 1 5 6).configOf keys).map Config.live ≠
      ((deployed 1 10 5).configOf keys).map Config.live := by decide +kernel
  rw [hc] at hf hl
  rw [hc1] at hl
  obtain ⟨before, queue, between, tail, apply, after, c, h⟩ :=
    (timelocked_governance (fresh_genesis 1) (run_deployed (by decide +kernel))
      (run_feeChange (by decide +kernel) (by decide +kernel) (by decide +kernel))
      hc1 hc).2 fun he => hl (congrArg some he)
  exact ⟨before, queue, between, tail, apply, after, c, c2, hc, Option.some.inj hf, h.1, h.2.1,
    h.2.2.1, h.2.2.2.2.1⟩

/-- At the last representable time the eligible time saturates: an update queued
then under a timelock of one second applies at once. -/
theorem timelock_saturates : Fresh keys (genesis 9223372036854775807) ∧
      Run (Step chain) (genesis 9223372036854775807)
        ([entry (genesis 9223372036854775807) (initializeIx 100 1000 0 10 1 1000000)] ++
          feeChange 9223372036854775807 1 9223372036854775807)
        (feeChanged 9223372036854775807 1 9223372036854775807) ∧
      ((deployed 9223372036854775807 10 1).configOf keys).map Config.live =
        some ⟨100, 1000, 0, 10, 1⟩ ∧
      ((feeChanged 9223372036854775807 1 9223372036854775807).configOf keys).map Config.live =
        some ⟨200, 1000, 0, 10, 1⟩ ∧
      ((feeQueued 9223372036854775807 1).advance 9223372036854775807).clock.toInt <
        (deployed 9223372036854775807 10 1).clock.toInt + 1 := by
  refine ⟨fresh_genesis _, (run_deployed (by decide +kernel)).append (run_feeChange
    (by decide +kernel) (by decide +kernel) (by decide +kernel)), ?_, ?_, ?_⟩
  all_goals decide +kernel

end

end SniperBot.Staking
