import SniperBot.Lib.Runs
import SniperBot.Sniper.ExitPolicy

/-!
# The ladder across restarts

A desk evaluates the policy for its positions, sells what an exit asks for, and may be
restarted at any point. The book of positions survives a restart, the engine does not: it
starts again with no rung fired, while the position still holds what the rungs left of it.
-/

namespace SniperBot.Sniper

open Lib (Extended)
open Lib.Runs

variable {Pubkey : Type}

namespace ExitPolicyEngine

variable (e : ExitPolicyEngine Pubkey)

variable (id : String) (mint : Option Pubkey)

def nextLevel : Nat := (e.state id).nextLevel

theorem nextLevel_setState_self (s : LadderState) :
    (e.setState id s).nextLevel id = s.nextLevel := by
  simp only [nextLevel, state, setState, Function.update_self, Option.getD_some]

theorem nextLevel_setState_ne {id p : String} (h : p ≠ id) (s : LadderState) :
    (e.setState id s).nextLevel p = e.nextLevel p := by
  simp only [nextLevel, state, setState, Function.update_of_ne h]

variable {s : LadderState} {avgEntry mark : ℚ} {x : AdvancedExit}

theorem nextLevel_setState_of_eq {id : String} (h : s.nextLevel = e.nextLevel id) (p : String) :
    (e.setState id s).nextLevel p = e.nextLevel p := by
  by_cases hp : p = id
  · rw [hp, nextLevel_setState_self, h]
  · exact e.nextLevel_setState_ne hp s

theorem nextLevel_armed (s : LadderState) (avgEntry highWater : ℚ) :
    (e.armed s avgEntry highWater).nextLevel = s.nextLevel := by
  unfold armed
  split
  · split <;> rfl
  · rfl

theorem nextLevel_new (config : ExitPolicyConfig Extended) (id : String) :
    (new config : ExitPolicyEngine Pubkey).nextLevel id = 0 := rfl

theorem nextLevel_retain {live : List String} {id : String} (h : id ∈ live) (now : Int) :
    (e.retain live now).nextLevel id = e.nextLevel id := by
  simp only [nextLevel, state, retain, if_pos h]

theorem firing_breakEvenStop (h : e.breakEvenStop s avgEntry mark = some x) : x.firing = none := by
  unfold breakEvenStop at h
  split at h
  · dsimp only at h
    split at h
    · cases h
      rfl
    · cases h
  · cases h

theorem nextRung_eq_some (h : e.nextRung s avgEntry mark = some x) :
    ∃ l f, e.config.ladder[s.nextLevel]? = some l ∧ x.firing = some f ∧
    f.level = s.nextLevel + 1 ∧ f.multiple = l.triggerMultiple ∧
    f.fraction = l.sellFraction := by
  unfold nextRung at h
  split at h
  · rename_i l hl
    dsimp only at h
    split at h
    · cases h
      exact ⟨l, _, hl, rfl, rfl, rfl, rfl⟩
    · cases h
  · cases h

/-- An evaluation leaves every cursor alone and fires no rung, or it fires the rung the
position's cursor stands at and moves that cursor on. -/
theorem evaluate_cases (avgEntry mark highWater : ℚ)
    (now : Int) {e' : ExitPolicyEngine Pubkey} {out : Option AdvancedExit}
    (h : e.evaluate id mint avgEntry mark highWater now = (e', out)) :
    e'.config = e.config ∧
    ((out.bind AdvancedExit.firing = none ∧ ∀ p, e'.nextLevel p = e.nextLevel p) ∨
    ∃ l f, e.config.ladder[e.nextLevel id]? = some l ∧
      out.bind AdvancedExit.firing = some f ∧ f.level = e.nextLevel id + 1 ∧
      f.multiple = l.triggerMultiple ∧ f.fraction = l.sellFraction ∧
      e'.nextLevel id = e.nextLevel id + 1 ∧ ∀ p ≠ id, e'.nextLevel p = e.nextLevel p) := by
  have ha := e.nextLevel_armed (e.state id) avgEntry highWater
  unfold evaluate at h
  split at h
  · cases h
    exact ⟨rfl, .inl ⟨rfl, fun _ => rfl⟩⟩
  · split at h
    · cases h
      exact ⟨rfl, .inl ⟨rfl, fun _ => rfl⟩⟩
    · dsimp only at h
      split at h
      · rename_i x hst
        cases h
        exact ⟨rfl, .inl ⟨e.firing_breakEvenStop hst, e.nextLevel_setState_of_eq ha⟩⟩
      · split at h
        · rename_i x hr
          cases h
          obtain ⟨l, f, hl, hf, hlev, hm, hfr⟩ := e.nextRung_eq_some hr
          rw [ha] at hl hlev
          refine ⟨rfl, .inr ⟨l, f, hl, hf, hlev, hm, hfr, ?_, ?_⟩⟩
          · rw [nextLevel_setState_self]
            exact congrArg (· + 1) ha
          · exact fun p hp => e.nextLevel_setState_ne hp _
        · cases h
          exact ⟨rfl, .inl ⟨rfl, e.nextLevel_setState_of_eq ha⟩⟩

end ExitPolicyEngine

structure Desk (Pubkey : Type) where
  engine : ExitPolicyEngine Pubkey
  qty : String → ℚ

inductive Event (Pubkey : Type) where
  | observeDevSell (mint : Pubkey) (observedAt : Int)
  | retain (live : List String) (now : Int)
  /-- One position in a sweep, and whether the sale that may follow fills. -/
  | evaluate (positionId : String) (mint : Option Pubkey) (avgEntry mark highWater : ℚ)
      (now : Int) (decimals : Nat) (filled : Bool)
  | restart

namespace Desk

def exit (d : Desk Pubkey) : Event Pubkey → Option AdvancedExit
  | .evaluate id mint avgEntry mark highWater now _ _ =>
    (d.engine.evaluate id mint avgEntry mark highWater now).2
  | _ => none

def sell (d : Desk Pubkey) (id : String) (fraction : ℚ) (decimals : Nat) : String → ℚ :=
  Function.update d.qty id (d.qty id - sellQty (d.qty id) fraction decimals)

def step [DecidableEq Pubkey] (config : ExitPolicyConfig Extended) (d : Desk Pubkey) :
    Event Pubkey → Desk Pubkey
  | .observeDevSell mint observedAt =>
    { d with engine := d.engine.observeDevSell mint observedAt }
  | .retain live now => { d with engine := d.engine.retain live now }
  | .evaluate id mint avgEntry mark highWater now decimals filled =>
    match d.engine.evaluate id mint avgEntry mark highWater now with
    | (engine, some x) =>
      ⟨engine, if filled then d.sell id x.fraction decimals else d.qty⟩
    | (engine, none) => { d with engine := engine }
  | .restart => { d with engine := .new config }

end Desk

abbrev Trace (Pubkey : Type) := List (Entry (Desk Pubkey) (Event Pubkey))

def firingOf (p : String) (e : Entry (Desk Pubkey) (Event Pubkey)) : Option LadderFiring :=
  match e.label with
  | .evaluate id .. => if id = p then (e.pre.exit e.label).bind AdvancedExit.firing else none
  | _ => none

def firings (p : String) (tr : Trace Pubkey) : List LadderFiring := tr.filterMap (firingOf p)

def KeepsLive (p : String) (e : Entry (Desk Pubkey) (Event Pubkey)) : Prop :=
  match e.label with
  | .retain live _ => p ∈ live
  | _ => True

/-- The process restarts only while no rung of the position has fired. -/
def RestartsUnfired (p : String) (e : Entry (Desk Pubkey) (Event Pubkey)) : Prop :=
  match e.label with
  | .restart => e.pre.engine.nextLevel p = 0
  | _ => True

open LadderFiring

def LadderFiring.rung (f : LadderFiring) : TpLevel ℚ × Nat := (⟨f.multiple, f.fraction⟩, f.level)

def Climbed (config : ExitPolicyConfig Extended) (p : String) (tr : Trace Pubkey)
    (d : Desk Pubkey) : Prop :=
  d.engine.config = config.normalized ∧ (firings p tr).map rung =
      (config.normalized.ladder.zipIdx 1).take (d.engine.nextLevel p)

section

variable {config : ExitPolicyConfig Extended} {p : String} {tr : Trace Pubkey} {d : Desk Pubkey}

theorem firings_snoc (e : Entry (Desk Pubkey) (Event Pubkey)) :
    firings p (tr ++ [e]) = firings p tr ++ (firingOf p e).toList := by
  unfold firings
  cases h : firingOf p e <;> simp [h]

variable {e : Entry (Desk Pubkey) (Event Pubkey)} {d' : Desk Pubkey}

theorem Climbed.of_firingOf_eq_none (h : Climbed config p tr d) (hn : firingOf p e = none) (hc : d'.engine.config = d.engine.config)
    (hnext : d'.engine.nextLevel p = d.engine.nextLevel p) : Climbed config p (tr ++ [e]) d' := by
  refine ⟨hc.trans h.1, ?_⟩
  rw [firings_snoc, hn, hnext]
  simpa using h.2

open List

theorem Climbed.of_firingOf_eq_some (h : Climbed config p tr d) {f : LadderFiring}
    (hso : firingOf p e = some f) {l : TpLevel ℚ}
    (hl : d.engine.config.ladder[d.engine.nextLevel p]? = some l)
    (hlev : f.level = d.engine.nextLevel p + 1) (hm : f.multiple = l.triggerMultiple)
    (hf : f.fraction = l.sellFraction)
    (hc : d'.engine.config = d.engine.config)
    (hnext : d'.engine.nextLevel p = d.engine.nextLevel p + 1) :
    Climbed config p (tr ++ [e]) d' := by
  refine ⟨hc.trans h.1, ?_⟩
  have hr : (config.normalized.ladder.zipIdx 1)[d.engine.nextLevel p]? = some f.rung := by
    rw [getElem?_zipIdx, ← h.1, hl, rung, hlev, hm, hf, Nat.add_comm]
    rfl
  rw [firings_snoc, hso, hnext, take_add_one, hr, map_append, h.2]
  rfl

variable [DecidableEq Pubkey]

theorem engine_step_evaluate (config : ExitPolicyConfig Extended) (d : Desk Pubkey) (id : String)
    (mint : Option Pubkey) (avgEntry mark highWater : ℚ) (now : Int) (decimals : Nat)
    (filled : Bool) :
    (d.step config (.evaluate id mint avgEntry mark highWater now decimals filled)).engine =
    (d.engine.evaluate id mint avgEntry mark highWater now).1 := by
  simp only [Desk.step]
  split
  · rename_i h
    rw [h]
  · rename_i h
    rw [h]

theorem Climbed.step (h : Climbed config p tr d) {a : Event Pubkey}
    (hli : KeepsLive p ⟨d, a, d.step config a⟩)
    (hr : RestartsUnfired p ⟨d, a, d.step config a⟩) :
    Climbed config p (tr ++ [⟨d, a, d.step config a⟩]) (d.step config a) := by
  cases a with
  | observeDevSell mint observedAt => exact h.of_firingOf_eq_none rfl rfl rfl
  | retain live now =>
    exact h.of_firingOf_eq_none rfl rfl (d.engine.nextLevel_retain hli now)
  | restart =>
    -- the new engine starts at the bottom, and there the old one was
    refine h.of_firingOf_eq_none rfl h.1.symm ?_
    exact (ExitPolicyEngine.nextLevel_new config p).trans (Eq.symm hr)
  | evaluate id mint avgEntry mark highWater now decimals filled =>
    have he := engine_step_evaluate config d id mint avgEntry mark highWater now decimals filled
    obtain ⟨hc, hca⟩ :=
      d.engine.evaluate_cases id mint avgEntry mark highWater now (Prod.eta _).symm
    rw [← he] at hc hca
    by_cases hi : id = p
    · subst hi
      rcases hca with ⟨hn, hnext⟩ | ⟨l, f, hl, hf, hlev, hm, hfr, hnext, -⟩
      · refine h.of_firingOf_eq_none ?_ hc (hnext id)
        exact (if_pos rfl).trans hn
      · refine h.of_firingOf_eq_some ?_ hl hlev hm hfr hc hnext
        exact (if_pos rfl).trans hf
    · -- another position's evaluation
      refine h.of_firingOf_eq_none ?_ hc ?_
      · exact if_neg hi
      · rcases hca with ⟨-, hnext⟩ | ⟨-, -, -, -, -, -, -, -, ho⟩
        · exact hnext p
        · exact ho p (Ne.symm hi)

theorem pairwise_zipIdx (config : ExitPolicyConfig Extended) :
    (config.normalized.ladder.zipIdx 1).Pairwise fun a b =>
    a.2 < b.2 ∧ a.1.triggerMultiple ≤ b.1.triggerMultiple := by
  have hso := config.normal_normalized.sorted
  rw [pairwise_iff_getElem] at hso ⊢
  intro i j hi hj hl
  rw [length_zipIdx] at hi hj
  simp only [getElem_zipIdx]
  exact ⟨Nat.add_lt_add_left hl 1, hso i j hi hj hl⟩

/-- While no restart comes after a rung of the position has fired, the rungs that fire are
the first ones of the ladder, each once and in ascending order. -/
theorem rungs_fire_once {t : Desk Pubkey} (hnew : d.engine = .new config)
    (hrun : Run (fun s a t => t = Desk.step config s a) d tr t)
    (hlive : ∀ e ∈ tr, KeepsLive p e) (hrestart : ∀ e ∈ tr, RestartsUnfired p e) :
    (firings p tr).map LadderFiring.rung <+: config.normalized.ladder.zipIdx 1 ∧
      (firings p tr).Pairwise fun a b => a.level < b.level ∧ a.multiple ≤ b.multiple := by
  have hc : Climbed config p tr t := by
    refine hrun.invariant_history (I := Climbed config p)
      (P := fun e => KeepsLive p e ∧ RestartsUnfired p e) ?_ ?_ ?_
    · rintro tr s a _ h ⟨hlive, hrestart⟩ rfl
      exact h.step hlive hrestart
    · exact fun e he => ⟨hlive e he, hrestart e he⟩
    · rw [Climbed, hnew]
      exact ⟨rfl, rfl⟩
  refine ⟨hc.2 ▸ List.take_prefix _ _, ?_⟩
  have hpa := (pairwise_zipIdx config).sublist (List.take_sublist (t.engine.nextLevel p) _)
  rw [← hc.2, List.pairwise_map] at hpa
  exact hpa

end

private def halfAtDouble : ExitPolicyConfig Extended where
  ladder := [⟨.finite 2, .finite (1 / 2)⟩]

private def holding : Desk Nat where
  engine := .new halfAtDouble
  qty := fun _ => 100

private def atDouble : Event Nat := .evaluate "p" none 1 2 2 0 6 true

private def sweep : Event Nat := .retain ["p"] 0

private def restartEarly : List (Event Nat) := [.restart, sweep, atDouble, sweep, atDouble]

theorem rungs_fire_once_restart_early :
    ∃ (config : ExitPolicyConfig Extended) (d : Desk Nat) (tr : Trace Nat) (t : Desk Nat),
      d.engine = .new config ∧ Run (fun s a t => t = Desk.step config s a) d tr t ∧
      (∀ e ∈ tr, KeepsLive "p" e) ∧ (∀ e ∈ tr, RestartsUnfired "p" e) ∧
      (firings "p" tr).length = 1 ∧
      (firings "p" tr).map LadderFiring.rung <+: config.normalized.ladder.zipIdx 1 := by
  have hru := run_history (Desk.step halfAtDouble) holding restartEarly
  have hl : ∀ e ∈ history (Desk.step halfAtDouble) holding restartEarly, KeepsLive "p" e := by
    simp [history, KeepsLive, restartEarly, sweep, atDouble]
  have hr : ∀ e ∈ history (Desk.step halfAtDouble) holding restartEarly, RestartsUnfired "p" e := by
    simp [history, RestartsUnfired, restartEarly, sweep, atDouble, holding,
      ExitPolicyEngine.nextLevel_new]
  exact ⟨halfAtDouble, holding, _, _, rfl, hru, hl, hr, by decide +kernel,
    (rungs_fire_once rfl hru hl hr).1⟩

/-- After a restart the rung fires a second time and sells half of what is left. -/
theorem rung_fires_again :
    ∃ (config : ExitPolicyConfig Extended) (d : Desk Nat) (tr : Trace Nat) (t : Desk Nat),
      d.engine = .new config ∧ Run (fun s a t => t = Desk.step config s a) d tr t ∧
      (∀ e ∈ tr, KeepsLive "p" e) ∧ (firings "p" tr).map LadderFiring.level = [1, 1] ∧
      d.qty "p" = 100 ∧ t.qty "p" = 25 := by
  refine ⟨halfAtDouble, holding, _, _, rfl, run_history (Desk.step halfAtDouble) holding
    [sweep, atDouble, .restart, sweep, atDouble], ?_, ?_, rfl, ?_⟩
  · simp [history, KeepsLive, sweep, atDouble]
  · decide +kernel
  · decide +kernel

end SniperBot.Sniper
