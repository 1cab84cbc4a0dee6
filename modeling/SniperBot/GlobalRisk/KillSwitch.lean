import Mathlib.Data.Set.Insert
import SniperBot.GlobalRisk.Engine
import SniperBot.Lib.Runs

/-!
# Kill switches of venues and strategies

One map holds a switch for each scope, with a flag for the configuration and one for the operator.
It stands for two sets: the scopes that the configuration lists and those that an operator engaged
and nobody released. A restart reads the second one back.
-/

namespace SniperBot.GlobalRisk

open Lib.Runs List Function

inductive KillScope where
  | venue (venue : Venue)
  | strategy (label : String)
  deriving DecidableEq

structure KillSwitchState where
  scope : KillScope
  configured : Bool
  engaged : Bool
  reason : String
  actor : String
  updatedAt : Int

open KillSwitchState

def KillSwitchState.isActive (st : KillSwitchState) : Bool := st.configured || st.engaged

inductive SwitchOutcome where
  | changed
  | unchanged
  | pinnedByConfig
  deriving DecidableEq

def listedScopes (venues : List Venue) (strategies : List String) : List KillScope :=
  venues.map .venue ++ strategies.map .strategy

abbrev KillSwitches := KillScope → Option KillSwitchState

namespace KillSwitches

variable (map : KillSwitches)

def empty : KillSwitches := fun _ => none

def pin (now : Int) (scope : KillScope) : KillSwitches :=
  let st := (map scope).getD ⟨scope, false, false, "", "config", now⟩
  update map scope (some { st with
    configured := true
    reason := if st.reason = "" then "configured" else st.reason })

def unpinned : KillSwitches := fun k => (map k).map fun st => { st with configured := false }

def retainActive : KillSwitches := fun k => (map k).filter isActive

def applyConfig (scopes : List KillScope) (now : Int) : KillSwitches :=
  (scopes.foldl (fun map scope => pin map now scope) map.unpinned).retainActive

/-- One stored switch is read back; one that is not engaged is passed over. -/
def restoreOne (st : KillSwitchState) : KillSwitches :=
  if st.engaged then
    let entry := { (map st.scope).getD st with engaged := true }
    update map st.scope (some (if entry.reason = "" ∨ entry.configured = false then
        { entry with reason := st.reason, actor := st.actor, updatedAt := st.updatedAt }
      else entry))
  else map

def restore (states : List KillSwitchState) : KillSwitches := states.foldl restoreOne map

def engage (scope : KillScope) (reason actor : String) (now : Int) : KillSwitches × SwitchOutcome :=
  let st := (map scope).getD ⟨scope, false, false, "", "", now⟩
  if st.engaged then (map, .unchanged)
  else
    (update map scope (some { st with
      engaged := true, reason := reason, actor := actor, updatedAt := now }), .changed)

/-- The switch that is released is dropped, so its new reason and actor are not seen again. -/
def release (scope : KillScope) : KillSwitches × SwitchOutcome :=
  match map scope with
  | none => (map, .unchanged)
  | some st =>
    if st.configured then (map, .pinnedByConfig)
    else if st.engaged then (update map scope none, .changed)
    else (map, .unchanged)

def active (k : KillScope) : Bool := (map k).any isActive

end KillSwitches

def upsertKillSwitch : List KillSwitchState → KillSwitchState → List KillSwitchState
  | [], state => [state]
  | existing :: rest, state =>
    if existing.scope = state.scope then state :: rest
    else existing :: upsertKillSwitch rest state

/-- The registry of an engine and the store that outlives it. -/
structure SwitchBoard where
  switches : KillSwitches
  store : List KillSwitchState

namespace SwitchBoard

variable (b : SwitchBoard)

def start (venues : List Venue) (strategies : List String) (now : Int) : SwitchBoard :=
  ⟨KillSwitches.empty.applyConfig (listedScopes venues strategies) now, []⟩

variable (scope : KillScope) (reason actor : String) (now : Int)

def persistSwitch : SwitchBoard :=
  let state := (b.switches scope).getD ⟨scope, false, false, reason, actor, now⟩
  { b with store := upsertKillSwitch b.store state }

def engage : SwitchBoard :=
  let (switches, outcome) := b.switches.engage scope reason actor now
  if outcome = .changed then
    ({ b with switches := switches } : SwitchBoard).persistSwitch scope reason actor now
  else { b with switches := switches }

def release : SwitchBoard :=
  let (switches, outcome) := b.switches.release scope
  if outcome = .changed then
    ({ b with switches := switches } : SwitchBoard).persistSwitch scope reason actor now
  else { b with switches := switches }

def restore : SwitchBoard := { b with switches := b.switches.restore b.store }

/-- A new engine over the same store, which reads the switches back before anything else. -/
def restart (venues : List Venue) (strategies : List String) (now : Int) : SwitchBoard :=
  ({ start venues strategies now with store := b.store } : SwitchBoard).restore

inductive Op where
  | applyConfig (venues : List Venue) (strategies : List String) (now : Int)
  | engage (scope : KillScope) (reason actor : String) (now : Int)
  | release (scope : KillScope) (reason actor : String) (now : Int)
  | persist (scope : KillScope) (reason actor : String) (now : Int)
  | restart (venues : List Venue) (strategies : List String) (now : Int)
  | restore

def step : Op → SwitchBoard
  | .applyConfig venues strategies now =>
    { b with switches := b.switches.applyConfig (listedScopes venues strategies) now }
  | .engage scope reason actor now => b.engage scope reason actor now
  | .release scope reason actor now => b.release scope reason actor now
  | .persist scope reason actor now => b.persistSwitch scope reason actor now
  | .restart venues strategies now => b.restart venues strategies now
  | .restore => b.restore

end SwitchBoard

/-! ## The two sets -/

/-- What the configuration lists, and what operators engaged and have not released since. -/
structure SwitchLaw where
  configured : Set KillScope
  engaged : Set KillScope

namespace SwitchLaw

open SwitchBoard (Op)

def start (venues : List Venue) (strategies : List String) : SwitchLaw :=
  ⟨{k | k ∈ listedScopes venues strategies}, ∅⟩

/-- A listed scope refuses its release. -/
def after (law : SwitchLaw) : Op → SwitchLaw
  | .applyConfig venues strategies _ | .restart venues strategies _ =>
    { law with configured := {k | k ∈ listedScopes venues strategies} }
  | .engage scope _ _ _ => { law with engaged := insert scope law.engaged }
  | .release scope _ _ _ =>
    { law with engaged := {k | k ∈ law.engaged ∧ (k = scope → k ∈ law.configured)} }
  | .persist .. | .restore => law

end SwitchLaw

/-! ## What the map shows -/

def Shown (k : KillScope) (configured engaged : Prop) : Option KillSwitchState → Prop
  | none => ¬ configured ∧ ¬ engaged
  | some st => st.scope = k ∧ (st.configured = true ↔ configured) ∧ (st.engaged = true ↔ engaged)

theorem Shown.getD {k : KillScope} {configured engaged : Prop} {o : Option KillSwitchState}
    (h : Shown k configured engaged o) (other : KillSwitchState) (hsc : other.scope = k)
    (hc : other.configured = false) (he : other.engaged = false) :
    Shown k configured engaged (some (o.getD other)) := by
  cases o with
  | none =>
    refine ⟨hsc, ?_, ?_⟩
    · simpa [hc] using h.1
    · simpa [he] using h.2
  | some st => exact h

/-- The flags of the map are the two sets. -/
def Shows (map : KillSwitches) (law : SwitchLaw) : Prop :=
  ∀ k, Shown k (k ∈ law.configured) (k ∈ law.engaged) (map k)

section

variable {map : KillSwitches} {law : SwitchLaw} {scope : KillScope}

theorem Shows.active (h : Shows map law) (k : KillScope) :
    map.active k = true ↔ k ∈ law.configured ∨ k ∈ law.engaged := by
  have hk := h k
  unfold KillSwitches.active
  cases hst : map k with
  | none =>
    rw [hst] at hk
    exact ⟨nofun, fun ho => (ho.elim hk.1 hk.2).elim⟩
  | some st =>
    rw [hst] at hk
    rw [Option.any_some, isActive, Bool.or_eq_true, hk.2.1, hk.2.2]

theorem Shows.pinned (h : Shows map law) (k : KillScope) :
    (map.release k).2 = .pinnedByConfig ↔ k ∈ law.configured := by
  have hk := h k
  unfold KillSwitches.release
  cases hst : map k with
  | none =>
    rw [hst] at hk
    simpa using hk.1
  | some st =>
    rw [hst] at hk
    rw [← hk.2.1]
    by_cases hc : st.configured = true
    · simp [hc]
    · by_cases he : st.engaged = true <;> simp [hc, he]

theorem shows_empty : Shows .empty ⟨∅, ∅⟩ := fun _ => ⟨id, id⟩

theorem Shows.update {law' : SwitchLaw} {v : Option KillSwitchState} (h : Shows map law)
    (hv : Shown scope (scope ∈ law'.configured) (scope ∈ law'.engaged) v)
    (hc : ∀ k, k ≠ scope → (k ∈ law'.configured ↔ k ∈ law.configured))
    (he : ∀ k, k ≠ scope → (k ∈ law'.engaged ↔ k ∈ law.engaged)) :
    Shows (update map scope v) law' := by
  intro k
  by_cases hk : k = scope
  · subst hk
    rw [update_self]
    exact hv
  · rw [update_of_ne hk, hc k hk, he k hk]
    exact h k

/-! ### The configuration -/

section

variable (h : Shows map law)

include h

theorem Shows.pin (now : Int) (scope : KillScope) :
    Shows (map.pin now scope) { law with configured := insert scope law.configured } := by
  obtain ⟨hsc, -, he⟩ := (h scope).getD ⟨scope, false, false, "", "config", now⟩ rfl rfl rfl
  exact h.update ⟨hsc, by simp, he⟩ (fun k hk => by simp [hk]) fun _ _ => Iff.rfl

theorem Shows.pins (now : Int) (scopes : List KillScope) :
    Shows (scopes.foldl (fun map scope => map.pin now scope) map)
    { law with configured := {k | k ∈ scopes ∨ k ∈ law.configured} } := by
  induction scopes generalizing map law with
  | nil => simpa using h
  | cons scope scopes ih => simpa [or_assoc, or_left_comm] using ih (h.pin now scope)

theorem Shows.unpinned : Shows map.unpinned { law with configured := ∅ } := by
  intro k
  have hk := h k
  unfold KillSwitches.unpinned
  cases hst : map k with
  | none =>
    rw [hst] at hk
    exact ⟨id, hk.2⟩
  | some st =>
    rw [hst] at hk
    exact ⟨hk.1, by simp, hk.2.2⟩

theorem Shows.retainActive : Shows map.retainActive law := by
  intro k
  have hk := h k
  unfold KillSwitches.retainActive
  cases hst : map k with
  | none =>
    rw [hst] at hk
    exact hk
  | some st =>
    rw [hst] at hk
    rw [Option.filter_some]
    split
    · exact hk
    · next ho =>
      rw [isActive, Bool.or_eq_true, hk.2.1, hk.2.2] at ho
      exact not_or.mp ho

theorem Shows.applyConfig (scopes : List KillScope) (now : Int) :
    Shows (map.applyConfig scopes now) { law with configured := {k | k ∈ scopes} } := by
  simpa [KillSwitches.applyConfig] using (h.unpinned.pins now scopes).retainActive

/-! ### Switches that are read back -/

theorem Shows.restoreOne {st : KillSwitchState} (hpi : st.engaged = true → st.configured = true →
    st.scope ∈ law.configured ∨ st.scope ∈ law.engaged) :
    Shows (map.restoreOne st)
    { law with engaged := {k | k ∈ law.engaged ∨ st.scope = k ∧ st.engaged = true} } := by
  unfold KillSwitches.restoreOne
  split
  · next hst =>
    have he : ((map st.scope).getD st).scope = st.scope ∧
        (((map st.scope).getD st).configured = true ↔ st.scope ∈ law.configured) := by
      have hk := h st.scope
      cases hso : map st.scope with
      | none =>
        rw [hso] at hk
        exact ⟨rfl, fun hc => ((hpi hst hc).elim hk.1 hk.2).elim, fun hc => (hk.1 hc).elim⟩
      | some entry =>
        rw [hso] at hk
        exact ⟨hk.1, hk.2.1⟩
    refine h.update ?_ (fun _ _ => Iff.rfl) fun k hk => ?_
    · split <;> exact ⟨he.1, he.2, by simp [hst]⟩
    · simp [Ne.symm hk]
  · next hst => simpa [hst] using h

theorem Shows.restore {states : List KillSwitchState}
    (hpi : ∀ st ∈ states, st.engaged = true → st.configured = true →
    st.scope ∈ law.configured ∨ st.scope ∈ law.engaged) :
    Shows (map.restore states) { law with engaged :=
      {k | k ∈ law.engaged ∨ ∃ st ∈ states, st.scope = k ∧ st.engaged = true} } := by
  induction states generalizing map law with
  | nil => simpa [KillSwitches.restore] using h
  | cons st states ih =>
    have hrest := ih (h.restoreOne (hpi st mem_cons_self)) fun st' hs' ho hc =>
      (hpi st' (mem_cons_of_mem _ hs') ho hc).imp_right .inl
    simpa [KillSwitches.restore, or_assoc] using hrest

/-! ### Operators -/

theorem Shows.state (scope : KillScope) (other : KillSwitchState)
    (hsc : other.scope = scope) (hc : other.configured = false)
    (he : other.engaged = false) :
    ((map scope).getD other).scope = scope ∧
    (((map scope).getD other).engaged = true ↔ scope ∈ law.engaged) := by
  obtain ⟨hk, -, ho⟩ := (h scope).getD other hsc hc he
  exact ⟨hk, ho⟩

theorem Shows.engage (scope : KillScope) (reason actor : String) (now : Int) :
    Shows (map.engage scope reason actor now).1
    { law with engaged := insert scope law.engaged } := by
  obtain ⟨hsc, hc, he⟩ := (h scope).getD ⟨scope, false, false, "", "", now⟩ rfl rfl rfl
  dsimp only [KillSwitches.engage]
  split
  · next ho =>
    rw [Set.insert_eq_of_mem (he.mp ho)]
    exact h
  · exact h.update ⟨hsc, hc, by simp⟩ (fun _ _ => Iff.rfl) fun k hk => by simp [hk]

theorem Shows.release_cases (scope : KillScope) :
    (map.release scope = (Function.update map scope none, .changed) ∧ scope ∉ law.configured) ∨
    (map.release scope).1 = map ∧ (map.release scope).2 ≠ .changed ∧
      (scope ∈ law.engaged → scope ∈ law.configured) := by
  have hk := h scope
  unfold KillSwitches.release
  cases hst : map scope with
  | none =>
    rw [hst] at hk
    exact .inr ⟨rfl, nofun, fun ho => (hk.2 ho).elim⟩
  | some st =>
    rw [hst] at hk
    dsimp only
    split
    · next hpi => exact .inr ⟨rfl, nofun, fun _ => hk.2.1.mp hpi⟩
    · next hpi =>
      split
      · exact .inl ⟨rfl, fun hc => hpi (hk.2.1.mpr hc)⟩
      · next hof => exact .inr ⟨rfl, nofun, fun ho => (hof (hk.2.2.mpr ho)).elim⟩

end

end

/-! ## The store -/

section

variable {store : List KillSwitchState} {state st : KillSwitchState}

theorem scope_mem_upsertKillSwitch {k : KillScope} : k ∈ (upsertKillSwitch store state).map scope ↔
    k = state.scope ∨ k ∈ store.map scope := by
  induction store with
  | nil => simp [upsertKillSwitch]
  | cons existing rest ih =>
    unfold upsertKillSwitch
    split
    · next hsc => simp [hsc]
    · rw [map_cons, mem_cons, ih, map_cons, mem_cons]
      exact or_left_comm

theorem upsertKillSwitch_nodup (h : (store.map scope).Nodup) :
    ((upsertKillSwitch store state).map scope).Nodup := by
  induction store with
  | nil => simp [upsertKillSwitch]
  | cons existing rest ih =>
    obtain ⟨hf, hrest⟩ := nodup_cons.mp h
    unfold upsertKillSwitch
    split
    · next hsc =>
      rw [map_cons, nodup_cons, ← hsc]
      exact ⟨hf, hrest⟩
    · next hsc =>
      rw [map_cons, nodup_cons]
      refine ⟨fun hm => ?_, ih hrest⟩
      rcases scope_mem_upsertKillSwitch.mp hm with he | hm
      · exact hsc he
      · exact hf hm

theorem mem_upsertKillSwitch (h : (store.map scope).Nodup)
    (hst : st ∈ upsertKillSwitch store state) :
    st = state ∨ st ∈ store ∧ st.scope ≠ state.scope := by
  induction store with
  | nil => exact Or.inl (mem_singleton.mp hst)
  | cons existing rest ih =>
    obtain ⟨hf, hrest⟩ := nodup_cons.mp h
    unfold upsertKillSwitch at hst
    split at hst
    · next hsc =>
      rcases mem_cons.mp hst with rfl | hm
      · exact Or.inl rfl
      · refine Or.inr ⟨mem_cons_of_mem _ hm, fun he => hf ?_⟩
        rw [hsc, ← he]
        exact mem_map_of_mem hm
    · next hsc =>
      rcases mem_cons.mp hst with rfl | hm
      · exact Or.inr ⟨mem_cons_self, hsc⟩
      · rcases ih hrest hm with rfl | ⟨hm, hn⟩
        · exact Or.inl rfl
        · exact Or.inr ⟨mem_cons_of_mem _ hm, hn⟩

end

/-- The rows of the store say of every scope whether an operator has it engaged. -/
structure Recorded (store : List KillSwitchState) (engaged : Set KillScope) : Prop where
  right : ∀ st ∈ store, st.engaged = true ↔ st.scope ∈ engaged
  covered : ∀ k ∈ engaged, k ∈ store.map scope
  nodup : (store.map scope).Nodup

theorem recorded_nil : Recorded [] ∅ :=
  ⟨fun _ hst => (not_mem_nil hst).elim, fun _ hk => hk.elim, nodup_nil⟩

theorem Recorded.upsert {store : List KillSwitchState} {engaged engaged' : Set KillScope}
    {state : KillSwitchState} (h : Recorded store engaged)
    (hsta : state.engaged = true ↔ state.scope ∈ engaged')
    (hsa : ∀ k, k ≠ state.scope → (k ∈ engaged' ↔ k ∈ engaged)) :
    Recorded (upsertKillSwitch store state) engaged' where
  right := by
    intro st hst
    rcases mem_upsertKillSwitch h.nodup hst with rfl | ⟨hm, hn⟩
    · exact hsta
    · rw [hsa st.scope hn]
      exact h.right st hm
  covered := by
    intro k hk
    refine scope_mem_upsertKillSwitch.mpr ?_
    by_cases he : k = state.scope
    · exact Or.inl he
    · exact Or.inr (h.covered k ((hsa k he).mp hk))
  nodup := upsertKillSwitch_nodup h.nodup

theorem Recorded.exists_row_iff {store : List KillSwitchState} {engaged : Set KillScope}
    (h : Recorded store engaged) {k : KillScope} :
    (∃ st ∈ store, st.scope = k ∧ st.engaged = true) ↔ k ∈ engaged := by
  constructor
  · rintro ⟨st, hst, rfl, he⟩
    exact (h.right st hst).mp he
  · intro hk
    obtain ⟨st, hst, rfl⟩ := mem_map.mp (h.covered k hk)
    exact ⟨st, hst, rfl, (h.right st hst).mpr hk⟩

/-! ## What the board represents -/

namespace SwitchBoard

structure Represents (b : SwitchBoard) (law : SwitchLaw) : Prop where
  shown : Shows b.switches law
  recorded : Recorded b.store law.engaged

theorem represents_start (venues : List Venue) (strategies : List String) (now : Int) :
    (start venues strategies now).Represents (.start venues strategies) :=
  ⟨shows_empty.applyConfig (listedScopes venues strategies) now, recorded_nil⟩

/-- A restart is free of stale pins if every engaged switch that was stored while the
configuration listed it is listed again. -/
def PinsListed (b : SwitchBoard) : Op → Prop
  | .restart venues strategies _ =>
    ∀ st ∈ b.store, st.engaged = true → st.configured = true →
      st.scope ∈ listedScopes venues strategies
  | _ => True

section

variable {b : SwitchBoard} {law : SwitchLaw} {engaged : Set KillScope}

theorem represents_persistSwitch (hsh : Shows b.switches law)
    (hr : Recorded b.store engaged) (scope : KillScope)
    (hsa : ∀ k, k ≠ scope → (k ∈ law.engaged ↔ k ∈ engaged)) (reason actor : String)
    (now : Int) : (b.persistSwitch scope reason actor now).Represents law := by
  obtain ⟨hsc, hst⟩ := hsh.state scope ⟨scope, false, false, reason, actor, now⟩ rfl rfl rfl
  refine ⟨hsh, hr.upsert ?_ ?_⟩
  · rw [hsc]
    exact hst
  · rw [hsc]
    exact hsa

section

variable (h : b.Represents law) (scope : KillScope) (reason actor : String) (now : Int)

include h

theorem Represents.engage : (b.engage scope reason actor now).Represents
    { law with engaged := insert scope law.engaged } := by
  have hsh := h.shown.engage scope reason actor now
  have hf := h.shown.state scope ⟨scope, false, false, "", "", now⟩ rfl rfl rfl
  dsimp only [SwitchBoard.engage]
  split
  · exact represents_persistSwitch (b := { b with switches := _ }) hsh h.recorded scope
      (fun k hk => Set.mem_insert_iff.trans (or_iff_right hk)) reason actor now
  · next ho =>
    -- the switch was engaged already and was left alone
    have hon : scope ∈ law.engaged := by
      by_contra hof
      apply ho
      rw [KillSwitches.engage, if_neg fun he => hof (hf.2.mp he)]
    refine ⟨hsh, ?_⟩
    rw [Set.insert_eq_of_mem hon]
    exact h.recorded

theorem Represents.release : (b.release scope reason actor now).Represents
    { law with engaged := {k | k ∈ law.engaged ∧ (k = scope → k ∈ law.configured)} } := by
  dsimp only [SwitchBoard.release]
  rcases h.shown.release_cases scope with ⟨hr, hf⟩ | ⟨hm, hkept, hpi⟩
  · rw [hr]
    have hsa : ∀ k, k ≠ scope →
        (k ∈ law.engaged ∧ (k = scope → k ∈ law.configured) ↔ k ∈ law.engaged) :=
      fun k hk => and_iff_left fun he => (hk he).elim
    have hsh : Shows (Function.update b.switches scope none)
        { law with engaged := {k | k ∈ law.engaged ∧ (k = scope → k ∈ law.configured)} } :=
      h.shown.update (And.intro hf fun hk => hf (hk.2 rfl)) (fun _ _ => Iff.rfl) hsa
    exact represents_persistSwitch (b := { b with switches := _ }) hsh h.recorded scope hsa
      reason actor now
  · have hse : {k | k ∈ law.engaged ∧ (k = scope → k ∈ law.configured)} = law.engaged := by
      ext k
      refine and_iff_left_of_imp fun hk he => ?_
      subst he
      exact hpi hk
    rw [if_neg hkept, hm, hse]
    exact h

end

theorem shows_restore {map : KillSwitches} {store : List KillSwitchState} (h : Shows map law) (hr : Recorded store engaged)
    (hpi : ∀ st ∈ store, st.engaged = true → st.configured = true →
    st.scope ∈ law.configured ∨ st.scope ∈ law.engaged)
    (he : ∀ k ∈ law.engaged, k ∈ engaged) :
    Shows (map.restore store) { law with engaged := engaged } := by
  have hse : {k | k ∈ law.engaged ∨ ∃ st ∈ store, st.scope = k ∧ st.engaged = true} = engaged := by
    ext k
    rw [Set.mem_ofPred, hr.exists_row_iff]
    exact or_iff_right_of_imp (he k)
  exact hse ▸ h.restore hpi

theorem Represents.restore (h : b.Represents law) : b.restore.Represents law :=
  ⟨shows_restore h.shown h.recorded
    (fun st hst ho _ => .inr ((h.recorded.right st hst).mp ho)) fun _ hk => hk, h.recorded⟩

theorem Represents.restart (h : b.Represents law) (venues : List Venue)
    (strategies : List String) (now : Int) (hpi : b.PinsListed (.restart venues strategies now)) :
    (b.restart venues strategies now).Represents
    { law with configured := {k | k ∈ listedScopes venues strategies} } :=
  ⟨shows_restore (represents_start venues strategies now).shown h.recorded
    (fun st hst ho hc => .inl (hpi st hst ho hc)) fun _ hk => hk.elim, h.recorded⟩

theorem Represents.step (h : b.Represents law) (op : Op) (hpi : b.PinsListed op) :
    (b.step op).Represents (law.after op) := by
  cases op with
  | applyConfig venues strategies now =>
    exact ⟨h.shown.applyConfig (listedScopes venues strategies) now, h.recorded⟩
  | engage scope reason actor now => exact h.engage scope reason actor now
  | release scope reason actor now => exact h.release scope reason actor now
  | persist scope reason actor now =>
    exact represents_persistSwitch h.shown h.recorded scope (fun _ _ => Iff.rfl) reason actor now
  | restart venues strategies now => exact h.restart venues strategies now hpi
  | restore => exact h.restore

end

abbrev BoardRun := Run fun (b : SwitchBoard) (op : Op) (b' : SwitchBoard) => b' = b.step op

def lawAfter (venues : List Venue) (strategies : List String)
    (tr : List (Entry SwitchBoard Op)) : SwitchLaw :=
  (tr.map Entry.label).foldl SwitchLaw.after (.start venues strategies)

section

variable {venues : List Venue} {strategies : List String} {now : Int}
  {tr : List (Entry SwitchBoard Op)} {b : SwitchBoard}
  (hr : BoardRun (start venues strategies now) tr b)

include hr

theorem represents_of_run (hpi : ∀ e ∈ tr, e.pre.PinsListed e.label) :
    b.Represents (lawAfter venues strategies tr) := by
  refine hr.invariant_history (I := fun tr b => b.Represents (lawAfter venues strategies tr)) ?_ hpi
    (represents_start venues strategies now)
  rintro tr b op _ h hpin rfl
  simp only [lawAfter, map_append, map_cons, map_nil, foldl_append, foldl_cons, foldl_nil]
  exact h.step op hpin

/-- While no restart reads a stale pin back: a scope is active exactly if the configuration
lists it or an operator engaged it and nobody has released it, its release is refused exactly
if the configuration lists it, and a restart keeps what operators engaged and forgets the
configuration before it. -/
theorem switches_mean_config_and_engaged (hpins : ∀ e ∈ tr, e.pre.PinsListed e.label) :
    let law := lawAfter venues strategies tr
    (∀ k, b.switches.active k = true ↔ k ∈ law.configured ∨ k ∈ law.engaged) ∧
      (∀ k, (b.switches.release k).2 = .pinnedByConfig ↔ k ∈ law.configured) ∧
      ∀ venues' strategies' now', b.PinsListed (.restart venues' strategies' now') →
        ∀ k, (b.restart venues' strategies' now').switches.active k = true ↔
          k ∈ listedScopes venues' strategies' ∨ k ∈ law.engaged := by
  have h := represents_of_run hr hpins
  refine ⟨h.shown.active, h.shown.pinned, ?_⟩
  intro venues' strategies' now' hpi
  exact (h.restart venues' strategies' now' hpi).shown.active

end

/-- The configuration pins one venue, an operator engages another and the engine is restarted
without the pin. -/
theorem switches_mean_config_and_engaged_two_venues :
    let b := ((start [.pumpFun] [] 0).step (.engage (.venue .jupiter) "halt" "ops" 1)).step
      (.restart [] [] 2)
    b.switches.active (.venue .jupiter) = true ∧ ¬ b.switches.active (.venue .pumpFun) = true := by
  intro b
  have hr : BoardRun (start [.pumpFun] [] 0) _ b := (Run.single rfl).append (Run.single rfl)
  have hm := (switches_mean_config_and_engaged hr (by
    rintro e he
    rcases mem_cons.mp he with rfl | he
    · trivial
    · rw [mem_singleton.mp he]
      unfold PinsListed
      decide)).1
  refine ⟨(hm _).mpr (Or.inr ?_), fun ha => ?_⟩
  · exact Set.mem_insert _ _
  · rcases (hm _).mp ha with hl | hen
    · exact not_mem_nil hl
    · rcases hen with heq | hn
      · cases heq
      · exact hn

/-- The switch was engaged while the configuration pinned it. After a restart without the pin
it refuses its release, though no configuration lists it. -/
theorem stale_pin_refuses_release :
    let b := ((start [.pumpFun] [] 0).step (.engage (.venue .pumpFun) "halt" "ops" 1)).step
      (.restart [] [] 2)
    (b.switches.release (.venue .pumpFun)).2 = .pinnedByConfig ∧
      KillScope.venue .pumpFun ∉ listedScopes [] [] := by
  decide

end SwitchBoard

end SniperBot.GlobalRisk
