import SniperBot.Flags.Replica

/-!
# Local decisions and rows of other replicas

A row that is not in the safe direction may change a flag only if it is newer than the replica's
last decision about it. But a decision is stamped by a later section, a repeated one about a
module not at all, and a row is judged by one section and applied by another. Where these gaps are
not used, no row overrides a newer decision.
-/

namespace SniperBot.Flags

open Lib.Runs Lib.Interleaving Positions List Section Prod

/-- A row that its flag's last local decision is compared with. -/
def gated (f : Flag) (row : RuntimeFlag) : Bool := !(f.isLatch && row.enabled)

namespace Section

/-- The flags that the section decides about, each with the replica. -/
def decides : Section → List (String × Flag)
  | .setKill r _ _ | .stopKill r _ => [(r, .killSwitch)]
  | .stopHalt r _ | .clearHalt r => [(r, .halted)]
  | .stopModules r _ => BotModule.trading.map fun m => (r, .module m)
  | .setEnabled r m _ _ => [(r, .module m)]
  | _ => []

/-- The flags that the call has decided about, or will publish, without a stamp yet. -/
def unstamped : Section → List (String × Flag)
  | .stopHalt r _ => [(r, .killSwitch)]
  | .stopModules r _ => [(r, .killSwitch), (r, .halted)]
  | .stamp f _ rest => (rest.replica, f) :: rest.flags.map fun p => (rest.replica, p.1)
  | .write _ _ rest => rest.flags.map fun p => (rest.replica, p.1)
  | _ => []

def judges : Section → Option (String × Flag)
  | .sync ⟨r, row :: _, _⟩ =>
    (Flag.ofName row.flag).bind fun f => if gated f row then some (r, f) else none
  | _ => none

def judged : Section → Option (String × Flag × RuntimeFlag)
  | .load f row round | .store f row round =>
    if gated f row then some (round.replica, f, row) else none
  | _ => none

def rows : Section → List RuntimeFlag
  | .sync round => round.rows
  | .load _ row round | .store _ row round => row :: round.rows
  | _ => []

end Section

/-- No decision about a flag is made under a round that has judged a row of it, and no
row of a flag is judged under a call that has yet to stamp a decision about it. -/
def Considerate (_ : Cluster) (k k' : Section) : Prop :=
  (∀ p ∈ k.decides, ∀ j ∈ k'.judged, (j.1, j.2.1) ≠ p) ∧ ∀ p ∈ k.judges, p ∉ k'.unstamped

instance (c : Cluster) (k k' : Section) : Decidable (Considerate c k k') := by
  unfold Considerate
  infer_instance

abbrev Event := Entry (State Cluster Section) (Label Section Reply)

def Changing (e : Event) : Prop :=
  match e.label with
  | .act (.setEnabled r m on _) _ => (e.pre.shared.replicas r).enabled m ≠ on
  | _ => True

instance (e : Event) : Decidable (Changing e) := by
  unfold Changing
  split <;> infer_instance

section

variable (r : String) (f : Flag)

def Decides (e : Event) : Prop :=
  match e.label with
  | .act k _ => (r, f) ∈ k.decides
  | .call _ => False

/-- A round of the replica applies the row and changes the flag by it, and not in the
safe direction. -/
def Overrides (row : RuntimeFlag) (e : Event) : Prop :=
  match e.label with
  | .act (.store f' row' round) _ =>
    f' = f ∧ row' = row ∧ round.replica = r ∧
      (e.post.shared.replicas r).flag f ≠ (e.pre.shared.replicas r).flag f ∧
      (f.isLatch = true → (e.post.shared.replicas r).flag f = false)
  | _ => False

instance  (e : Event) : Decidable (Decides r f e) := by
  unfold Decides
  split <;> infer_instance

instance  (row : RuntimeFlag) (e : Event) : Decidable (Overrides r f row e) := by
  unfold Overrides
  split <;> infer_instance

end

/-! ## One section -/

variable {c : Cluster} {k k' : Section} {r : String} {f : Flag} {row row' : RuntimeFlag}
  {moment : Int} {p : Replica}

theorem now_le_act (k : Section) (c : Cluster) : c.now ≤ (act k c).1.now := by
  cases k with
  | wait secs =>
    show c.now ≤ c.now + secs
    omega
  | sync round => obtain ⟨r, rows, report⟩ := round; cases rows <;> exact le_rfl
  | _ => exact le_rfl

theorem touched_act (k : Section) (c : Cluster) (r : String) :
    ((act k c).1.replicas r).touched = (c.replicas r).touched ∨
    ∃ f on rest, k = .stamp f on rest ∧ r = rest.replica ∧
      ((act k c).1.replicas r).touched = (c.replicas r).touched.insert f.name c.now := by
  cases k with
  | stamp f on rest =>
    simp only [act, Cluster.replicas_onReplica]
    split
    · next h => exact .inr ⟨f, on, rest, rfl, h, by rw [h]; rfl⟩
    · exact .inl rfl
  | sync round => obtain ⟨r, rows, report⟩ := round; cases rows <;> exact .inl rfl
  | setKill | stopKill | stopHalt | clearHalt | setEnabled | store =>
    exact .inl (c.touched_onReplica (fun p => p.touched_setFlag _ _) r)
  | stopModules => exact .inl (c.touched_onReplica (fun p => p.touched_disableTrading) r)
  | wait | write | readAll | load => exact .inl rfl

theorem stamped_act (hn : moment ≤ c.now)
    (h : ∃ at' ∈ (c.replicas r).touched.lookup f.name, moment ≤ at') :
    ∃ at' ∈ ((act k c).1.replicas r).touched.lookup f.name, moment ≤ at' := by
  rcases touched_act k c r with hsa | ⟨f', on, rest, -, -, hst⟩
  · rwa [hsa]
  · rw [hst]
    by_cases hf : f.name = f'.name
    · rw [hf, Finmap.lookup_insert]
      exact ⟨c.now, rfl, hn⟩
    · rwa [Finmap.lookup_insert_of_ne _ hf]

theorem unstamped_next (rest : Pending) (h : f ∈ rest.flags.map fst) :
    ∃ k', rest.next = .inl k' ∧ (rest.replica, f) ∈ k'.unstamped := by
  obtain ⟨r, reason, flags, modules⟩ := rest
  cases flags with
  | nil => cases h
  | cons p flags =>
    refine ⟨_, rfl, ?_⟩
    show (r, f) ∈ (r, p.1) :: flags.map fun p => (r, p.1)
    rcases mem_cons.mp h with rfl | h
    · exact mem_cons_self
    · obtain ⟨q, hq, rfl⟩ := mem_map.mp h
      exact mem_cons_of_mem _ (mem_map_of_mem hq)

theorem unstamped_act (h : (r, f) ∈ k.unstamped) :
    (∃ k', (act k c).2 = .inl k' ∧ (r, f) ∈ k'.unstamped) ∨
    ((act k c).1.replicas r).touched.lookup f.name = some c.now := by
  cases k with
  | stopHalt r' reason =>
    obtain ⟨rfl, rfl⟩ := mk.inj (mem_singleton.mp h)
    exact .inl ⟨_, rfl, mem_cons_self⟩
  | stopModules r' reason =>
    have hr : r = r' := by
      simp only [unstamped, mem_cons, mk.injEq] at h
      tauto
    subst hr
    have hf : f ∈ emergencyFlags.map fst := by
      simp only [unstamped, mem_cons, not_mem_nil, or_false] at h
      rcases h with ⟨-, rfl⟩ | ⟨-, rfl⟩ <;> decide
    exact .inl (unstamped_next ⟨r, reason, emergencyFlags, []⟩ hf)
  | stamp f' on rest =>
    rcases mem_cons.mp h with h | h
    · obtain ⟨rfl, rfl⟩ := mk.inj h
      right
      simp only [act, Cluster.replicas_onReplica]
      exact Finmap.lookup_insert _
    · exact .inl ⟨_, rfl, h⟩
  | write f' on rest =>
    obtain ⟨p, hp, hpf⟩ := mem_map.mp h
    obtain ⟨rfl, rfl⟩ := mk.inj hpf
    exact .inl (unstamped_next rest (mem_map_of_mem hp))
  | _ => cases h

theorem unstamped_of_decides (h : (r, f) ∈ k.decides)
    (hc : ∀ r m on rest, k = .setEnabled r m on rest → (c.replicas r).enabled m ≠ on) :
    ∃ k', (act k c).2 = .inl k' ∧ (r, f) ∈ k'.unstamped := by
  cases k with
  | setKill r' on reason | stopKill r' reason | clearHalt r' =>
    obtain ⟨rfl, rfl⟩ := mk.inj (mem_singleton.mp h)
    exact ⟨_, rfl, mem_cons_self⟩
  | stopHalt r' reason =>
    obtain ⟨rfl, rfl⟩ := mk.inj (mem_singleton.mp h)
    exact ⟨_, rfl, mem_cons_of_mem _ mem_cons_self⟩
  | stopModules r' reason =>
    obtain ⟨m, hm, hmf⟩ := mem_map.mp h
    obtain ⟨rfl, rfl⟩ := mk.inj hmf
    refine unstamped_next ⟨r', reason, emergencyFlags, []⟩ ?_
    show Flag.module m ∈ emergencyFlags.map fst
    simpa [emergencyFlags] using hm
  | setEnabled r' m on rest =>
    obtain ⟨rfl, rfl⟩ := mk.inj (mem_singleton.mp h)
    simp only [act, if_neg (hc r m on rest rfl)]
    exact ⟨_, rfl, mem_cons_self⟩
  | _ => cases h

/-! ## Rows and their names -/

def RuntimeFlag.Named (row : RuntimeFlag) : Prop := ∃ f, row.flag = Flag.name f

theorem RuntimeFlag.Named.flag_eq (h : row.Named) (hf : Flag.ofName row.flag = some f) :
    row.flag = f.name := by
  obtain ⟨g, hg⟩ := h
  rw [hg, Flag.ofName_name] at hf
  rw [hg, Option.some.inj hf]

theorem next_not_round {rest : Pending} (h : rest.next = .inl k') :
    k'.rows = [] ∧ k'.judged = none := by
  obtain ⟨r, reason, flags, modules⟩ := rest
  cases flags with
  | cons p flags =>
    obtain rfl := Sum.inl.inj h
    exact ⟨rfl, rfl⟩
  | nil =>
    cases modules with
    | cons m modules =>
      obtain rfl := Sum.inl.inj h
      exact ⟨rfl, rfl⟩
    | nil => cases h

theorem judge_cases {round : Round} {f : Flag}
    (h : (judge round row p).judged = some (r, f, row')) :
    row' = row ∧ r = round.replica ∧ Flag.ofName row.flag = some f ∧ gated f row = true ∧
    p.remoteFlagIsCurrent row = true := by
  unfold judge at h
  split at h
  · cases h
  · next g hg =>
    split at h
    · next hsa =>
      split at h
      · cases h
      · simp [judged, gated, hsa] at h
    · next hga =>
      split at h
      · next hc =>
        split at h <;> simp only [judged, Option.ite_none_right_eq_some, Option.some.injEq,
            mk.injEq] at h <;>
          exact ⟨h.2.2.2.symm, h.2.1.symm, h.2.2.1 ▸ hg, h.2.2.1 ▸ h.1, hc⟩
      · cases h

theorem rows_judge {round : Round} {q : RuntimeFlag}
    (h : q ∈ (judge round row p).rows) : q ∈ row :: round.rows := by
  unfold judge at h
  split at h
  · exact mem_cons_of_mem _ h
  · split at h
    · split at h
      · exact mem_cons_of_mem _ h
      · exact h
    · split at h
      · split at h <;> exact h
      · exact mem_cons_of_mem _ h

theorem rows_of_act (hnext : (act k c).2 = .inl k') (hro : row ∈ k'.rows) :
    row ∈ k.rows ∨ row ∈ c.rows := by
  cases k with
  | readAll r =>
    obtain rfl := Sum.inl.inj hnext
    exact .inr hro
  | sync round =>
    obtain ⟨r, rows, report⟩ := round
    cases rows with
    | nil => cases hnext
    | cons row' rows =>
      obtain rfl := Sum.inl.inj hnext
      exact .inl (rows_judge hro)
  | load f row' round =>
    obtain rfl := Sum.inl.inj hnext
    left
    split at hro
    · exact mem_cons_of_mem _ hro
    · exact hro
  | store f row' round =>
    obtain rfl := Sum.inl.inj hnext
    have hr : (round.stored f ((c.replicas round.replica).flag f != row'.enabled)).rows =
        round.rows := by
      unfold Round.stored
      split
      · rfl
      · split <;> rfl
    exact .inl (mem_cons_of_mem _ (hr ▸ hro))
  | stopKill | stopHalt | stamp =>
    obtain rfl := Sum.inl.inj hnext
    cases hro
  | setEnabled r m on rest =>
    simp only [act] at hnext
    split at hnext <;> rw [(next_not_round hnext).1] at hro <;> cases hro
  | setKill | stopModules | clearHalt | write =>
    simp only [act] at hnext
    rw [(next_not_round hnext).1] at hro
    cases hro
  | wait => cases hnext

theorem table_act (hr : row ∈ (act k c).1.rows) : row ∈ c.rows ∨ row.Named := by
  cases k with
  | write f on rest =>
    rcases mem_upsertRow hr with rfl | h
    · exact .inr ⟨f, rfl⟩
    · exact .inl h
  | sync round =>
    obtain ⟨r, rows, report⟩ := round
    cases rows <;> exact .inl hr
  | _ => exact .inl hr

variable {s t : State Cluster Section} {a : Label Section Reply} {tr : List Event}

structure WellNamed (s : State Cluster Section) : Prop where
  table : ∀ row ∈ s.shared.rows, row.Named
  calls : ∀ k ∈ s.running, ∀ row ∈ k.rows, row.Named

theorem WellNamed.step (h : WellNamed s) (hs : Step act IsCall s a t) : WellNamed t where
  table row hrow := by
    rcases hs.shared_cases with ⟨k, -, hsh⟩ | ⟨k, -, -, hsh⟩
    · exact h.table row (hsh ▸ hrow)
    · rw [hsh] at hrow
      rcases table_act hrow with hrow | hn
      · exact h.table row hrow
      · exact hn
  calls k' hk' row hrow := by
    rcases hs.mem_running hk' with ⟨-, -, -, hc | hm⟩ | ⟨k, hk, -, -, hm | hnext⟩
    · cases hc <;> cases hrow
    · exact h.calls k' hm row hrow
    · exact h.calls k' (mem_of_mem_erase hm) row hrow
    · rcases rows_of_act hnext hrow with hrow | hrow
      · exact h.calls k hk row hrow
      · exact h.table row hrow

/-! ## Whole runs -/

theorem judged_of_act (hnext : (act k c).2 = .inl k') (hj : k'.judged = some (r, f, row)) :
    k.judged = some (r, f, row) ∨
    k.judges = some (r, f) ∧ row ∈ k.rows ∧ Flag.ofName row.flag = some f ∧
      (c.replicas r).remoteFlagIsCurrent row = true := by
  cases k with
  | sync round =>
    obtain ⟨r', rows, report⟩ := round
    cases rows with
    | nil => cases hnext
    | cons row' rows =>
      obtain rfl := Sum.inl.inj hnext
      obtain ⟨rfl, rfl, hf, hg, hc⟩ := judge_cases hj
      refine .inr ⟨?_, mem_cons_self, hf, hc⟩
      simp [judges, hf, hg]
  | load f' row' round =>
    obtain rfl := Sum.inl.inj hnext
    split at hj
    · cases hj
    · exact .inl hj
  | store f' row' round | stopKill | stopHalt | stamp | readAll =>
    obtain rfl := Sum.inl.inj hnext
    cases hj
  | setEnabled r' m on rest =>
    simp only [act] at hnext
    split at hnext <;> rw [(next_not_round hnext).2] at hj <;> cases hj
  | setKill | stopModules | clearHalt | write =>
    simp only [act] at hnext
    rw [(next_not_round hnext).2] at hj
    cases hj
  | wait => cases hnext

/-- A decision about the flag, made at `moment`: it is stamped or about to be, and every
row of the flag that is about to be applied is not older. -/
structure Recorded (r : String) (f : Flag) (moment : Int) (s : State Cluster Section) : Prop where
  past : moment ≤ s.shared.now
  stamped : (∃ k ∈ s.running, (r, f) ∈ k.unstamped) ∨
    ∃ at' ∈ (s.shared.replicas r).touched.lookup f.name, moment ≤ at'
  older : ∀ k ∈ s.running, ∀ row, k.judged = some (r, f, row) → moment ≤ row.updatedAt

theorem now_le_step (hs : Step act IsCall s a t) : s.shared.now ≤ t.shared.now := by
  rcases hs.shared_cases with ⟨k, -, hsh⟩ | ⟨k, -, -, hsh⟩
  · rw [hsh]
  · rw [hsh]
    exact now_le_act k s.shared

theorem le_of_current (hf : row.flag = f.name) (hst : ∃ at' ∈ p.touched.lookup f.name, moment ≤ at')
    (hc : p.remoteFlagIsCurrent row = true) : moment ≤ row.updatedAt := by
  obtain ⟨at', ha, hle⟩ := hst
  rw [Replica.remoteFlagIsCurrent, hf, ha] at hc
  have hl : at' < row.updatedAt := by simpa using hc
  omega

theorem Recorded.step (h : Recorded r f moment s) (hn : WellNamed s)
    (ha : Apart Considerate ⟨s, a, t⟩) (hs : Step act IsCall s a t) :
    Recorded r f moment t where
  past := h.past.trans (now_le_step hs)
  stamped := by
    rcases h.stamped with ⟨k, hk, hun⟩ | hst
    · rcases hs.persists hk with hk | ⟨hsh, hnext⟩
      · exact .inl ⟨k, hk, hun⟩
      · rcases unstamped_act hun with ⟨k', hk', hu'⟩ | hl
        · exact .inl ⟨k', hnext k' hk', hu'⟩
        · exact .inr ⟨s.shared.now, by rw [hsh]; exact hl, h.past⟩
    · right
      rcases hs.shared_cases with ⟨k, -, hsh⟩ | ⟨k, -, -, hsh⟩
      · rwa [hsh]
      · rw [hsh]
        exact stamped_act h.past hst
  older k' hk' row hj := by
    rcases hs.mem_running hk' with ⟨-, -, -, hc | hm⟩ | ⟨k, hk, rfl, -, hm | hnext⟩
    · cases hc <;> cases hj
    · exact h.older k' hm row hj
    · exact h.older k' (mem_of_mem_erase hm) row hj
    · rcases judged_of_act hnext hj with hj | ⟨hju, hr, hf, hcu⟩
      · exact h.older k hk row hj
      · -- the row is judged now: no other call may still have to stamp the decision
        refine le_of_current ((hn.calls k hk row hr).flag_eq hf) ?_ hcu
        rcases h.stamped with ⟨k₀, hk₀, hun⟩ | hst
        · have hne : k₀ ≠ k := by
            rintro rfl
            cases k₀ with
            | sync round => cases hun
            | _ => cases hju
          exact absurd hun ((ha k₀ ((mem_erase_of_ne hne).mpr hk₀)).2 (r, f) hju)
        · exact hst

theorem recorded_of_decides (ha : Apart Considerate ⟨s, a, t⟩) (hc : Changing ⟨s, a, t⟩)
    (hs : Step act IsCall s a t) (hd : Decides r f ⟨s, a, t⟩) :
    Recorded r f s.shared.now t := by
  rcases hs.shared_cases with ⟨k, rfl, -⟩ | ⟨k, hk, rfl, hsh⟩
  · exact hd.elim
  have hde : (r, f) ∈ k.decides := hd
  have hn : ∀ r m on rest, k = .setEnabled r m on rest → (s.shared.replicas r).enabled m ≠ on := by
    rintro r m on rest rfl
    exact hc
  obtain ⟨k₁, hk₁, hun⟩ := unstamped_of_decides hde hn
  refine ⟨now_le_step hs, .inl ⟨k₁, ?_, hun⟩, ?_⟩
  · rw [hk₁] at hs
    exact hs.mem_next
  · intro k' hk' row hj
    rcases hs.mem_running hk' with ⟨_, hl, -⟩ | ⟨_, -, hl, -, hm | hnext⟩
    · cases hl
    · obtain ⟨rfl, -⟩ := Label.act.inj hl
      exact absurd rfl ((ha k' hm).1 (r, f) hde (r, f, row) hj)
    · obtain ⟨rfl, -⟩ := Label.act.inj hl
      rcases judged_of_act hnext hj with hj | ⟨hju, -⟩
      · cases k <;> first | cases hj | cases hde
      · cases k <;> first | cases hju | cases hde

/-- In every interleaving in which decisions and the rounds about the same flag keep out
of each other's way and no decision about a module repeats its value, a row that
overrides a flag is never older than a decision of that replica about it. -/
theorem sync_never_overrides_newer {tr1 tr2 tr3 : List Event} {d e : Event}
    (hrows : ∀ row ∈ c.rows, row.Named) (hr : Run (Step act IsCall) ⟨c, []⟩ tr t)
    (hapart : ∀ e ∈ tr, Apart Considerate e) (hchanging : ∀ e ∈ tr, Changing e)
    (htr : tr = tr1 ++ d :: (tr2 ++ e :: tr3)) (hd : Decides r f d) (he : Overrides r f row e) :
    d.pre.shared.now ≤ row.updatedAt := by
  subst htr
  obtain ⟨hr1, hsd, hr2⟩ := hr.around
  obtain ⟨hr2, hse, -⟩ := hr2.around
  have hst : WellNamed ⟨c, []⟩ := ⟨hrows, by simp⟩
  have hn := (hr1.invariant (fun _ _ _ h hs => h.step hs) hst).step hsd
  have hre := recorded_of_decides (hapart d (by simp)) (hchanging d (by simp)) hsd hd
  obtain ⟨-, hre⟩ := hr2.invariant_of_entries (I := fun s => WellNamed s ∧ Recorded r f _ s)
    (fun _ _ _ h hP hs => ⟨h.1.step hs, h.2.step h.1 hP hs⟩)
    (fun e he => hapart e (by simp [he])) ⟨hn, hre⟩
  obtain ⟨pre, label, post⟩ := e
  have hse : Step act IsCall pre label post := hse
  rcases hse.shared_cases with ⟨k, rfl, -⟩ | ⟨k, hk, rfl, hsh⟩
  · exact he.elim
  cases k with
  | store f' row' round =>
    obtain ⟨rfl, rfl, rfl, -, hsa⟩ := he
    refine hre.older _ hk row' ?_
    have hv : (post.shared.replicas round.replica).flag f' = row'.enabled := by
      rw [show post.shared = _ from hsh]
      simp [act, Cluster.replicas_onReplica, Replica.flag_setFlag_self]
    rw [hv] at hsa
    have hg : gated f' row' = true := by
      simp only [gated, Bool.not_eq_true', Bool.and_eq_false_imp]
      exact hsa
    simp [judged, hg]
  | _ => exact he.elim

/-! ## Decisions that a round overrides -/

private def booted : Cluster := ⟨0, [], fun _ => ⟨false, false, fun _ => false, ∅⟩⟩

private def toggle (r : String) (on : Bool) : Section := .setEnabled r .sniper on []

private def repeating : List (Move Section) :=
  [.call (toggle "b" true), .go 0, .go 0, .go 0, .call (.wait 10), .go 0,
    .call (toggle "a" false), .go 0, .call (.readAll "a"), .go 0, .go 0, .go 0]

/-- Replica `a` judges a row that releases the kill switch, and the operator engages it
before the row is applied. -/
private def racing : List (Move Section) :=
  [.call (.setKill "b" false "resume"), .go 0, .go 0, .go 0, .call (.wait 10), .go 0,
    .call (.readAll "a"), .go 0, .go 0, .call (.setKill "a" true "operator"), .go 0, .go 1, .go 1]

private def following : List (Move Section) :=
  [.call (toggle "a" true), .go 0, .go 0, .go 0, .call (.wait 10), .go 0,
    .call (toggle "b" true), .go 0, .go 0, .go 0, .call (toggle "b" false), .go 0, .go 0, .go 0,
    .call (.readAll "a"), .go 0, .go 0, .go 0]

private theorem allowed_flags {ms : List (Move Section)}
    (hm : ms = repeating ∨ ms = racing ∨ ms = following) : ∀ m ∈ ms, m.Allowed IsCall := by
  rcases hm with rfl | rfl | rfl <;>
    simp [repeating, racing, following, toggle, Move.Allowed, IsCall.setEnabled, IsCall.setKill,
      IsCall.wait, IsCall.sync]

/-- What a step shows about the flag in replica `a`, with the row it may have applied. -/
private def seen (f : Flag) (row : RuntimeFlag) (e : Event) : Bool × Bool × Int :=
  (decide (Decides "a" f e), decide (Overrides "a" f row e), e.pre.shared.now)

private theorem split_seen {moment now : Int} {l1 l2 l3 : List (Bool × Bool × Int)}
    (h : tr.map (seen f row) = l1 ++ (true, false, moment) :: (l2 ++ (false, true, now) :: l3)) :
    ∃ tr1 d tr2 e tr3, tr = tr1 ++ d :: (tr2 ++ e :: tr3) ∧ Decides "a" f d ∧
    Overrides "a" f row e ∧ d.pre.shared.now = moment := by
  obtain ⟨tr1, rest, rfl, -, h⟩ := map_eq_append_iff.mp h
  obtain ⟨d, rest, rfl, hd, h⟩ := map_eq_cons_iff.mp h
  obtain ⟨tr2, rest, rfl, -, h⟩ := map_eq_append_iff.mp h
  obtain ⟨e, tr3, rfl, he, -⟩ := map_eq_cons_iff.mp h
  simp only [seen, mk.injEq, decide_eq_true_eq] at hd he
  exact ⟨tr1, d, tr2, e, tr3, rfl, hd.1, he.2.1, hd.2.2⟩

theorem sync_never_overrides_newer_following :
    ∃ tr t tr1 d tr2 e tr3 row, (∀ row ∈ booted.rows, row.Named) ∧
      Run (Step act IsCall) ⟨booted, []⟩ tr t ∧ (∀ e ∈ tr, Apart Considerate e) ∧
      (∀ e ∈ tr, Changing e) ∧ tr = tr1 ++ d :: (tr2 ++ e :: tr3) ∧
      Decides "a" (.module .sniper) d ∧ Overrides "a" (.module .sniper) row e ∧
      d.pre.shared.now ≤ row.updatedAt := by
  let row : RuntimeFlag := ⟨"module:sniper", false, "operator/gate", "b", 10⟩
  obtain ⟨tr, t, hr, ha, hc, hse⟩ : ∃ tr t, Run (Step act IsCall) ⟨booted, []⟩ tr t ∧
      (∀ e ∈ tr, Apart Considerate e) ∧ (∀ e ∈ tr, Changing e) ∧
        tr.map (seen (.module .sniper) row) =
          (tr.take 1).map (seen (.module .sniper) row) ++ (true, false, 0) ::
            (((tr.drop 2).take 15).map (seen (.module .sniper) row) ++ [(false, true, 10)]) :=
    exists_run_of_follow following (allowed_flags (.inr (.inr rfl))) (by decide +kernel)
  obtain ⟨tr1, d, tr2, e, tr3, htr, hd, he, -⟩ := split_seen hse
  have hro : ∀ row ∈ booted.rows, row.Named := by simp [booted]
  exact ⟨tr, t, tr1, d, tr2, e, tr3, row, hro, hr, ha, hc, htr, hd, he,
    sync_never_overrides_newer hro hr ha hc htr hd he⟩

/-- A decision that repeats the module's value leaves no stamp, and a row ten seconds
older undoes it although no two calls overlap. -/
theorem sync_overrides_repeated_decision :
    ∃ tr t tr1 d tr2 e tr3 row, Run (Step act IsCall) ⟨booted, []⟩ tr t ∧
      (∀ e ∈ tr, e.pre.running.length ≤ 1) ∧ tr = tr1 ++ d :: (tr2 ++ e :: tr3) ∧
      Decides "a" (.module .sniper) d ∧ Overrides "a" (.module .sniper) row e ∧
      row.updatedAt + 10 = d.pre.shared.now := by
  let row : RuntimeFlag := ⟨"module:sniper", true, "operator/gate", "b", 0⟩
  obtain ⟨tr, t, hr, ho, hse⟩ : ∃ tr t, Run (Step act IsCall) ⟨booted, []⟩ tr t ∧
      (∀ e ∈ tr, e.pre.running.length ≤ 1) ∧ tr.map (seen (.module .sniper) row) =
        (tr.take 7).map (seen (.module .sniper) row) ++ (true, false, 10) ::
          (((tr.drop 8).take 3).map (seen (.module .sniper) row) ++ [(false, true, 10)]) :=
    exists_run_of_follow repeating (allowed_flags (.inl rfl)) (by decide +kernel)
  obtain ⟨tr1, d, tr2, e, tr3, htr, hd, he, hm⟩ := split_seen hse
  exact ⟨tr, t, tr1, d, tr2, e, tr3, row, hr, ho, htr, hd, he, hm.symm⟩

/-- A kill switch engaged while a round stands between judging and applying a row is
released by the row. -/
theorem sync_overrides_racing_decision :
    ∃ tr t tr1 d tr2 e tr3 row, Run (Step act IsCall) ⟨booted, []⟩ tr t ∧
    (∀ e ∈ tr, Changing e) ∧ tr = tr1 ++ d :: (tr2 ++ e :: tr3) ∧
    Decides "a" .killSwitch d ∧ Overrides "a" .killSwitch row e ∧
    row.updatedAt + 10 = d.pre.shared.now := by
  let row : RuntimeFlag := ⟨"kill_switch", false, "resume", "b", 0⟩
  obtain ⟨tr, t, hr, hc, hse⟩ : ∃ tr t, Run (Step act IsCall) ⟨booted, []⟩ tr t ∧
      (∀ e ∈ tr, Changing e) ∧ tr.map (seen .killSwitch row) =
        (tr.take 10).map (seen .killSwitch row) ++ (true, false, 10) ::
          (((tr.drop 11).take 1).map (seen .killSwitch row) ++ [(false, true, 10)]) :=
    exists_run_of_follow racing (allowed_flags (.inr (.inl rfl))) (by decide +kernel)
  obtain ⟨tr1, d, tr2, e, tr3, htr, hd, he, hm⟩ := split_seen hse
  exact ⟨tr, t, tr1, d, tr2, e, tr3, row, hr, hc, htr, hd, he, hm.symm⟩

end SniperBot.Flags
