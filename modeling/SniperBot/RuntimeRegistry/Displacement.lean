import SniperBot.RuntimeRegistry.Generations

/-!
# Healthy runtimes and the calls that stop runtimes

A reaper and a takeover both decide on a row that they have read, and write later. Where the row
they stop still has the heartbeat that was read, it is stale at the moment of the write, too.
-/

namespace SniperBot.RuntimeRegistry

open Lib.Rows Lib.Runs Lib.Interleaving List
open List (Forall₂)

/-! ## Which runtimes a section stops -/

/-- The runtimes that the next section of a call is about to stop. -/
def Call.Targets (r : TenantRuntimeRecord) : Call → Prop
  | .takeOver _ org _ _ _ | .rotate org _ _ _ => r.LiveFor org = true
  | .stop id _ => r.runtimeId = id
  | .reap _ record _ _ => r.runtimeId = record.runtimeId
  | _ => False

def StoppedOnly (P : TenantRuntimeRecord → Prop) (r r' : TenantRuntimeRecord) : Prop :=
  r.status.isLive = true → r'.status = .stopped → P r

variable {P : TenantRuntimeRecord → Prop} {r r' : TenantRuntimeRecord}

theorem StoppedOnly.of_same (h : r'.status = r.status) : StoppedOnly P r r' := by
  intro hl hst
  rw [← h, hst] at hl
  cases hl

variable (rows : Rows) (id : String) (now : Int)

theorem stoppedOnly_refl : Forall₂ (StoppedOnly P) rows rows :=
  forall₂_same.mpr fun _ _ => .of_same rfl

theorem setStatus_stoppedOnly :
    Forall₂ (StoppedOnly fun r => r.runtimeId = id) rows (rows.setStatus id .stopped now) := by
  refine forall₂_modifyFirst (fun r => .of_same rfl) ?_ rows
  intro r hi _ _
  exact of_decide_eq_true hi

theorem drain_stoppedOnly : Forall₂ (StoppedOnly P) rows (rows.setStatus id .draining now) := by
  refine forall₂_modifyFirst (fun r => .of_same rfl) ?_ rows
  intro r _
  split_ifs with hte hd
  · exact .of_same rfl
  · cases hd
  · intro _ hst
    cases hst

theorem heartbeat_stoppedOnly : Forall₂ (StoppedOnly P) rows (rows.heartbeat id now).1 := by
  unfold Rows.heartbeat
  cases rows.find? fun r => r.runtimeId = id with
  | none => exact stoppedOnly_refl rows
  | some r =>
    dsimp only
    split_ifs
    · exact forall₂_modifyFirst (fun r => .of_same rfl) (fun r _ => .of_same rfl) rows
    · exact stoppedOnly_refl rows

theorem stopLive_stoppedOnly (org : String) (now : Int) :
    Forall₂ (StoppedOnly fun r => r.LiveFor org = true) rows (rows.stopLive org now) := by
  refine forall₂_map ?_
  intro r _
  split_ifs with hl
  · intro _ _
    exact hl
  · exact .of_same rfl

theorem act_stops (policy : LeasePolicy) (k : Call) (x : Registry)
    (hr : (r, r') ∈ x.rows.zip (act policy k x).1.rows) (hl : r.status.isLive = true)
    (hst : r'.status = .stopped) : k.Targets r := by
  have hpa : ∃ rows added, (act policy k x).1.rows = rows ++ added ∧
      Forall₂ (StoppedOnly fun r => k.Targets r) x.rows rows := by
    have hsa := stoppedOnly_refl (P := fun r => k.Targets r) x.rows
    cases k with
    | ensureActive org worker now newId =>
      rw [act_ensureActive_fst]
      exact ⟨x.rows, [], (append_nil _).symm, hsa⟩
    | register | tick => exact ⟨x.rows, [], (append_nil _).symm, hsa⟩
    | insert record =>
      simp only [act]
      cases hi : x.rows.insert record with
      | error e => exact ⟨x.rows, [], (append_nil _).symm, hsa⟩
      | ok rows =>
        obtain ⟨rfl, -⟩ := Rows.insert_ok hi
        exact ⟨x.rows, [record], rfl, hsa⟩
    | takeOver _ org _ now | rotate org _ now =>
      exact ⟨_, _, rfl, stopLive_stoppedOnly x.rows org now⟩
    | heartbeat id now =>
      exact ⟨_, [], (append_nil _).symm, heartbeat_stoppedOnly x.rows id now⟩
    | drain id now => exact ⟨_, [], (append_nil _).symm, drain_stoppedOnly x.rows id now⟩
    | stop id now => exact ⟨_, [], (append_nil _).symm, setStatus_stoppedOnly x.rows id now⟩
    | reapStale now =>
      rw [act_reapStale_fst]
      exact ⟨x.rows, [], (append_nil _).symm, hsa⟩
    | reap now record =>
      exact ⟨_, [], (append_nil _).symm, setStatus_stoppedOnly x.rows record.runtimeId now⟩
  obtain ⟨rows, added, hro, hf⟩ := hpa
  rw [hro] at hr
  exact of_mem_zip_append hf hr hl hst

/-! ## What a call under way has read -/

/-- The time of a call has come, and the runtimes it is to stop were its worker's own or stale
when it read them. -/
def Call.Grounded (policy : LeasePolicy) (clock : Int) : Call → Prop
  | .ensureActive _ _ now _ | .reapStale now => now ≤ clock
  | .takeOver existing _ worker now _ => now ≤ clock ∧
    (existing.workerId = worker ∨ existing.isHeartbeatFresh now policy.staleAfter = false)
  | .reap now record rest _ => now ≤ clock ∧
    ∀ r ∈ record :: rest, r.isHeartbeatFresh now policy.staleAfter = false
  | _ => True

theorem Call.Grounded.later {policy : LeasePolicy} {clock clock' : Int} {k : Call}
    (h : k.Grounded policy clock) (hle : clock ≤ clock') : k.Grounded policy clock' := by
  cases k with
  | ensureActive | reapStale => exact Int.le_trans h hle
  | takeOver | reap => exact ⟨Int.le_trans h.1 hle, h.2⟩
  | _ => trivial

theorem clock_le_act (policy : LeasePolicy) (k : Call) (x : Registry) :
    x.clock ≤ (act policy k x).1.clock := by
  cases k with
  | ensureActive org worker now newId =>
    refine Int.le_of_eq ?_
    rw [act_ensureActive_fst]
  | insert record =>
    simp only [act]
    cases x.rows.insert record <;> exact Int.le_refl _
  | reapStale now =>
    refine Int.le_of_eq ?_
    rw [act_reapStale_fst]
  | tick time => exact Int.le_max_left x.clock time
  | _ => exact Int.le_refl _

theorem stale_of_staleSince {policy : LeasePolicy} {rows : Rows} {now : Int}
    (h : r ∈ rows.staleSince (now - policy.staleAfter)) :
    r.isHeartbeatFresh now policy.staleAfter = false := by
  obtain ⟨-, hold⟩ := mem_filter.mp h
  rw [Bool.and_eq_true, decide_eq_true_eq] at hold
  unfold TenantRuntimeRecord.isHeartbeatFresh
  rw [decide_eq_false_iff_not]
  omega

theorem Call.Grounded.next {policy : LeasePolicy} {k k' : Call} {x : Registry}
    (h : k.Grounded policy x.clock) (hnext : (act policy k x).2 = .inl k') :
    k'.Grounded policy x.clock := by
  cases k with
  | ensureActive org worker now newId =>
    simp only [act] at hnext
    cases hl : x.rows.liveFor org with
    | none =>
      simp only [hl] at hnext
      cases hnext
      trivial
    | some existing =>
      simp only [hl] at hnext
      split_ifs at hnext with ho
      cases hnext
      exact ⟨h, ho⟩
  | register =>
    cases hnext
    trivial
  | insert record =>
    simp only [act] at hnext
    cases hi : x.rows.insert record with
    | error e | ok rows =>
      simp only [hi] at hnext
      cases hnext
  | reapStale now =>
    simp only [act] at hnext
    cases hst : x.rows.staleSince (now - policy.staleAfter) with
    | nil =>
      simp only [hst] at hnext
      cases hnext
    | cons record rest =>
      simp only [hst] at hnext
      cases hnext
      refine ⟨h, fun r hr => ?_⟩
      rw [← hst] at hr
      exact stale_of_staleSince hr
  | reap now record rest reaped =>
    cases rest with
    | nil => cases hnext
    | cons record' rest' =>
      cases hnext
      exact ⟨h.1, fun r hr => h.2 r (mem_cons_of_mem record hr)⟩
  | _ => cases hnext

/-! ## Runs -/

/-- The clocks are synchronized: a call that comes in has read a time that has come. -/
def Synchronized (e : Entry (State Registry Call) (Label Call Reply)) : Prop :=
  match e.label with
  | .call (.ensureActive _ _ now _) | .call (.rotate _ _ now _) | .call (.heartbeat _ now)
  | .call (.drain _ now) | .call (.stop _ now) | .call (.reapStale now) =>
    now ≤ e.pre.shared.clock
  | _ => True

/-- The live runtimes that a reaper or a takeover is about to stop have the heartbeat, and for a
takeover also the worker, of the row that it read. -/
def AsRead (e : Entry (State Registry Call) (Label Call Reply)) : Prop :=
  match e.label with
  | .act (.reap _ record _ _) _ => ∀ r ∈ e.pre.shared.rows, r.runtimeId = record.runtimeId →
    r.status.isLive = true → r.heartbeatAt = record.heartbeatAt
  | .act (.takeOver existing org _ _ _) _ => ∀ r ∈ e.pre.shared.rows, r.LiveFor org = true →
    r.heartbeatAt = existing.heartbeatAt ∧ r.workerId = existing.workerId
  | _ => True

def MayStop (r : TenantRuntimeRecord) : Label Call Reply → Prop
  | .act (.takeOver _ _ worker _ _) _ => r.workerId = worker
  | .act (.rotate ..) _ | .act (.stop ..) _ => True
  | _ => False

instance : (e : Entry (State Registry Call) (Label Call Reply)) → Decidable (Synchronized e)
  | ⟨_, .call (.ensureActive ..), _⟩ | ⟨_, .call (.rotate ..), _⟩ | ⟨_, .call (.heartbeat ..), _⟩
  | ⟨_, .call (.drain ..), _⟩ | ⟨_, .call (.stop ..), _⟩ | ⟨_, .call (.reapStale _), _⟩ =>
    inferInstanceAs (Decidable (_ ≤ _))
  | ⟨_, .call (.register ..), _⟩ | ⟨_, .call (.insert _), _⟩ | ⟨_, .call (.takeOver ..), _⟩
  | ⟨_, .call (.reap ..), _⟩ | ⟨_, .call (.tick _), _⟩ | ⟨_, .act .., _⟩ => .isTrue trivial

instance : (e : Entry (State Registry Call) (Label Call Reply)) → Decidable (AsRead e)
  | ⟨_, .act (.reap ..) _, _⟩ | ⟨_, .act (.takeOver ..) _, _⟩ =>
    inferInstanceAs (Decidable (∀ r ∈ _, _))
  | ⟨_, .act (.ensureActive ..) _, _⟩ | ⟨_, .act (.register ..) _, _⟩
  | ⟨_, .act (.insert _) _, _⟩ | ⟨_, .act (.rotate ..) _, _⟩ | ⟨_, .act (.heartbeat ..) _, _⟩
  | ⟨_, .act (.drain ..) _, _⟩ | ⟨_, .act (.stop ..) _, _⟩ | ⟨_, .act (.reapStale _) _, _⟩
  | ⟨_, .act (.tick _) _, _⟩ | ⟨_, .call _, _⟩ => .isTrue trivial

instance (r : TenantRuntimeRecord) (a : Label Call Reply) : Decidable (MayStop r a) := by
  unfold MayStop
  split <;> infer_instance

variable {policy : LeasePolicy} {s t : State Registry Call} {a : Label Call Reply}

def AllGrounded (policy : LeasePolicy) (s : State Registry Call) : Prop :=
  ∀ k ∈ s.running, k.Grounded policy s.shared.clock

theorem AllGrounded.step (h : AllGrounded policy s) (hsy : Synchronized ⟨s, a, t⟩)
    (hs : Step (act policy) Call.Entry s a t) : AllGrounded policy t := by
  cases hs with
  | @call x ks k hk =>
    intro k' hk'
    rcases mem_cons.mp hk' with rfl | hk'
    · cases k' with
      | ensureActive | reapStale => exact hsy
      | register | insert | takeOver | reap => cases hk
      | _ => trivial
    · exact h k' hk'
  | @act x before after k =>
    have hle := clock_le_act policy k x
    intro k' hk'
    rcases mem_append.mp hk' with hk' | hk'
    · rcases mem_append.mp hk' with hk' | hk'
      · exact (h k' (mem_append_left _ hk')).later hle
      · have hm : k ∈ before ++ k :: after := mem_append_right _ mem_cons_self
        exact ((h k hm).next (eq_inl_of_mem_continuing hk')).later hle
    · exact (h k' (mem_append_right _ (mem_cons_of_mem k hk'))).later hle

theorem stale_later {now clock age : Int} (hle : now ≤ clock)
    (hst : r.isHeartbeatFresh now age = false) (hsa : r'.heartbeatAt = r.heartbeatAt) :
    r'.isHeartbeatFresh clock age = false := by
  unfold TenantRuntimeRecord.isHeartbeatFresh at hst ⊢
  rw [decide_eq_false_iff_not] at hst ⊢
  omega

theorem mayStop_of_step (h : AllGrounded policy s) (hre : AsRead ⟨s, a, t⟩)
    (hs : Step (act policy) Call.Entry s a t) (hr : (r, r') ∈ s.shared.rows.zip t.shared.rows)
    (hl : r.status.isLive = true)
    (hf : r.isHeartbeatFresh s.shared.clock policy.staleAfter = true)
    (hst : r'.status = .stopped) : MayStop r a := by
  rcases hs.shared_cases with ⟨k, rfl, hsh⟩ | ⟨k, hk, rfl, hsh⟩
  · rw [hsh] at hr
    have hsa : (r, r') ∈ s.shared.rows.zip (s.shared.rows ++ []) := by
      rw [append_nil]
      exact hr
    have hn := stoppedOnly_refl (P := fun _ => False) s.shared.rows
    exact False.elim (of_mem_zip_append hn hsa hl hst)
  · rw [hsh] at hr
    have hm : r ∈ s.shared.rows := (of_mem_zip hr).1
    have hta := act_stops policy k s.shared hr hl hst
    have hg := h k hk
    cases k with
    | takeOver existing org worker now newId =>
      obtain ⟨hh, hw⟩ := hre r hm hta
      rcases hg.2 with ho | hsta
      · exact hw.trans ho
      · rw [stale_later hg.1 hsta hh] at hf
        cases hf
    | rotate | stop => trivial
    | reap now record rest reaped =>
      have hh := hre r hm hta hl
      rw [stale_later hg.1 (hg.2 record mem_cons_self) hh] at hf
      cases hf
    | _ => cases hta

/-- In a run with synchronized clocks in which the rows that a reaper or a takeover stops are
still as it read them, a write that stops a healthy runtime is one of those that may. -/
theorem healthy_not_displaced {x : Registry}
    {tr : List (Entry (State Registry Call) (Label Call Reply))}
    (hrun : Run (Step (act policy) Call.Entry) ⟨x, []⟩ tr t)
    (hsync : ∀ e ∈ tr, Synchronized e) (hread : ∀ e ∈ tr, AsRead e) :
    ∀ e ∈ tr, ∀ p ∈ e.pre.shared.rows.zip e.post.shared.rows, p.1.status.isLive = true →
      p.1.isHeartbeatFresh e.pre.shared.clock policy.staleAfter = true →
        p.2.status = .stopped → MayStop p.1 e.label := by
  intro e he p hp hl hf hst
  have hn : AllGrounded policy ⟨x, []⟩ := fun k hk => nomatch hk
  obtain ⟨hg, hs⟩ := hrun.invariant_before (I := AllGrounded policy)
    (fun _ _ _ h hsync hs => h.step hsync hs) hsync hn he
  exact mayStop_of_step hg (hread e he) hs hp hl hf hst

private def dying : List (Move Call) :=
  [.call (.ensureActive "org" "w1" 0 "a"), .go 0, .go 0, .go 0, .call (.tick 100), .go 0,
    .call (.reapStale 100), .go 0, .go 0, .call (.ensureActive "org" "w2" 100 "b"), .go 0, .go 0,
    .go 0, .call (.tick 200), .go 0, .call (.ensureActive "org" "w3" 200 "c"), .go 0, .go 0]

private def revived : List (Move Call) :=
  [.call (.ensureActive "org" "w1" 0 "a"), .go 0, .go 0, .go 0, .call (.tick 100), .go 0,
    .call (.reapStale 100), .go 0, .call (.heartbeat "a" 100), .go 0, .go 0]

theorem healthy_not_displaced_dying :
    ∃ tr t, Run (Step (act ⟨60⟩) Call.Entry) (empty 0) tr t ∧ (∀ e ∈ tr, Synchronized e) ∧
      (∀ e ∈ tr, AsRead e) ∧
      t.shared.rows.map (fun r => (r.runtimeId, r.status)) =
        [("a", .stopped), ("b", .stopped), ("c", .active)] ∧
      ∀ e ∈ tr, ∀ p ∈ e.pre.shared.rows.zip e.post.shared.rows, p.1.status.isLive = true →
        p.1.isHeartbeatFresh e.pre.shared.clock 60 = true →
          p.2.status = .stopped → MayStop p.1 e.label := by
  obtain ⟨tr, t, hru, hsy, hr, hro⟩ : ∃ tr t, Run (Step (act ⟨60⟩) Call.Entry) (empty 0) tr
      t ∧ (∀ e ∈ tr, Synchronized e) ∧ (∀ e ∈ tr, AsRead e) ∧
        t.shared.rows.map (fun r => (r.runtimeId, r.status)) =
          [("a", .stopped), ("b", .stopped), ("c", .active)] :=
    exists_run_of_follow dying (by simp [dying, Move.Allowed, Call.Entry]) (by decide +kernel)
  exact ⟨tr, t, hru, hsy, hr, hro, healthy_not_displaced hru hsy hr⟩

/-- The reaper stops a runtime that has just sent a heartbeat. -/
theorem revived_is_reaped :
    ∃ tr t, Run (Step (act ⟨60⟩) Call.Entry) (empty 0) tr t ∧ (∀ e ∈ tr, Synchronized e) ∧
      ∃ e ∈ tr, ∃ p ∈ e.pre.shared.rows.zip e.post.shared.rows, p.1.status.isLive = true ∧
        p.1.isHeartbeatFresh e.pre.shared.clock 60 = true ∧ p.2.status = .stopped ∧
          ¬ MayStop p.1 e.label :=
  exists_run_of_follow revived (by simp [revived, Move.Allowed, Call.Entry]) (by decide +kernel)

end SniperBot.RuntimeRegistry
