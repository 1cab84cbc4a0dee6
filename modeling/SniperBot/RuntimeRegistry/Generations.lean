import SniperBot.RuntimeRegistry.Store

/-!
# One live runtime, and its generation

A registration reads the next generation and inserts its row in separate store calls. The insert
checks that the tenant has no live runtime, not that the generation is still the next one. A row
that has left the live set never comes back, so its fence token is dead.
-/

namespace SniperBot.RuntimeRegistry

open Lib.Rows Lib.Runs Lib.Interleaving RuntimeGeneration List Rows
open List (Forall₂)

/-! ## Generations -/

namespace RuntimeGeneration

theorem next_of_lt {g : RuntimeGeneration} (h : g.raw < i64Max) :
    ∃ g', g.next = some g' ∧ g'.raw = g.raw + 1 := by
  have hpos : 1 ≤ g.raw + 1 := by omega
  have hf : g.raw + 1 < 2 ^ 64 := by
    unfold i64Max at h
    omega
  refine ⟨⟨g.raw + 1, hpos, hf⟩, ?_, rfl⟩
  unfold next fromRaw
  rw [dif_pos ⟨hpos, hf⟩, Option.filter_eq_some_iff]
  refine ⟨rfl, ?_⟩
  unfold toI64
  rw [if_pos (by dsimp only; omega)]
  rfl

theorem asI64_of_le {g : RuntimeGeneration} (h : g.raw ≤ i64Max) : g.asI64 = g.raw := by
  unfold i64Max at h
  exact Int.bmod_eq_of_le (by omega) (by omega)

theorem fromI64_raw (g : RuntimeGeneration) : fromI64 (g.raw : Int) = some g := by
  unfold fromI64 fromRaw
  rw [if_pos (Int.natCast_nonneg g.raw), Int.toNat_natCast, dif_pos ⟨g.pos, g.fits⟩]

end RuntimeGeneration

namespace Rows

variable {rows : Rows} {org : String} {r : TenantRuntimeRecord}

/-- No generation of the tenant is the last one that can be held. -/
def Room (rows : Rows) (org : String) : Prop :=
  ∀ r ∈ rows, r.organizationId = org → r.generation.raw < i64Max

theorem lt_nextGeneration (hro : rows.Room org) (hr : r ∈ rows)
    (ho : r.organizationId = org) : r.generation.raw < (rows.nextGeneration org).raw := by
  have hme : r ∈ rows.filter fun r => r.organizationId = org :=
    mem_filter.mpr ⟨hr, decide_eq_true ho⟩
  unfold nextGeneration maxGeneration
  cases hm : maxByKey (fun r => (r.generation.raw : Int))
      (rows.filter fun r => r.organizationId = org) with
  | none =>
    rw [maxByKey_eq_none hm] at hme
    cases hme
  | some best =>
    obtain ⟨hbe, hbes⟩ := mem_filter.mp (mem_of_maxByKey hm)
    have hle := le_maxByKey hm hme
    obtain ⟨g, hnext, hra⟩ := next_of_lt (hro best hbe (of_decide_eq_true hbes))
    dsimp only [Option.map_some]
    rw [hnext, Option.getD_some]
    omega

theorem rotatedGeneration_of_max {best : TenantRuntimeRecord}
    (hm : maxByKey (fun r => r.generation.asI64)
    (rows.filter fun r => r.organizationId = org) = some best)
    (hl : best.generation.raw < i64Max) :
    (rows.rotatedGeneration org).raw = best.generation.raw + 1 := by
  obtain ⟨g, hnext, hr⟩ := next_of_lt hl
  have hbe := asI64_of_le (Nat.le_of_lt hl)
  unfold rotatedGeneration
  dsimp only
  rw [hm, Option.map_some, Option.getD_some, hbe, fromI64_raw,
    Option.bind_some, hnext, Option.getD_some, hr]

theorem lt_rotatedGeneration (hro : rows.Room org) (hr : r ∈ rows)
    (ho : r.organizationId = org) : r.generation.raw < (rows.rotatedGeneration org).raw := by
  have hme : r ∈ rows.filter fun r => r.organizationId = org :=
    mem_filter.mpr ⟨hr, decide_eq_true ho⟩
  have hsi : ∀ x ∈ rows, x.organizationId = org → x.generation.asI64 = x.generation.raw :=
    fun x hx hxO => asI64_of_le (Nat.le_of_lt (hro x hx hxO))
  cases hm : maxByKey (fun r => r.generation.asI64)
      (rows.filter fun r => r.organizationId = org) with
  | none =>
    rw [maxByKey_eq_none hm] at hme
    cases hme
  | some best =>
    obtain ⟨hbes, hbe⟩ := mem_filter.mp (mem_of_maxByKey hm)
    have hbe := of_decide_eq_true hbe
    have hle := le_maxByKey hm hme
    rw [hsi r hr ho, hsi best hbes hbe] at hle
    rw [rotatedGeneration_of_max hm (hro best hbes hbe)]
    exact Nat.lt_succ_of_le (Int.ofNat_le.mp hle)

end Rows

/-! ## What a store call does to the rows -/

/-- A row and what a write may make of it: it keeps its identity and never becomes live. -/
structure Dimmed (r r' : TenantRuntimeRecord) : Prop where
  runtimeId : r'.runtimeId = r.runtimeId
  organizationId : r'.organizationId = r.organizationId
  generation : r'.generation = r.generation
  live : r'.status.isLive = true → r.status.isLive = true

theorem Dimmed.refl (r : TenantRuntimeRecord) : Dimmed r r := ⟨rfl, rfl, rfl, fun h => h⟩

theorem Dimmed.trans {a b c : TenantRuntimeRecord} (h : Dimmed a b) (h' : Dimmed b c) :
    Dimmed a c :=
  ⟨h'.runtimeId.trans h.runtimeId, h'.organizationId.trans h.organizationId,
    h'.generation.trans h.generation, fun hl => h.live (h'.live hl)⟩

variable {r : TenantRuntimeRecord} {org : String} {rows rows' : Rows} {k : Call}

namespace Rows

variable {rows : Rows}

theorem heartbeat_dimmed (id : String) (now : Int) :
    Forall₂ Dimmed rows (rows.heartbeat id now).1 := by
  have hsa : Forall₂ Dimmed rows rows := forall₂_same.mpr fun r _ => .refl r
  unfold heartbeat
  cases rows.find? fun r => r.runtimeId = id with
  | none => exact hsa
  | some r =>
    dsimp only
    split_ifs
    · refine forall₂_modifyFirst Dimmed.refl ?_ rows
      intro r _
      exact ⟨rfl, rfl, rfl, fun h => h⟩
    · exact hsa

theorem setStatus_dimmed (id : String) {status : RuntimeStatus} (hst : status.isLive = false)
    (now : Int) : Forall₂ Dimmed rows (rows.setStatus id status now) := by
  refine forall₂_modifyFirst Dimmed.refl ?_ rows
  intro r _
  split_ifs
  · exact .refl r
  · refine ⟨rfl, rfl, rfl, fun h => ?_⟩
    rw [hst] at h
    cases h
  · refine ⟨rfl, rfl, rfl, fun h => ?_⟩
    rw [hst] at h
    cases h

theorem stopLive_dimmed (org : String) (now : Int) :
    Forall₂ Dimmed rows (rows.stopLive org now) := by
  refine forall₂_map ?_
  intro r _
  split_ifs
  · exact ⟨rfl, rfl, rfl, fun h => nomatch h⟩
  · exact .refl r

theorem stopLive_not_live {org : String} {now : Int} {r : TenantRuntimeRecord}
    (hr : r ∈ rows.stopLive org now) : r.LiveFor org = false := by
  obtain ⟨r0, -, rfl⟩ := mem_map.mp hr
  split_ifs with hl
  · unfold TenantRuntimeRecord.LiveFor
    exact Bool.and_false _
  · exact Bool.eq_false_iff.mpr hl

theorem liveFor_some {org : String} {r : TenantRuntimeRecord} (h : rows.liveFor org = some r) :
    r ∈ rows ∧ r.LiveFor org = true := mem_filter.mp (mem_of_maxByKey h)

theorem insert_ok {record : TenantRuntimeRecord} {rows' : Rows}
    (h : rows.insert record = .ok rows') : rows' = rows ++ [record] ∧
    ∀ r ∈ rows, r.LiveFor record.organizationId = true → record.status.isLive = true →
      r.runtimeId = record.runtimeId := by
  unfold insert at h
  split_ifs at h with ha
  refine ⟨(Except.ok.inj h).symm, ?_⟩
  intro r hr hl hre
  by_contra hne
  apply ha
  rw [any_eq_true]
  refine ⟨r, hr, ?_⟩
  rw [hl, hre, Bool.true_and, Bool.true_and, bne_iff_ne]
  exact hne

end Rows

def Call.Rotates (org : String) : Call → Prop
  | .takeOver _ organizationId _ _ _ | .rotate organizationId _ _ _ => organizationId = org
  | _ => False

/-- What a section does to the rows: it changes some in their places, and may add one. -/
inductive Change (rows : Rows) (k : Call) : Rows → Prop
  | kept {rows' : Rows} (hrows : Forall₂ Dimmed rows rows') : Change rows k rows'
  | inserted {record : TenantRuntimeRecord} (hk : k = .insert record)
      (hnone : ∀ r ∈ rows, r.LiveFor record.organizationId = true → record.status.isLive = true →
        r.runtimeId = record.runtimeId) : Change rows k (rows ++ [record])
  | rotated {rows' : Rows} {record : TenantRuntimeRecord} (hrows : Forall₂ Dimmed rows rows')
      (hk : k.Rotates record.organizationId) (hid : k.newId? = some record.runtimeId)
      (hnone : ∀ r ∈ rows', r.LiveFor record.organizationId = false)
      (hgeneration : record.generation = rows'.rotatedGeneration record.organizationId) :
      Change rows k (rows' ++ [record])

theorem change_same (rows : Rows) (k : Call) : Change rows k rows :=
  .kept (forall₂_same.mpr fun r _ => .refl r)

theorem act_ensureActive_fst (policy : LeasePolicy) (org worker : String) (now : Int)
    (newId : String) (x : Registry) : (act policy (.ensureActive org worker now newId) x).1 = x := by
  simp only [act]
  cases x.rows.liveFor org with
  | none => rfl
  | some existing =>
    dsimp only
    split_ifs <;> rfl

theorem act_reapStale_fst (policy : LeasePolicy) (now : Int) (x : Registry) :
    (act policy (.reapStale now) x).1 = x := by
  simp only [act]
  cases x.rows.staleSince (now - policy.staleAfter) with
  | nil | cons record rest => rfl

theorem act_change (policy : LeasePolicy) (k : Call) (x : Registry) :
    Change x.rows k (act policy k x).1.rows := by
  have hsa := change_same x.rows k
  cases k with
  | ensureActive org worker now newId =>
    rw [act_ensureActive_fst]
    exact hsa
  | register | tick => exact hsa
  | insert record =>
    simp only [act]
    cases hi : x.rows.insert record with
    | error e => exact hsa
    | ok rows =>
      obtain ⟨rfl, hn⟩ := insert_ok hi
      exact .inserted rfl hn
  | takeOver | rotate =>
    exact .rotated (stopLive_dimmed _ _) rfl rfl (fun r hr => stopLive_not_live hr) rfl
  | heartbeat id now => exact .kept (heartbeat_dimmed id now)
  | drain id now | stop id now => exact .kept (setStatus_dimmed id rfl now)
  | reapStale now =>
    rw [act_reapStale_fst]
    exact hsa
  | reap now record => exact .kept (setStatus_dimmed record.runtimeId rfl now)

theorem Change.persists (h : Change rows k rows') (hr : r ∈ rows) : ∃ r' ∈ rows', Dimmed r r' := by
  cases h with
  | kept hro => exact mem_left hro hr
  | inserted _ _ => exact ⟨r, mem_append_left _ hr, .refl r⟩
  | rotated hro _ _ _ _ =>
    obtain ⟨r', hr', hd⟩ := mem_left hro hr
    exact ⟨r', mem_append_left _ hr', hd⟩

/-- Ids are not used twice, and no two rows of a tenant are live. -/
structure Ordered (rows : Rows) : Prop where
  ids : rows.Pairwise fun a b => a.runtimeId ≠ b.runtimeId
  once : rows.Pairwise fun a b => a.organizationId = b.organizationId →
    ¬ (a.status.isLive = true ∧ b.status.isLive = true)

section

variable (h : Ordered rows)

include h

theorem Ordered.dimmed (hr : Forall₂ Dimmed rows rows') : Ordered rows' := by
  constructor
  · refine pairwise_of_forall₂ ?_ hr h.ids
    intro a b a' b' ha hb hn
    rw [ha.runtimeId, hb.runtimeId]
    exact hn
  · refine pairwise_of_forall₂ ?_ hr h.once
    intro a b a' b' ha hb ho hor ⟨hl, hl'⟩
    rw [ha.organizationId, hb.organizationId] at hor
    exact ho hor ⟨ha.live hl, hb.live hl'⟩

theorem Ordered.concat {record : TenantRuntimeRecord}
    (hf : ∀ r ∈ rows, r.runtimeId ≠ record.runtimeId)
    (hn : ∀ r ∈ rows, r.LiveFor record.organizationId = true → record.status.isLive = true →
    r.runtimeId = record.runtimeId) : Ordered (rows ++ [record]) := by
  refine ⟨pairwise_concat h.ids hf, pairwise_concat h.once ?_⟩
  intro r hr ho ⟨hl, hre⟩
  have hli : r.LiveFor record.organizationId = true := by
    unfold TenantRuntimeRecord.LiveFor
    rw [Bool.and_eq_true, decide_eq_true_eq]
    exact ⟨ho, hl⟩
  exact hf r hr (hn r hr hli hre)

theorem Ordered.change (hc : Change rows k rows') (hf : ∀ r ∈ rows, k.newId? ≠ some r.runtimeId) :
    Ordered rows' := by
  cases hc with
  | kept hro => exact h.dimmed hro
  | @inserted record hk hn =>
    refine h.concat ?_ hn
    intro r hr hi
    apply hf r hr
    rw [hk, hi]
    rfl
  | @rotated rows' record hro _ hi hn _ =>
    refine (h.dimmed hro).concat ?_ ?_
    · intro r hr he
      obtain ⟨r0, hr0, hd⟩ := mem_right hro hr
      rw [hd.runtimeId] at he
      exact hf r0 hr0 (he ▸ hi)
    · intro r hr hl
      rw [hn r hr] at hl
      cases hl

theorem Ordered.eq_of_id {a b : TenantRuntimeRecord} (ha : a ∈ rows)
    (hb : b ∈ rows) (hi : a.runtimeId = b.runtimeId) : a = b := by
  by_contra hne
  have hsy : Std.Symm fun a b : TenantRuntimeRecord => a.runtimeId ≠ b.runtimeId :=
    ⟨fun _ _ hab => hab.symm⟩
  exact h.ids.forall ha hb hne hi

theorem Ordered.length_live (org : String) : (rows.filter fun r => r.LiveFor org).length ≤ 1 := by
  refine length_filter_le_one (h.once.imp ?_)
  intro a b ho ⟨ha, hb⟩
  unfold TenantRuntimeRecord.LiveFor at ha hb
  rw [Bool.and_eq_true, decide_eq_true_eq] at ha hb
  exact ho (ha.1.trans hb.1.symm) ⟨ha.2, hb.2⟩

theorem Ordered.not_current (hr : r ∈ rows) (hd : r.status.isLive = false)
    {token : FenceToken} (hto : token.runtimeId = r.runtimeId) (policy : LeasePolicy) (now : Int)
    :
    (verifyWithPolicy rows token policy now).isCurrent = false := by
  unfold verifyWithPolicy
  cases hl : rows.liveFor token.organizationId with
  | none => rfl
  | some current =>
    obtain ⟨hm, hc⟩ := liveFor_some hl
    have hn : current.runtimeId ≠ token.runtimeId := by
      intro hi
      obtain rfl := h.eq_of_id hm hr (hi.trans hto)
      unfold TenantRuntimeRecord.LiveFor at hc
      rw [hd, Bool.and_false] at hc
      cases hc
    dsimp only
    split_ifs <;> rfl

end

/-- A runtime that a write makes live has a larger generation than every earlier runtime of its
tenant. -/
def Grows (rows rows' : Rows) : Prop := ∀ r ∈ rows', r.status.isLive = true →
    (∀ r0 ∈ rows, r0.runtimeId = r.runtimeId → r0.status.isLive = false) →
      ∀ r0 ∈ rows, r0.organizationId = r.organizationId → r0.generation.raw < r.generation.raw

instance (rows rows' : Rows) : Decidable (Grows rows rows') :=
  inferInstanceAs (Decidable (∀ r ∈ rows', r.status.isLive = true →
    (∀ r0 ∈ rows, r0.runtimeId = r.runtimeId → r0.status.isLive = false) →
      ∀ r0 ∈ rows, r0.organizationId = r.organizationId → r0.generation.raw < r.generation.raw))

theorem not_live_of_dimmed (hro : Forall₂ Dimmed rows rows') (hr : r ∈ rows')
    (hde : ∀ r0 ∈ rows, r0.runtimeId = r.runtimeId → r0.status.isLive = false) :
    r.status.isLive = false := by
  obtain ⟨r0, hr0, hd⟩ := mem_right hro hr
  by_contra hli
  have hl := hd.live (eq_true_of_ne_false hli)
  rw [hde r0 hr0 hd.runtimeId.symm] at hl
  cases hl

theorem Rows.Room.dimmed (hro : rows.Room org) (hrow : Forall₂ Dimmed rows rows') :
    rows'.Room org := by
  intro r hr ho
  obtain ⟨r0, hr0, hd⟩ := mem_right hrow hr
  rw [hd.generation]
  exact hro r0 hr0 (hd.organizationId.symm.trans ho)

/-- A registration that finds no live runtime inserts the generation that is still the next
one, and no generation is minted after the last that can be held. -/
def NextStill (rows : Rows) : Call → Prop
  | .insert record =>
    rows.liveFor record.organizationId = none →
      record.generation = rows.nextGeneration record.organizationId ∧
        rows.Room record.organizationId
  | .takeOver _ org _ _ _ | .rotate org _ _ _ => rows.Room org
  | _ => True

instance (rows : Rows) (org : String) : Decidable (rows.Room org) :=
  inferInstanceAs (Decidable (∀ r ∈ rows, _))

instance (rows : Rows) : (k : Call) → Decidable (NextStill rows k)
  | .insert _ => inferInstanceAs (Decidable (_ → _ ∧ _))
  | .takeOver _ org _ _ _ | .rotate org _ _ _ => inferInstanceAs (Decidable (rows.Room org))
  | .ensureActive .. | .register .. | .heartbeat .. | .drain .. | .stop .. | .reapStale _
  | .reap .. | .tick _ => .isTrue trivial

theorem NextStill.room (h : NextStill rows k) (hk : k.Rotates org) : rows.Room org := by
  cases k with
  | takeOver existing org' worker now newId | rotate org' worker now newId =>
    have ho : org' = org := hk
    rw [← ho]
    exact h
  | _ => cases hk

theorem Change.grows (hc : Change rows k rows') (hfr : ∀ r ∈ rows, k.newId? ≠ some r.runtimeId)
    (hnext : NextStill rows k) :
    Grows rows rows' := by
  intro r hr hl hd r0 hr0 ho
  cases hc with
  | kept hro =>
    rw [not_live_of_dimmed hro hr hd] at hl
    cases hl
  | @inserted record hk hn =>
    subst hk
    rcases mem_append.mp hr with hr | hr
    · rw [hd r hr rfl] at hl
      cases hl
    · obtain rfl := mem_singleton.mp hr
      -- the row is new, so the check of the insert has found no live runtime at all
      have hli : rows.liveFor r.organizationId = none := by
        cases hf : rows.liveFor r.organizationId with
        | none => rfl
        | some current =>
          obtain ⟨hm, hcu⟩ := liveFor_some hf
          have hi := hn current hm hcu hl
          exact absurd (congrArg some hi.symm) (hfr current hm)
      obtain ⟨hg, hroo⟩ := hnext hli
      rw [hg]
      exact lt_nextGeneration hroo hr0 ho
  | @rotated rows' record hro hk _ _ hg =>
    rcases mem_append.mp hr with hr | hr
    · rw [not_live_of_dimmed hro hr hd] at hl
      cases hl
    · obtain rfl := mem_singleton.mp hr
      obtain ⟨r1, hr1, hdi⟩ := mem_left hro hr0
      rw [← hdi.generation, hg]
      exact lt_rotatedGeneration ((hnext.room hk).dimmed hro) hr1 (hdi.organizationId.trans ho)

/-! ## Runs -/

variable (e : Entry (State Registry Call) (Label Call Reply))

def FreshIds : Prop :=
  match e.label with
  | .call _ => True
  | .act k _ => ∀ r ∈ e.pre.shared.rows, k.newId? ≠ some r.runtimeId

/-- A section that adds a runtime finds its generation to be the next one. -/
def MintsNext : Prop :=
  match e.label with
  | .call _ => True
  | .act k _ => NextStill e.pre.shared.rows k

instance : Decidable (FreshIds e) := by
  unfold FreshIds
  split <;> infer_instance

instance : Decidable (MintsNext e) := by
  unfold MintsNext
  split <;> infer_instance

variable {policy : LeasePolicy} {s t : State Registry Call} {a : Label Call Reply}

theorem Ordered.step (h : Ordered s.shared.rows) (hf : FreshIds ⟨s, a, t⟩)
    (hs : Step (act policy) Call.Entry s a t) : Ordered t.shared.rows := by
  rcases hs.shared_cases with ⟨k, rfl, hsh⟩ | ⟨k, -, rfl, hsh⟩
  · rw [hsh]
    exact h
  · rw [hsh]
    exact h.change (act_change policy k s.shared) hf

theorem persists_step (hs : Step (act policy) Call.Entry s a t) (hr : r ∈ s.shared.rows) :
    ∃ r' ∈ t.shared.rows, Dimmed r r' := by
  rcases hs.shared_cases with ⟨k, rfl, hsh⟩ | ⟨k, -, rfl, hsh⟩
  · rw [hsh]
    exact ⟨r, hr, .refl r⟩
  · rw [hsh]
    exact (act_change policy k s.shared).persists hr

theorem grows_step (hs : Step (act policy) Call.Entry s a t) (hf : FreshIds ⟨s, a, t⟩)
    (hnext : MintsNext ⟨s, a, t⟩) : Grows s.shared.rows t.shared.rows := by
  rcases hs.shared_cases with ⟨k, rfl, hsh⟩ | ⟨k, -, rfl, hsh⟩
  · rw [hsh]
    intro r hr hl hd
    rw [hd r hr rfl] at hl
    cases hl
  · rw [hsh]
    exact (act_change policy k s.shared).grows hf hnext

variable {tr : List (Entry (State Registry Call) (Label Call Reply))}

theorem persists_run (hru : Run (Step (act policy) Call.Entry) s tr t) (hr : r ∈ s.shared.rows) :
    ∃ r' ∈ t.shared.rows, Dimmed r r' := by
  induction hru with
  | nil => exact ⟨r, hr, .refl r⟩
  | snoc _ hs ih =>
    obtain ⟨r', hr', hd⟩ := ih
    obtain ⟨r'', hr'', hd'⟩ := persists_step hs hr'
    exact ⟨r'', hr'', hd.trans hd'⟩

def empty (clock : Int) : State Registry Call := ⟨⟨clock, []⟩, []⟩

theorem ordered_run {clock : Int} (hr : Run (Step (act policy) Call.Entry) (empty clock) tr t)
    (hf : ∀ e ∈ tr, FreshIds e) : Ordered t.shared.rows :=
  hr.invariant_of_entries (I := fun s => Ordered s.shared.rows)
    (fun _ _ _ h hf hs => h.step hf hs) hf ⟨.nil, .nil⟩

/-- At most one runtime of a tenant is live; a runtime that becomes live when its generation is
still the next one has the largest; and a runtime that is not live any more never verifies. -/
theorem one_live_runtime {clock : Int}
    (hrun : Run (Step (act policy) Call.Entry) (empty clock) tr t)
    (hfresh : ∀ e ∈ tr, FreshIds e) :
    (∀ org, (t.shared.rows.filter fun r => r.LiveFor org).length ≤ 1) ∧
      (∀ e ∈ tr, MintsNext e → Grows e.pre.shared.rows e.post.shared.rows) ∧
      ∀ e ∈ tr, ∀ r ∈ e.post.shared.rows, r.status.isLive = false → ∀ lease now,
        (verifyWithPolicy t.shared.rows r.fenceToken lease now).isCurrent = false := by
  refine ⟨(ordered_run hrun hfresh).length_live, ?_, ?_⟩
  · intro e he hnext
    obtain ⟨before, after, rfl⟩ := append_of_mem he
    obtain ⟨-, hs, -⟩ := hrun.around
    exact grows_step hs (hfresh e he) hnext
  · intro e he r hr hd lease now
    obtain ⟨before, after, rfl⟩ := append_of_mem he
    obtain ⟨-, -, hrest⟩ := hrun.around
    obtain ⟨r', hr', hdi⟩ := persists_run hrest hr
    have hd' : r'.status.isLive = false := by
      by_contra hl
      rw [hdi.live (eq_true_of_ne_false hl)] at hd
      cases hd
    exact (ordered_run hrun hfresh).not_current hr' hd' hdi.runtimeId.symm lease now

private def rotating : List (Move Call) :=
  [.call (.ensureActive "org" "w1" 0 "a"), .go 0, .go 0, .go 0,
    .call (.rotate "org" "w1" 1 "b"), .go 0]

private def overtaken : List (Move Call) := [.call (.ensureActive "org" "w1" 0 "a"), .go 0, .go 0,
    .call (.rotate "org" "w2" 0 "b"), .go 0, .call (.rotate "org" "w2" 0 "c"), .go 0,
    .call (.stop "c" 0), .go 0, .go 0]

theorem one_live_runtime_rotating :
    ∃ tr t, Run (Step (act ⟨60⟩) Call.Entry) (empty 0) tr t ∧ (∀ e ∈ tr, FreshIds e) ∧
      (∀ e ∈ tr, MintsNext e) ∧ t.shared.rows.map (·.generation.raw) = [1, 2] ∧
      (t.shared.rows.filter fun r => r.LiveFor "org").length ≤ 1 ∧
      ∀ e ∈ tr, Grows e.pre.shared.rows e.post.shared.rows := by
  obtain ⟨tr, t, hr, hf, hnext, hg⟩ : ∃ tr t,
      Run (Step (act ⟨60⟩) Call.Entry) (empty 0) tr t ∧ (∀ e ∈ tr, FreshIds e) ∧
        (∀ e ∈ tr, MintsNext e) ∧ t.shared.rows.map (·.generation.raw) = [1, 2] :=
    exists_run_of_follow rotating (by simp [rotating, Move.Allowed, Call.Entry]) (by decide +kernel)
  obtain ⟨ho, hgr, -⟩ := one_live_runtime hr hf
  exact ⟨tr, t, hr, hf, hnext, hg, ho "org", fun e he => hgr e he (hnext e he)⟩

/-- A registration inserts the generation it read although two later ones exist. -/
theorem overtaken_generation :
    ∃ tr t, Run (Step (act ⟨60⟩) Call.Entry) (empty 0) tr t ∧ (∀ e ∈ tr, FreshIds e) ∧
      t.shared.rows.map (fun r => (r.generation.raw, r.status)) =
        [(1, .stopped), (2, .stopped), (1, .active)] ∧
      ∃ e ∈ tr, ¬ Grows e.pre.shared.rows e.post.shared.rows :=
  exists_run_of_follow overtaken (by simp [overtaken, Move.Allowed, Call.Entry]) (by decide +kernel)

end SniperBot.RuntimeRegistry
