import SniperBot.LimitOrders.Worker

/-!
# Orders fire only while held, active and unexpired

A worker checks nothing between the claim of a batch and the hand-off of its orders, so what
it knows about an order holds only until the lease of the batch runs out. Up to then nobody
else can write the row.
-/

namespace SniperBot.LimitOrders

open Lib.LeaseTable Lib.Runs List Option Orders Function Prod Table

structure LimitOrderRow.Holds (r : LimitOrderRow) (order : ClaimedOrder) (worker : String)
    (leaseEnd : Int) : Prop where
  lease : r.lease = .taken worker leaseEnd
  active : r.status = .active
  organization : r.organizationId = order.organizationId
  expiresAt : r.expiresAt = order.expiresAt

theorem LimitOrderRow.Holds.heldBy {r : LimitOrderRow} {order : ClaimedOrder} {worker : String}
    {leaseEnd now : Int} (h : r.Holds order worker leaseEnd) (hle : now ≤ leaseEnd) :
    r.lease.HeldBy worker now := by
  rw [h.lease]
  exact Lease.heldBy_taken hle

namespace Orders

variable {t : Orders} {now : Int}

/-! ### What the statements leave alone -/

/-- No statement brings an order back from where it was triggered. -/
def KeepsTriggered (t t' : Orders) : Prop :=
  ∀ id, (∃ r, t id = some r ∧ r.status = .triggered) → ∃ r, t' id = some r ∧ r.status = .triggered

/-- Whoever holds a row keeps it, but for what the writer `may` write. -/
structure Spares (t : Orders) (now : Int) (may : String → String → Prop) (t' : Orders) :
    Prop where
  held : ∀ holder id r, ¬ may holder id → t id = some r → r.lease.HeldBy holder now → t' id = some r
  triggered : t.KeepsTriggered t'

theorem spares_refl (may : String → String → Prop) : t.Spares now may t :=
  ⟨fun _ _ _ _ hr _ => hr, fun _ hr => hr⟩

theorem spares_update {may : String → String → Prop} {sel : String → LimitOrderRow → Prop}
    [∀ i r, Decidable (sel i r)] {set : LimitOrderRow → LimitOrderRow}
    (hst : ∀ i r, sel i r → r.status = .active ∨ (set r).status = r.status)
    (hl : ∀ i r, t i = some r → sel i r →
    r.lease.free now = true ∨ ∃ who, r.lease.owner = some who ∧ may who i) :
    t.Spares now may (t.update sel set) := by
  constructor
  · intro holder id r hm hr hh
    refine update_of_held LimitOrderRow.lease hr hh fun hs => ?_
    refine (hl id r hr hs).imp_right ?_
    rintro ⟨who, ho, hw⟩
    exact ⟨who, fun he => hm (he ▸ hw), ho⟩
  · intro id ⟨r, hr, htr⟩
    by_cases hs : sel id r
    · refine ⟨set r, update_of_sel hr hs, ?_⟩
      rcases hst id r hs with ha | hsa
      · rw [ha] at htr
        cases htr
      · rw [hsa]
        exact htr
    · exact ⟨r, update_of_not_sel hr hs, htr⟩

theorem spares_cancel (organizationId id : String) :
    t.Spares now (fun _ _ => False) (t.cancel organizationId id now) :=
  spares_update (fun _ _ hs => .inl hs.2.2.1) fun _ _ _ hs => .inl hs.2.2.2

section

variable {order : ClaimedOrder} {worker : String}

def Own (order : ClaimedOrder) (worker holder id : String) : Prop := holder = worker ∧ id = order.id

theorem spares_writeActive (set : LimitOrderRow → LimitOrderRow) :
    t.Spares now (Own order worker) (t.writeActive order worker set) :=
  spares_update (fun _ _ hs => .inl hs.2) fun _ _ _ hs => .inr ⟨worker, hs.1.2.2, rfl, hs.1.1⟩

theorem spares_resolve (time : Int) (d : Decision) :
    t.Spares now (Own order worker) (t.resolve order worker time d) := by
  cases d with
  | wait =>
    exact spares_update (fun _ _ _ => .inr rfl) fun _ _ _ hs => .inr ⟨worker, hs.2.2, rfl, hs.1⟩
  | expire => exact spares_writeActive _
  | fire mark => exact spares_refl _

theorem spares_record (time : Int) (refusal : Option String) :
    t.Spares now (Own order worker) (t.record order worker time refusal) := by
  cases refusal with
  | none | some reason => exact spares_writeActive _

end

section

variable {t' : Orders} {worker organizationId : String} {leaseSecs : Int}
  {unlocked : List String} {orders : List ClaimedOrder}
  (hclaim : t.claimDue worker leaseSecs organizationId now unlocked = (t', orders))

include hclaim

theorem spares_of_claimDue : t.Spares now (fun _ _ => False) t' := by
  obtain ⟨rfl, -⟩ := mk.inj hclaim
  refine spares_update (fun _ _ _ => .inr rfl) fun i r hr hs => ?_
  obtain ⟨r', hr', hd⟩ := of_mem_select hs
  obtain rfl := some.inj (hr.symm.trans hr')
  exact .inl hd.2.2.1

theorem holds_of_claimDue {order : ClaimedOrder} (h : order ∈ orders) :
    ∃ r, t' order.id = some r ∧ r.Holds order worker (now + leaseSecs) := by
  obtain ⟨rfl, rfl⟩ := mk.inj hclaim
  obtain ⟨id, hi, hm⟩ := mem_filterMap.mp h
  obtain ⟨r, hr, rfl⟩ := map_eq_some_iff.mp hm
  obtain ⟨r', hr', hd⟩ := of_mem_select hi
  obtain rfl := some.inj (hr.symm.trans hr')
  refine ⟨{ r with lease := .taken worker (now + leaseSecs) }, update_of_sel hr hi, ?_⟩
  exact ⟨rfl, hd.2.1, rfl, rfl⟩

theorem nodup_of_claimDue : (orders.map ClaimedOrder.id).Nodup := by
  obtain ⟨-, rfl⟩ := mk.inj hclaim
  rw [map_filterMap]
  have hid : (t.claimable organizationId now unlocked).Nodup := nodup_select
  refine hid.filterMap ?_
  intro a b id ha hb
  obtain ⟨o, ho, rfl⟩ := map_eq_some_iff.mp ha
  obtain ⟨o', ho', hi⟩ := map_eq_some_iff.mp hb
  obtain ⟨r, -, rfl⟩ := map_eq_some_iff.mp ho
  obtain ⟨r', -, rfl⟩ := map_eq_some_iff.mp ho'
  exact hi.symm

end

end Orders

namespace System

variable {s s' : System} {worker w : String} {tick : Tick} {stage : Stage}

theorem put_ticks_of_ne (hw : w ≠ worker) : (s.put worker tick stage).ticks w = s.ticks w :=
  update_of_ne hw _ _

theorem put_ticks_self : (s.put worker tick stage).ticks worker = some (tick, stage) :=
  update_self ..

theorem idle_ticks_of_ne (hw : w ≠ worker) : (s.idle worker).ticks w = s.ticks w :=
  update_of_ne hw _ _

/-- What a worker may rely on about the orders it has at hand and still to come. -/
structure Works (s : System) (worker : String) (tick : Tick) (stage : Stage) : Prop where
  nodup : ((stage.order ++ tick.orders).map ClaimedOrder.id).Nodup
  held : s.clock ≤ tick.leaseEnd → ∀ order ∈ stage.order ++ tick.orders,
    ∃ r, s.table order.id = some r ∧ r.Holds order worker tick.leaseEnd
  unexpired : ∀ order mark, stage = .decided order (.fire mark) →
    overdue order.expiresAt tick.now = false

theorem Works.frame (h : s.Works worker tick stage) (hc : s.clock ≤ s'.clock)
    (hk : ∀ id r, s.table id = some r → r.lease.HeldBy worker s'.clock →
    s'.table id = some r) : s'.Works worker tick stage := by
  refine ⟨h.nodup, ?_, h.unexpired⟩
  intro hle order ho
  obtain ⟨r, hr, hh⟩ := h.held (Int.le_trans hc hle) order ho
  exact ⟨r, hk order.id r hr (hh.heldBy hle), hh⟩

/-- The order is triggered, or the worker that handed it off is about to say so. -/
def Settled (s : System) (id : String) : Prop :=
  (∃ r, s.table id = some r ∧ r.status = .triggered) ∨
    ∃ worker tick order, s.ticks worker = some (tick, .handed order none) ∧ order.id = id ∧
      s.clock ≤ tick.leaseEnd

structure Sound (s : System) : Prop where
  works : ∀ worker tick stage, s.ticks worker = some (tick, stage) → s.Works worker tick stage
  settled : ∀ id ∈ s.handedOff, s.Settled id

theorem Sound.put (h : s.Sound) (hti : s'.ticks = s.ticks) (hc : s'.clock = s.clock)
    {may : String → String → Prop} (hm : ∀ w id, may w id → w = worker)
    (hsp : s.table.Spares s.clock may s'.table) (hwo : s'.Works worker tick stage)
    (hse : ∀ id ∈ s'.handedOff, (s'.put worker tick stage).Settled id) :
    (s'.put worker tick stage).Sound := by
  refine ⟨?_, hse⟩
  intro w tick' stage' hw
  by_cases hn : w = worker
  · subst hn
    obtain ⟨rfl, rfl⟩ := Prod.mk.inj (some.inj (put_ticks_self.symm.trans hw))
    exact ⟨hwo.nodup, hwo.held, hwo.unexpired⟩
  · rw [put_ticks_of_ne hn, hti] at hw
    refine (h.works w tick' stage' hw).frame (Int.le_of_eq hc.symm) fun id r hr hh => ?_
    exact hsp.held w id r (fun hw => hn (hm w id hw)) hr (hc ▸ hh)

theorem Settled.put {id : String} (h : s.Settled id) (hti : s'.ticks = s.ticks)
    (hc : s'.clock = s.clock) (hta : s.table.KeepsTriggered s'.table)
    (ho : ∀ tick0 order, s.ticks worker = some (tick0, .handed order none) → order.id = id →
    s.clock ≤ tick0.leaseEnd → (s'.put worker tick stage).Settled id) :
    (s'.put worker tick stage).Settled id := by
  rcases h with htr | ⟨w, tick0, order, hw, hi, hle⟩
  · exact Or.inl (hta id htr)
  · by_cases hn : w = worker
    · subst hn
      exact ho tick0 order hw hi hle
    · refine Or.inr ⟨w, tick0, order, ?_, hi, Int.le_trans (Int.le_of_eq hc) hle⟩
      rw [put_ticks_of_ne hn, hti]
      exact hw

theorem Sound.idle (h : s.Sound) (hwo : s.ticks worker = some (tick, .next)) :
    (s.idle worker).Sound := by
  constructor
  · intro w tick' stage' hw
    have hne : w ≠ worker := by
      rintro rfl
      have hn : (s.idle w).ticks w = none := update_self ..
      cases hn.symm.trans hw
    rw [idle_ticks_of_ne hne] at hw
    exact (h.works w tick' stage' hw).frame (Int.le_refl _) fun _ _ hr _ => hr
  · intro id hi
    rcases h.settled id hi with htr | ⟨w, tick0, order, hw, ho, hle⟩
    · exact Or.inl htr
    · have hne : w ≠ worker := by
        rintro rfl
        cases hwo.symm.trans hw
      exact Or.inr ⟨w, tick0, order, (idle_ticks_of_ne hne).trans hw, ho, hle⟩

end System

/-- Times at which a run keeps to its leases. A hand-off starts, and succeeds, before the lease
of its batch runs out; the order's expiry has not come since the pass began; and nothing is
left undone between a successful hand-off and its status update: the lease does not run out,
and the update does not fail. -/
def InTime (e : Entry System Label) : Prop :=
  match e.label with
  | .startHandOff worker => ∀ tick order mark,
      e.pre.ticks worker = some (tick, .decided order (.fire mark)) →
      e.pre.clock ≤ tick.leaseEnd ∧
        (overdue order.expiresAt tick.now = false → overdue order.expiresAt e.pre.clock = false)
  | .endHandOff worker none => ∀ tick order mark,
      e.pre.ticks worker = some (tick, .handing order mark) → e.pre.clock ≤ tick.leaseEnd
  | .record worker stored => ∀ tick order,
      e.pre.ticks worker = some (tick, .handed order none) → stored = true
  | .advance time => ∀ worker tick order,
      e.pre.ticks worker = some (tick, .handed order none) → time ≤ tick.leaseEnd
  | _ => True

namespace System

variable {s : System} {leaseSecs : String → Int} {worker : String} {tick : Tick}
  {stage : Stage} {order : ClaimedOrder} {rows : Orders} {report : TickReport}

theorem Sound.advance (h : s.Sound) {time : Int} (hle : s.clock ≤ time)
    (hti : ∀ worker tick order, s.ticks worker = some (tick, .handed order none) →
    time ≤ tick.leaseEnd) : ({ s with clock := time } : System).Sound := by
  constructor
  · intro w tick stage hw
    exact (h.works w tick stage hw).frame hle fun _ _ hr _ => hr
  · intro id hi
    rcases h.settled id hi with htr | ⟨w, tick, order, hw, ho, -⟩
    · exact Or.inl htr
    · exact Or.inr ⟨w, tick, order, hw, ho, hti w tick order hw⟩

theorem Sound.table (h : s.Sound) (hsp : s.table.Spares s.clock (fun _ _ => False) rows) :
    ({ s with table := rows } : System).Sound := by
  constructor
  · intro w tick stage hw
    exact (h.works w tick stage hw).frame (Int.le_refl _) fun id r => hsp.held w id r not_false
  · intro id hi
    rcases h.settled id hi with hd | hpending
    · exact Or.inl (hsp.triggered id hd)
    · exact Or.inr hpending

theorem Sound.create (h : s.Sound) {id : String} {row : LimitOrderRow} (hf : s.table id = none) :
    ({ s with table := update s.table id (some row) } : System).Sound := by
  have hsa : ∀ i r, s.table i = some r → update s.table id (some row) i = some r := by
    intro i r hr
    have hn : i ≠ id := by
      rintro rfl
      rw [hf] at hr
      cases hr
    rw [update_of_ne hn]
    exact hr
  refine h.table ⟨fun _ i r _ hr _ => hsa i r hr, ?_⟩
  intro i ⟨r, hr, hst⟩
  exact ⟨r, hsa i r hr, hst⟩

theorem Works.written (h : s.Works worker tick stage) (hor : stage.order = [order])
    (hsp : s.table.Spares s.clock (Orders.Own order worker) rows) :
    ({ s with table := rows } : System).Works worker { tick with report := report } .next := by
  have hn := h.nodup
  rw [hor, singleton_append, map_cons, nodup_cons] at hn
  refine ⟨hn.2, ?_, fun _ _ hst => by cases hst⟩
  intro hle other ho
  obtain ⟨r, hr, hh⟩ := h.held hle other (mem_append_right _ ho)
  refine ⟨r, hsp.held worker other.id r ?_ hr (hh.heldBy hle), hh⟩
  intro how
  exact hn.1 (how.2 ▸ mem_map_of_mem ho)

theorem Sound.claim (h : s.Sound) {organizationId : String}
    (hw : s.ticks worker = some (tick, .next)) {duration : Int} {unlocked : List String}
    {orders : List ClaimedOrder} {tenants : List String}
    (hclaim : s.table.claimDue worker duration organizationId s.clock unlocked = (rows, orders)) :
    (({ s with table := rows } : System).put worker
      { tick with tenants := tenants, leaseEnd := s.clock + duration, orders := orders,
                  report := report } .next).Sound := by
  have hsp := spares_of_claimDue hclaim
  refine h.put rfl rfl (fun _ _ => False.elim) hsp ?_ ?_
  · exact ⟨nodup_of_claimDue hclaim, fun _ _ => holds_of_claimDue hclaim,
      fun _ _ hst => by cases hst⟩
  · intro id hi
    refine (h.settled id hi).put rfl rfl hsp.triggered ?_
    intro tick0 order hh
    cases hw.symm.trans hh

theorem Sound.write (h : s.Sound) (hw : s.ticks worker = some (tick, stage))
    (ho : stage.order = [order])
    (hsp : s.table.Spares s.clock (Orders.Own order worker) rows)
    (hd : stage = .handed order none → s.clock ≤ tick.leaseEnd →
    ∃ r, rows order.id = some r ∧ r.status = .triggered) :
    (({ s with table := rows } : System).put worker
      { tick with report := report } .next).Sound := by
  refine h.put rfl rfl (fun _ _ how => how.1) hsp ((h.works worker tick stage hw).written ho hsp) ?_
  intro id hi
  refine (h.settled id hi).put rfl rfl hsp.triggered ?_
  intro tick0 handed hh hi' hle
  obtain ⟨rfl, rfl⟩ := Prod.mk.inj (some.inj (hw.symm.trans hh))
  obtain rfl := singleton_inj.mp ho
  rw [← hi']
  exact Or.inl (hd rfl hle)

theorem Works.markTriggered (h : s.Works worker tick (.handed order none))
    (hle : s.clock ≤ tick.leaseEnd) :
    ∃ r, s.table.markTriggered order worker s.clock order.id = some r ∧ r.status = .triggered := by
  obtain ⟨r, hr, hh⟩ := h.held hle order (mem_append_left _ (mem_singleton_self _))
  have how : r.lease.owner = some worker := by
    rw [hh.lease]
    rfl
  have ho : Orders.Owned order worker order.id r := ⟨rfl, hh.organization, how⟩
  unfold Orders.markTriggered
  exact ⟨_, update_of_sel hr ⟨ho, hh.active⟩, rfl⟩

theorem Sound.proceed (h : s.Sound) {next : Tick} {stage' : Stage}
    (hwo : s.ticks worker = some (tick, stage))
    (hh : ∀ order, stage ≠ .handed order none) (he : next.leaseEnd = tick.leaseEnd)
    (ho : stage'.order ++ next.orders = stage.order ++ tick.orders)
    (hun : ∀ order mark, stage' = .decided order (.fire mark) →
    overdue order.expiresAt next.now = false) : (s.put worker next stage').Sound := by
  have hwor := h.works worker tick stage hwo
  refine h.put rfl rfl (fun _ _ => False.elim) (spares_refl _) ?_ ?_
  · refine ⟨?_, ?_, hun⟩
    · rw [ho]
      exact hwor.nodup
    · rw [ho, he]
      exact hwor.held
  · intro id hi
    refine (h.settled id hi).put rfl rfl (fun _ hr => hr) ?_
    intro tick0 order hw
    obtain ⟨-, hst⟩ := Prod.mk.inj (some.inj (hwo.symm.trans hw))
    exact absurd hst (hh order)

theorem Sound.endHandOff (h : s.Sound) {mark : Mark}
    (hwo : s.ticks worker = some (tick, .handing order mark)) {refusal : Option String}
    (hle : refusal = none → s.clock ≤ tick.leaseEnd) :
    (({ s with handedOff := if refusal = none then order.id :: s.handedOff
                            else s.handedOff } : System).put worker tick
      (.handed order refusal)).Sound := by
  have hpr : (s.put worker tick (.handed order refusal)).Sound :=
    h.proceed hwo (fun _ hst => by cases hst) rfl rfl fun _ _ hst => by cases hst
  constructor
  · intro w tick' stage' hw
    have hw' := hpr.works w tick' stage' hw
    exact ⟨hw'.nodup, hw'.held, hw'.unexpired⟩
  · intro id hi
    by_cases hr : refusal = none
    · rw [if_pos hr] at hi
      rcases mem_cons.mp hi with rfl | hi
      · refine Or.inr ⟨worker, tick, order, ?_, rfl, hle hr⟩
        rw [hr]
        exact put_ticks_self
      · exact hpr.settled id hi
    · rw [if_neg hr] at hi
      exact hpr.settled id hi

theorem Sound.step {label : Label} {s' : System} (h : s.Sound)
    (hti : InTime ⟨s, label, s'⟩) (hste : Step leaseSecs s label s') : s'.Sound := by
  cases hste with
  | advance hle => exact h.advance hle hti
  | create hfr _ _ => exact h.create hfr
  | cancel => exact h.table (spares_cancel _ _)
  | start hi =>
    refine h.put rfl rfl (fun _ _ => False.elim) (spares_refl _) ?_ ?_
    · refine ⟨nodup_nil, ?_, fun _ _ hst => by cases hst⟩
      intro _ order ho
      cases ho
    · intro id hid
      refine (h.settled id hid).put rfl rfl (fun _ hr => hr) ?_
      intro tick0 order hw
      cases hi.symm.trans hw
  | claim hwo _ _ hclaim => exact h.claim hwo hclaim
  | claimFails hwo _ _ | finish hwo _ _ => exact h.idle hwo
  | look hwo hor =>
    refine h.proceed hwo (fun _ hst => by cases hst) rfl ?_ ?_
    · rw [hor]
      rfl
    · intro order mark hst
      obtain ⟨rfl, hf⟩ := Stage.decided.inj hst
      exact not_overdue_of_fire hf
  | resolve hwo _ =>
    refine h.write hwo rfl ?_ (fun hst => by cases hst)
    split
    · exact spares_resolve _ _
    · exact spares_refl _
  | startHandOff hwo =>
    exact h.proceed hwo (fun _ hst => by cases hst) rfl rfl fun _ _ hst => by cases hst
  | @endHandOff worker tick order mark refusal hwo =>
    refine h.endHandOff hwo ?_
    rintro rfl
    exact hti tick order mark hwo
  | @record worker tick order refusal stored hwo =>
    refine h.write hwo rfl ?_ ?_
    · split
      · exact spares_record _ _
      · exact spares_refl _
    · intro hst hle
      obtain ⟨-, rfl⟩ := Stage.handed.inj hst
      have hsto : stored = true := hti tick order hwo
      rw [if_pos hsto]
      exact (h.works worker tick _ hwo).markTriggered hle

structure Fresh (s : System) : Prop where
  idle : ∀ worker, s.ticks worker = none
  handedOff : s.handedOff = []

theorem Fresh.sound (h : s.Fresh) : s.Sound := by
  constructor
  · intro worker tick stage hw
    rw [h.idle worker] at hw
    cases hw
  · intro id hi
    rw [h.handedOff] at hi
    cases hi

theorem Sound.settled_status (h : s.Sound) {id : String} (hi : id ∈ s.handedOff)
    {r : LimitOrderRow} (hr : s.table id = some r) :
    r.status = .triggered ∨ r.status = .active := by
  rcases h.settled id hi with ⟨r', hr', hst⟩ | ⟨worker, tick, order, hw, rfl, hle⟩
  · obtain rfl := some.inj (hr.symm.trans hr')
    exact Or.inl hst
  · obtain ⟨r', hr', hh⟩ := (h.works worker tick _ hw).held hle order
      (mem_append_left _ (mem_singleton_self _))
    obtain rfl := some.inj (hr.symm.trans hr')
    exact Or.inr hh.active

end System

/-- In a run that keeps to its leases, a hand-off starts only while the worker holds the order,
the order is active and its expiry has not come; and an order that was handed off is never
cancelled or expired. -/
theorem fires_only_while_held {leaseSecs : String → Int} {s t : System}
    {tr : List (Entry System Label)} (hfresh : s.Fresh) (hrun : Run (Step leaseSecs) s tr t)
    (htime : ∀ e ∈ tr, InTime e) :
    (∀ e ∈ tr, ∀ worker, e.label = .startHandOff worker →
      ∃ tick order mark r, e.pre.ticks worker = some (tick, .decided order (.fire mark)) ∧
        e.pre.table order.id = some r ∧ r.lease.HeldBy worker e.pre.clock ∧
        r.status = .active ∧ overdue r.expiresAt e.pre.clock = false) ∧
      ∀ id ∈ t.handedOff, ∀ r, t.table id = some r →
        r.status ≠ .cancelled ∧ r.status ≠ .expired := by
  constructor
  · intro ⟨pre, label, post⟩ he worker hl
    obtain ⟨hso, hste⟩ := hrun.invariant_before (I := System.Sound)
      (fun _ _ _ h hP hs => h.step hP hs) htime hfresh.sound he
    have hin := htime _ he
    dsimp only at hste hso
    subst hl
    cases hste with
    | @startHandOff _ tick order mark hw =>
      obtain ⟨hle, hexp⟩ := hin tick order mark hw
      have hwo := hso.works worker tick _ hw
      obtain ⟨r, hr, hh⟩ := hwo.held hle order (mem_append_left _ (mem_singleton_self _))
      refine ⟨tick, order, mark, r, hw, hr, hh.heldBy hle, hh.active, ?_⟩
      rw [hh.expiresAt]
      exact hexp (hwo.unexpired order mark rfl)
  · intro id hi r hr
    have hso : t.Sound := hrun.invariant_of_entries (fun _ _ _ h hP hs => h.step hP hs) htime
      hfresh.sound
    rcases hso.settled_status hi hr with hst | hst
    · rw [hst]
      decide
    · rw [hst]
      decide

/-! ### One order, one worker -/

def openOrder : LimitOrderRow where
  organizationId := "org"
  mint := "So11111111111111111111111111111111111111112"
  side := .buy
  trigger := .atOrBelow
  priceSol := 1
  amount := 1
  status := .active
  createdAt := 0
  expiresAt := none
  resolvedAt := none
  executedAt := none
  lease := .released
  attempts := 0
  lastError := none

def oneOrder : System where
  clock := 0
  table := update (fun _ => none) "lo_1" (some openOrder)
  ticks := fun _ => none
  handedOff := []

theorem oneOrder_fresh : oneOrder.Fresh := ⟨fun _ => rfl, rfl⟩

def heldOrder : LimitOrderRow := { openOrder with lease := .taken "w1" 30 }

def cancelledOrder : LimitOrderRow :=
  { heldOrder with status := .cancelled, resolvedAt := some 31, lease := .released }

def heldTick : Tick := ⟨0, [], 30, [], ⟨1, 0, 0, 0, 0⟩⟩

def heldStage : Stage := .decided (.ofRow "lo_1" openOrder) (.fire (.finite (9 / 10)))

theorem run_to_fire : ∃ tr s, Run (Step fun _ => 30) oneOrder tr s ∧ (∀ e ∈ tr, InTime e) ∧
    s.clock = 0 ∧ s.ticks "w1" = some (heldTick, heldStage) ∧
    s.table "lo_1" = some heldOrder := by
  have hst : Step (fun _ => 30) oneOrder (.start "w1" ["org"]) _ := .start rfl
  have hclaim := (Run.single hst).snoc (a := .claim "w1" (some ["lo_1"]))
    (.claim System.put_ticks_self rfl rfl rfl)
  have hl := hclaim.snoc (a := .look "w1" (some (.finite (9 / 10))))
    (.look System.put_ticks_self rfl)
  refine ⟨_, _, hl, ?_, rfl, ?_, ?_⟩
  · intro e he
    simp only [mem_append, mem_singleton] at he
    rcases he with (rfl | rfl) | rfl <;> trivial
  · decide +kernel
  · decide +kernel

/-- The lease runs out during the lookups, the user cancels the order, and the worker hands it
off all the same: it is cancelled before the hand-off starts and stays so after it succeeds. -/
theorem late_worker_fires_cancelled_order : ∃ s tr t, s.Fresh ∧ Run (Step fun _ => 30) s tr t ∧
    (∃ e ∈ tr, e.label = .startHandOff "w1" ∧ ∃ tick order mark r,
      e.pre.ticks "w1" = some (tick, .decided order (.fire mark)) ∧
      e.pre.table order.id = some r ∧ r.lease = .released ∧ r.status = .cancelled) ∧
    "lo_1" ∈ t.handedOff ∧ ∃ r, t.table "lo_1" = some r ∧ r.status = .cancelled := by
  obtain ⟨tr, s, hr, -, hcl, hti, hta⟩ := run_to_fire
  have ha : Step (fun _ => 30) s (.advance 31) { s with clock := 31 } := by
    apply Step.advance
    rw [hcl]
    decide
  have hc : s.table.cancel "org" "lo_1" 31 "lo_1" = some cancelledOrder := by
    exact Table.update_of_sel (r := heldOrder) hta (by decide +kernel)
  have hca := (hr.snoc ha).snoc (a := .cancel "org" "lo_1") .cancel
  have hf := hca.snoc (a := .startHandOff "w1") (.startHandOff
    (s := { s with clock := 31, table := s.table.cancel "org" "lo_1" 31 }) hti)
  have hd := hf.snoc (a := .endHandOff "w1" none) (.endHandOff System.put_ticks_self)
  refine ⟨oneOrder, _, _, oneOrder_fresh, hd, ?_, ?_, ?_⟩
  · refine ⟨_, mem_append_left _ (mem_append_right _ (mem_singleton_self _)), rfl,
      heldTick, _, _, _, hti, hc, rfl, rfl⟩
  · exact mem_cons_self
  · exact ⟨_, hc, rfl⟩

theorem fires_only_while_held_at_once : ∃ tr t, Run (Step fun _ => 30) oneOrder tr t ∧
    "lo_1" ∈ t.handedOff ∧
    (∀ e ∈ tr, ∀ worker, e.label = .startHandOff worker →
      ∃ tick order mark r, e.pre.ticks worker = some (tick, .decided order (.fire mark)) ∧
        e.pre.table order.id = some r ∧ r.lease.HeldBy worker e.pre.clock ∧
        r.status = .active ∧ overdue r.expiresAt e.pre.clock = false) ∧
      ∀ id ∈ t.handedOff, ∀ r, t.table id = some r →
        r.status ≠ .cancelled ∧ r.status ≠ .expired := by
  obtain ⟨tr, s, hr, htim, hc, hti, -⟩ := run_to_fire
  have hf := hr.snoc (a := .startHandOff "w1") (.startHandOff hti)
  have hd := hf.snoc (a := .endHandOff "w1" none) (.endHandOff System.put_ticks_self)
  have ha := hd.snoc (a := .record "w1" true) (.record System.put_ticks_self)
  refine ⟨_, _, ha, mem_cons_self, fires_only_while_held oneOrder_fresh ha ?_⟩
  intro e he
  simp only [mem_append, mem_singleton] at he
  rcases he with ((he | rfl) | rfl) | rfl
  · exact htim e he
  · intro tick order mark hw
    obtain ⟨rfl, hst⟩ := Prod.mk.inj (some.inj (hti.symm.trans hw))
    obtain ⟨rfl, -⟩ := Stage.decided.inj hst
    rw [hc]
    decide
  · intro tick order mark hw
    obtain ⟨rfl, -⟩ := Prod.mk.inj (some.inj (System.put_ticks_self.symm.trans hw))
    change s.clock ≤ 30
    rw [hc]
    decide
  · intro _ _ _
    rfl

end SniperBot.LimitOrders
