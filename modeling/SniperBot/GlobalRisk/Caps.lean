import SniperBot.Lib.Totals
import SniperBot.GlobalRisk.Reservations

/-!
# Exposure caps over all replicas

What the ledger shows and what is reserved stay together under every cap. A replica
that decides has read all unexpired reservations into its book, and as long as its
lease on the admission lock lasts nobody can add one.
-/

namespace SniperBot.GlobalRisk

open Lib.Runs Lib.Interleaving Lib.Totals List RiskEntryReservation Cluster

def Dimension.ofReservation (d : Dimension) (res : RiskEntryReservation) : String :=
  d.ofEntry (res.entry true)

def Cluster.usage (c : Cluster) (d : Dimension) (slice : String) : ℚ :=
  ((c.live.filter (d.ofReservation · = slice)).map requestedRef).sum

/-- A further reservation for the request fits under every cap that is on. -/
def Fits (S : Setting) (c : Cluster) (req : GlobalRiskRequest) (requestedRef : ℚ) : Prop :=
  ∀ d, 0 < S.cfg.limit d →
    S.view.exposure d (d.slice req) + c.usage d (d.slice req) + requestedRef ≤ S.cfg.limit d

variable {S : Setting} {c c' : Cluster} {k k' : Section} {h : Hold} {id : String}
  {res : RiskEntryReservation} {active : List RiskEntryReservation} {es : Entries}
  {p : String × ReservedEntry} {req : GlobalRiskRequest}

theorem mem_live :
    res ∈ c.live ↔ (∃ lease ∈ c.leases, lease.res = res) ∧ c.now < res.expiresAt := by
  simp [live]

theorem usage_mono (hl : c'.live.Sublist c.live)
    (hn : ∀ res ∈ c.live, 0 ≤ res.requestedRef) (d : Dimension) (slice : String) :
    c'.usage d slice ≤ c.usage d slice :=
  sum_le_of_sublist (hl.filter _) fun res hr => hn res (mem_of_mem_filter hr)

theorem Fits.mono {ref : ℚ} (hf : Fits S c req ref)
    (hl : c'.live.Sublist c.live) (hn : ∀ res ∈ c.live, 0 ≤ res.requestedRef) :
    Fits S c' req ref := by
  intro d hd
  have hbe := hf d hd
  have hles := usage_mono hl hn d (d.slice req)
  linarith

/-! ## The book of a replica -/

theorem mem_foldl_put (hp : p ∈ es) (hn : ∀ res ∈ active, res.reservationId ≠ p.1) :
    p ∈ active.foldl (fun es res => es.put res.reservationId (res.entry true)) es := by
  induction active generalizing es with
  | nil => exact hp
  | cons res active ih =>
    refine ih ?_ fun res' hr' => hn res' (mem_cons_of_mem _ hr')
    exact mem_put.mpr (.inr ⟨hp, (hn res mem_cons_self).symm⟩)

theorem mem_foldl_put_self (hn : (active.map reservationId).Nodup) (hr : res ∈ active) :
    (res.reservationId, res.entry true) ∈
    active.foldl (fun es res => es.put res.reservationId (res.entry true)) es := by
  induction active generalizing es with
  | nil => cases hr
  | cons res' active ih =>
    rw [map_cons, nodup_cons] at hn
    rw [foldl_cons]
    rcases mem_cons.mp hr with rfl | hr
    · refine mem_foldl_put (mem_put.mpr (.inl rfl)) fun res' hr' he => ?_
      exact hn.1 (mem_map.mpr ⟨res', hr', he⟩)
    · exact ih hn.2 hr

theorem mem_of_mem_foldl_put
    (hp : p ∈ active.foldl (fun es res => es.put res.reservationId (res.entry true)) es) :
    p ∈ es ∨ ∃ res ∈ active, p.2 = res.entry true := by
  induction active generalizing es with
  | nil => exact .inl hp
  | cons res active ih =>
    rcases ih hp with hp | ⟨res', hr', he⟩
    · rcases mem_put.mp hp with rfl | ⟨hp, -⟩
      · exact .inr ⟨res, mem_cons_self, rfl⟩
      · exact .inl hp
    · exact .inr ⟨res', mem_cons_of_mem _ hr', he⟩

theorem usage_le_reservedRef {entries : Entries} {ts : Int} (hn : (c.live.map reservationId).Nodup)
    (ho : ∀ res ∈ c.live, res.organization = none)
    (hbo : ∀ res ∈ c.live, (res.reservationId, res.entry true) ∈ entries)
    (hno : ∀ p ∈ entries, 0 ≤ p.2.requestedRef) (hts : ts ≤ c.now) (d : Dimension)
    (slice : String) : c.usage d slice ≤ reservedRef (entries.map Prod.snd) ts d slice := by
  let pair : RiskEntryReservation → String × ReservedEntry :=
    fun res => (res.reservationId, res.entry true)
  let counted := entries.filter (·.2.Counts ts d slice)
  have hsub : (c.live.filter (d.ofReservation · = slice)).map pair ⊆ counted := by
    intro p hp
    obtain ⟨res, hre, rfl⟩ := mem_map.mp hp
    obtain ⟨hre, hsl⟩ := mem_filter.mp hre
    have hli := (mem_live.mp hre).2
    refine mem_filter.mpr ⟨hbo res hre, ?_⟩
    simp only [decide_eq_true_eq] at hsl ⊢
    exact ⟨by show ts < res.expiresAt; omega, ho res hre, hsl⟩
  have hd : ((c.live.filter (d.ofReservation · = slice)).map pair).Nodup := by
    refine List.Nodup.of_map Prod.fst ?_
    rw [map_map]
    exact (filter_sublist.map _).nodup hn
  have hsu := sum_le_of_subset (w := fun p => p.2.requestedRef) hd hsub
    fun p hp => hno p (mem_of_mem_filter hp)
  have hl : c.usage d slice =
      (((c.live.filter (d.ofReservation · = slice)).map pair).map fun p => p.2.requestedRef).sum := by
    rw [map_map]
    rfl
  have hr : reservedRef (entries.map Prod.snd) ts d slice =
      (counted.map fun p => p.2.requestedRef).sum := by
    rw [reservedRef, filter_map, map_map]
    rfl
  rw [hl, hr]
  exact hsu

/-! ## What a decision under way is sure of -/

/-- What a call has established where it stands. The facts about reservations hold as
long as its lease lasts. -/
def Informed (S : Setting) (c : Cluster) : Section → Prop
  | .install _ h active =>
    (active.map reservationId).Nodup ∧
      (∀ res ∈ active, 0 ≤ res.requestedRef) ∧ (c.now < h.leaseUntil → ∀ res ∈ c.live, res ∈ active)
  | .number ask h | .judge ask h _ _ =>
    c.now < h.leaseUntil → ∀ res ∈ c.live,
      (res.reservationId, res.entry true) ∈ (c.engines ask.replica).entries
  | .date ask h _ ref => 0 ≤ ref ∧ (c.now < h.leaseUntil → Fits S c ask.req ref)
  | .create ask h res | .reserve ask h res =>
    0 ≤ res.requestedRef ∧ res.organization = none ∧
      (∀ d : Dimension, d.ofReservation res = d.slice ask.req) ∧
      (c.now < h.leaseUntil → Fits S c ask.req res.requestedRef)
  | _ => True

structure Accounted (S : Setting) (s : State Cluster Section) : Prop where
  informed : ∀ k ∈ s.running, Informed S s.shared k
  rows : ∀ row ∈ s.shared.rows, 0 ≤ row.requestedRef
  leases : ∀ lease ∈ s.shared.leases, 0 ≤ lease.res.requestedRef ∧ lease.res.organization = none
  entries : ∀ r, ∀ p ∈ (s.shared.engines r).entries, 0 ≤ p.2.requestedRef
  capped : ∀ res ∈ s.shared.live, ∀ d, 0 < S.cfg.limit d →
    S.view.exposure d (d.ofReservation res) + s.shared.usage d (d.ofReservation res) ≤ S.cfg.limit d

variable {s t : State Cluster Section} {a : Label Section Reply}

theorem Accounted.nonneg (ha : Accounted S s) : ∀ res ∈ s.shared.live, 0 ≤ res.requestedRef := by
  intro res hr
  obtain ⟨⟨lease, hl, rfl⟩, -⟩ := mem_live.mp hr
  exact (ha.leases lease hl).1

theorem Owned.nodup_live (ho : Owned S s) : (s.shared.live.map reservationId).Nodup := by
  have ha : (s.shared.leases.map fun l => l.res.reservationId).Nodup := by
    rw [nodup_iff_count_le_one]
    intro id
    have hsi := ho.single id
    rw [owners] at hsi
    rw [count_eq_countP, countP_map]
    have hsa : s.shared.leases.countP ((· == id) ∘ fun l => l.res.reservationId) =
        s.shared.leases.countP (·.res.reservationId = id) := by
      refine countP_congr fun l _ => ?_
      simp
    omega
  have hm : s.shared.leases.map (fun l => l.res.reservationId) =
      (s.shared.leases.map Lease.res).map reservationId := by
    rw [map_map]
    rfl
  rw [hm] at ha
  exact (filter_sublist.map _).nodup ha

theorem live_sublist (hs : Step (act S) IsCall s a t)
    (hn : ∀ ask h res r, a ≠ .act (.reserve ask h res) r) :
    t.shared.live.Sublist s.shared.live := by
  have hno := now_le_step hs
  have hla : ∀ {l l' : List Lease}, l.Sublist l' →
      ((l.map Lease.res).filter (t.shared.now < ·.expiresAt)).Sublist
        ((l'.map Lease.res).filter (s.shared.now < ·.expiresAt)) := by
    intro l l' hl
    refine ((hl.map _).filter _).trans ?_
    have hf : (l'.map Lease.res).filter (t.shared.now < ·.expiresAt) =
        ((l'.map Lease.res).filter (s.shared.now < ·.expiresAt)).filter
          (t.shared.now < ·.expiresAt) := by
      rw [filter_filter]
      refine filter_congr fun res _ => ?_
      rw [Bool.eq_iff_iff]
      simp only [Bool.and_eq_true, decide_eq_true_eq]
      omega
    rw [hf]
    exact filter_sublist
  unfold live
  cases moves_of_step hs with
  | still _ hlea =>
    rw [hlea]
    exact hla (List.Sublist.refl _)
  | purged _ _ hsh | created _ _ _ hsh | deleted _ _ hsh =>
    rw [hsh]
  | reserved _ ha => exact absurd ha (hn _ _ _ _)
  | released _ _ _ hlea =>
    rw [hlea]
    exact hla erase_sublist

theorem Owned.ne_of_erase (ho : Owned S s) {lease lease' : Lease} (hl : lease ∈ s.shared.leases)
    (hl' : lease' ∈ s.shared.leases.erase lease) :
    lease'.res.reservationId ≠ lease.res.reservationId := by
  intro he
  have hsi := ho.single lease.res.reservationId
  have hpe := (perm_cons_erase hl).countP_eq fun l => l.res.reservationId = lease.res.reservationId
  have hot : 0 < (s.shared.leases.erase lease).countP
      (·.res.reservationId = lease.res.reservationId) :=
    countP_pos_iff.mpr ⟨lease', hl', by simpa using he⟩
  rw [countP_cons_of_pos (by simp)] at hpe
  unfold owners at hsi
  omega

theorem Owned.book_kept (ho : Owned S s) (hs : Step (act S) IsCall s a t)
    (hn : ∀ k r h, a = .act k r → k.critical ≠ some h) (hre : res ∈ t.shared.live) {r : String}
    {e : ReservedEntry} (hbo : (res.reservationId, e) ∈ (s.shared.engines r).entries) :
    (res.reservationId, e) ∈ (t.shared.engines r).entries := by
  rcases hs.shared_cases with ⟨k, -, hsh⟩ | ⟨k, hk, rfl, hsh⟩
  · rwa [hsh]
  rcases act_cases S k s.shared with hq | ⟨ask, h, rfl, -⟩ | ⟨ask, h, active, rfl⟩ |
    ⟨ask, h, res, rfl, -⟩ | ⟨ask, h, res, rfl⟩ | ⟨r₀, id₀, lease, rfl, hf, ha⟩ | ⟨id₀, rfl⟩
  · rw [hsh, hq.entries]
    exact hbo
  · exact absurd rfl (hn _ _ h rfl)
  · exact absurd rfl (hn _ _ h rfl)
  · exact absurd rfl (hn _ _ h rfl)
  · exact absurd rfl (hn _ _ h rfl)
  · obtain ⟨hl, -, rfl⟩ := mem_of_findLease hf
    rw [hsh, ha] at hre ⊢
    obtain ⟨⟨lease', hl', rfl⟩, -⟩ := mem_live.mp hre
    have hne := ho.ne_of_erase hl hl'
    by_cases hr : r = r₀
    · subst hr
      simpa [onEntries, onEngine, Entries.remove, hne] using hbo
    · simpa [onEntries, onEngine, hr] using hbo
  · rw [hsh]
    exact hbo

/-- What a call is sure of outlives the steps of other calls, as long as its lease
lasts: whoever could interfere has the lock. -/
theorem Accounted.informed_other (hac : Accounted S s) (ho : Owned S s) (hex : Exclusive s)
    (htim : Timely ⟨s, a, t⟩) (hs : Step (act S) IsCall s a t) (hk' : k' ∈ s.running)
    (hot : ∀ k r, a = .act k r → k ∈ s.running ∧ k' ∈ s.running.erase k) :
    Informed S t.shared k' := by
  have hn := now_le_step hs
  have hf : ∀ h, k'.hold = some h → t.shared.now < h.leaseUntil →
      ∀ k r h₁, a = .act k r → k.critical ≠ some h₁ := by
    intro h hh hti k r h₁ ha hc
    subst ha
    obtain ⟨hk, hm⟩ := hot k r rfl
    exact hex.lapsed hk hm (Section.hold_of_critical hc) hh (htim h₁ hc) (by omega)
  have hsub : ∀ h, k'.hold = some h → t.shared.now < h.leaseUntil →
      t.shared.live.Sublist s.shared.live := by
    intro h hh hti
    exact live_sublist hs fun ask h₁ res r ha => hf h hh hti _ _ h₁ ha rfl
  have hbe := hac.informed k' hk'
  cases k' with
  | install ask h active =>
    refine ⟨hbe.1, hbe.2.1, fun hti res hr => ?_⟩
    exact hbe.2.2 (by omega) res ((hsub h rfl hti).subset hr)
  | number ask h | judge ask h =>
    intro hti res hr
    refine ho.book_kept hs (hf h rfl hti) hr ?_
    exact hbe (by omega) res ((hsub h rfl hti).subset hr)
  | date ask h id ref =>
    refine ⟨hbe.1, fun hti => ?_⟩
    exact (hbe.2 (by omega)).mono (hsub h rfl hti) hac.nonneg
  | create ask h res | reserve ask h res =>
    refine ⟨hbe.1, hbe.2.1, hbe.2.2.1, fun hti => ?_⟩
    exact (hbe.2.2.2 (by omega)).mono (hsub h rfl hti) hac.nonneg
  | _ => trivial

theorem ofReservation_record (d : Dimension) (req : GlobalRiskRequest) (ref : ℚ)
    (org : Option String) (expiresAt : Int) :
    d.ofReservation (reservationRecord id req ref org expiresAt) = d.slice req := by
  cases d <;> rfl

theorem Accounted.informed_next (hacc : Accounted S s) (ho : Owned S s) (hk : k ∈ s.running)
    (hti : ∀ h, k.critical = some h → s.shared.now < h.leaseUntil)
    (hnext : (act S k s.shared).2 = .inl k') : Informed S (act S k s.shared).1 k' := by
  have hkn := ho.knows k hk
  have hbe := hacc.informed k hk
  cases k with
  | select ask h =>
    simp only [act] at hnext ⊢
    split at hnext
    · cases hnext
      trivial
    · next hf =>
      cases hnext
      rw [if_neg hf]
      refine ⟨(filter_sublist.map _).nodup ho.unique, ?_, ?_⟩
      · exact fun res hr => hacc.rows res (mem_of_mem_filter hr)
      · intro _ res hr
        obtain ⟨⟨lease, hlea, rfl⟩, hl⟩ := mem_live.mp hr
        exact mem_filter.mpr ⟨ho.leased lease hlea hl, by simpa using hl⟩
  | install ask h active =>
    cases hnext
    intro _ res hr
    have hl : s.shared.now < res.expiresAt := (mem_live.mp hr).2
    have hac := hbe.2.2 (hti h rfl) res hr
    have hm : res ∈ active.filter (s.shared.now < ·.expiresAt) :=
      mem_filter.mpr ⟨hac, by simpa using hl⟩
    simp only [act, onEntries, onEngine, Function.update_self]
    exact mem_foldl_put_self ((filter_sublist.map _).nodup hbe.1) hm
  | number ask h =>
    cases hnext
    intro ht' res hr
    simpa [act, onEngine] using hbe (hti h rfl) res hr
  | judge ask h ts id =>
    simp only [act] at hnext ⊢
    split at hnext
    · next snapshot hd =>
      cases hnext
      have ha := admits_of_decideInner hd
      refine ⟨ha.nonneg, fun _ d hd' => ?_⟩
      have hfi := ha.fits d hd'
      have hor : ∀ res ∈ s.shared.live, res.organization = none := by
        intro res hr
        obtain ⟨⟨lease, hlea, rfl⟩, -⟩ := mem_live.mp hr
        exact (hacc.leases lease hlea).2
      have husage := usage_le_reservedRef ho.nodup_live hor (hbe (hti h rfl))
        (hacc.entries ask.replica) hkn.1 d (d.slice ask.req)
      linarith
    · cases hnext
      trivial
  | date ask h id ref =>
    cases hnext
    exact ⟨hbe.1, rfl, fun d => ofReservation_record d _ _ _ _, hbe.2⟩
  | create ask h res =>
    simp only [act] at hnext ⊢
    split at hnext
    · cases hnext
      trivial
    · next hro =>
      split at hnext <;> cases hnext
      · trivial
      · next hlo =>
        rw [if_neg hro, if_neg hlo]
        exact hbe
  | gate | acquire | purge | release | leave =>
    simp only [act] at hnext
    repeat' split at hnext
    all_goals
      cases hnext
      try trivial
  | reserve | refuse =>
    cases hnext
    trivial
  | wait | unlock | deleteRow => cases hnext

theorem Accounted.informed_step (hac : Accounted S s) (ho : Owned S s) (hex : Exclusive s)
    (hti : Timely ⟨s, a, t⟩) (hs : Step (act S) IsCall s a t) :
    ∀ k ∈ t.running, Informed S t.shared k := by
  intro k' hk'
  rcases hs.mem_running hk' with
    ⟨k, rfl, -, hc | hm⟩ | ⟨k, hk, rfl, hsh, hm | hnext⟩
  · cases hc <;> trivial
  · exact hac.informed_other ho hex hti hs hm (by simp)
  · refine hac.informed_other ho hex hti hs (mem_of_mem_erase hm) fun k₁ r ha => ?_
    obtain ⟨rfl, -⟩ := Label.act.inj ha
    exact ⟨hk, hm⟩
  · rw [hsh]
    exact hac.informed_next ho hk hti hnext

/-! ## The caps -/

section

variable (ha : Accounted S s) (hs : Step (act S) IsCall s a t)

include ha hs

theorem Accounted.rows_step : ∀ row ∈ t.shared.rows, 0 ≤ row.requestedRef := by
  intro row hro
  cases moves_of_step hs with
  | still hr | reserved _ _ hr | released _ hr =>
    rw [hr] at hro
    exact ha.rows row hro
  | purged _ _ hsh | deleted _ _ hsh =>
    rw [hsh] at hro
    exact ha.rows row (mem_of_mem_filter hro)
  | created hk _ _ hsh =>
    rw [hsh] at hro
    rcases mem_append.mp hro with hro | hro
    · exact ha.rows row hro
    · obtain rfl := mem_singleton.mp hro
      exact (ha.informed _ hk).1

theorem Accounted.leases_step :
    ∀ lease ∈ t.shared.leases, 0 ≤ lease.res.requestedRef ∧ lease.res.organization = none := by
  intro lease hl
  cases moves_of_step hs with
  | still _ hlea =>
    rw [hlea] at hl
    exact ha.leases lease hl
  | purged _ _ hsh | created _ _ _ hsh | deleted _ _ hsh =>
    rw [hsh] at hl
    exact ha.leases lease hl
  | reserved hk _ _ _ hlea =>
    rw [hlea] at hl
    rcases mem_append.mp hl with hl | hl
    · exact ha.leases lease hl
    · obtain rfl := mem_singleton.mp hl
      have hi := ha.informed _ hk
      exact ⟨hi.1, hi.2.1⟩
  | released _ _ _ hlea =>
    rw [hlea] at hl
    exact ha.leases lease (mem_of_mem_erase hl)

theorem Accounted.entries_step : ∀ r, ∀ p ∈ (t.shared.engines r).entries, 0 ≤ p.2.requestedRef := by
  intro r p hp
  rcases hs.shared_cases with ⟨k, -, hsh⟩ | ⟨k, hk, rfl, hsh⟩
  · rw [hsh] at hp
    exact ha.entries r p hp
  rw [hsh] at hp
  -- a book changes at one replica only
  have ho : ∀ {r₀ : String} {g : Entries → Entries},
      p ∈ ((s.shared.onEntries r₀ g).engines r).entries →
        p ∈ g (s.shared.engines r₀).entries ∨ p ∈ (s.shared.engines r).entries := by
    intro r₀ g hp
    by_cases hr : r = r₀
    · subst hr
      simp only [onEntries, onEngine, Function.update_self] at hp
      exact .inl hp
    · simp only [onEntries, onEngine, Function.update_of_ne hr] at hp
      exact .inr hp
  rcases act_cases S k s.shared with hq | ⟨ask, h, rfl, hac⟩ | ⟨ask, h, active, rfl⟩ |
    ⟨ask, h, res, rfl, -, hac, -⟩ | ⟨ask, h, res, rfl⟩ | ⟨r₀, id₀, lease, rfl, -, hac⟩ |
    ⟨id₀, rfl⟩
  · rw [hq.entries] at hp
    exact ha.entries r p hp
  · rw [hac] at hp
    exact ha.entries r p hp
  · have hp : p ∈ ((s.shared.onEntries ask.replica
        (·.installDistributed active s.shared.now)).engines r).entries := hp
    rcases ho hp with hp | hp
    · rcases mem_of_mem_foldl_put hp with hp | ⟨res, hre, he⟩
      · exact ha.entries ask.replica p (mem_of_mem_filter hp)
      · rw [he]
        exact (ha.informed _ hk).2.1 res (mem_of_mem_filter hre)
    · exact ha.entries r p hp
  · rw [hac] at hp
    exact ha.entries r p hp
  · have hp : p ∈ ((s.shared.onEntries ask.replica
        (·.put res.reservationId (res.entry true))).engines r).entries := hp
    rcases ho hp with hp | hp
    · rcases mem_put.mp hp with rfl | ⟨hp, -⟩
      · exact (ha.informed _ hk).1
      · exact ha.entries ask.replica p hp
    · exact ha.entries r p hp
  · rw [hac] at hp
    rcases ho hp with hp | hp
    · exact ha.entries r₀ p (mem_of_mem_filter hp)
    · exact ha.entries r p hp
  · exact ha.entries r p hp

end

theorem usage_reserved {lease : Lease} (hl : c'.leases = c.leases ++ [lease])
    (hn : c'.now = c.now) (d : Dimension) (slice : String) :
    c'.usage d slice = c.usage d slice +
    if c.now < lease.res.expiresAt ∧ d.ofReservation lease.res = slice then
      lease.res.requestedRef else 0 := by
  have hli : c'.live = c.live ++ if c.now < lease.res.expiresAt then [lease.res] else [] := by
    simp only [live, hl, hn, map_append, filter_append, map_cons,
      map_nil, filter_cons, filter_nil, decide_eq_true_eq]
  rw [usage, hli, filter_append, map_append, sum_append]
  congr 1
  by_cases hti : c.now < lease.res.expiresAt
  · by_cases hsl : d.ofReservation lease.res = slice
    · simp [hti, hsl]
    · simp [hti, hsl]
  · simp [hti]

theorem Accounted.capped_step (ha : Accounted S s) (hti : Timely ⟨s, a, t⟩)
    (hs : Step (act S) IsCall s a t) :
    ∀ res ∈ t.shared.live, ∀ d, 0 < S.cfg.limit d →
    S.view.exposure d (d.ofReservation res) + t.shared.usage d (d.ofReservation res) ≤
      S.cfg.limit d := by
  intro res hre d hd
  by_cases hr : ∃ ask h res r, a = .act (.reserve ask h res) r
  · obtain ⟨ask, h, res₁, r, rfl⟩ := hr
    rcases hs.shared_cases with ⟨_, hla, -⟩ | ⟨k, hk, hla, hsh⟩
    · cases hla
    obtain ⟨rfl, -⟩ := Label.act.inj hla
    have hlea : t.shared.leases = s.shared.leases ++ [⟨ask.replica, res₁⟩] := by
      rw [hsh]
      rfl
    have hno : t.shared.now = s.shared.now := by
      rw [hsh]
      rfl
    obtain ⟨-, -, hsl, hf⟩ := ha.informed _ hk
    have hro := hf (hti h rfl) d hd
    rw [← hsl d] at hro
    rw [usage_reserved hlea hno]
    by_cases hn : s.shared.now < res₁.expiresAt ∧ d.ofReservation res₁ = d.ofReservation res
    · rw [if_pos hn, ← hn.2]
      linarith
    · rw [if_neg hn, add_zero]
      refine ha.capped res ?_ d hd
      obtain ⟨⟨lease, hl, rfl⟩, hli⟩ := mem_live.mp hre
      rw [hno] at hli
      rw [hlea] at hl
      rcases mem_append.mp hl with hl | hl
      · exact mem_live.mpr ⟨⟨lease, hl, rfl⟩, hli⟩
      · obtain rfl := mem_singleton.mp hl
        exact absurd ⟨hli, rfl⟩ hn
  · push Not at hr
    have hli := live_sublist hs hr
    have hbe := ha.capped res (hli.subset hre) d hd
    have hles := usage_mono hli ha.nonneg d (d.ofReservation res)
    linarith

theorem Accounted.step (ha : Accounted S s) (ho : Owned S s) (hex : Exclusive s)
    (hti : Timely ⟨s, a, t⟩) (hs : Step (act S) IsCall s a t) : Accounted S t where
  informed := ha.informed_step ho hex hti hs
  rows := ha.rows_step hs
  leases := ha.leases_step hs
  entries := ha.entries_step hs
  capped := ha.capped_step hti hs

/-! ## Whole runs -/

/-- A cluster whose processes have just come up. The table may hold rows of earlier
processes; it accepts an id once and no negative amount, and its rows carry the dates
that decisions gave them. -/
structure Cluster.Fresh (S : Setting) (c : Cluster) : Prop where
  leases : c.leases = []
  entries : ∀ r, (c.engines r).entries = []
  unique : (c.rows.map reservationId).Nodup
  aged : ∀ row ∈ c.rows, Aged S row.reservationId row.expiresAt
  nonneg : ∀ row ∈ c.rows, 0 ≤ row.requestedRef

def Approves (req : GlobalRiskRequest) (e : Event) : Prop :=
  match e.label with
  | .act (.reserve ask _ _) _ => ask.req = req
  | _ => False

theorem Cluster.Fresh.owned (hc : c.Fresh S) : Owned S ⟨c, []⟩ where
  unique := hc.unique
  aged := hc.aged
  single id := by simp [owners, hc.leases]
  backed id hpos := by simp [owners, hc.leases] at hpos
  leased lease hlease := by simp [hc.leases] at hlease
  knows k hk := by cases hk
  chosen k hk := by cases hk

theorem Cluster.Fresh.accounted (hc : c.Fresh S) : Accounted S ⟨c, []⟩ where
  informed k hk := by cases hk
  rows := hc.nonneg
  leases lease hlease := by simp [hc.leases] at hlease
  entries r p hp := by simp [hc.entries r] at hp
  capped res hr := by simp [live, hc.leases] at hr

theorem exclusive_idle (c : Cluster) : Exclusive ⟨c, []⟩ where
  issued k hk := by cases hk
  single n := by simp
  held k hk := by cases hk

instance (req : GlobalRiskRequest) (e : Event) : Decidable (Approves req e) := by
  rcases e with ⟨_, _ | ⟨k, _⟩, _⟩
  · exact .isFalse not_false
  · cases k with
    | reserve ask id usage => exact inferInstanceAs (Decidable (_ = _))
    | _ => exact .isFalse not_false

theorem Accounted.approved (hac : Accounted S s) (hti : Timely ⟨s, a, t⟩)
    (hs : Step (act S) IsCall s a t) (ha : Approves req ⟨s, a, t⟩)
    (d : Dimension) (hd : 0 < S.cfg.limit d) :
    S.view.exposure d (d.slice req) + t.shared.usage d (d.slice req) ≤ S.cfg.limit d := by
  rcases hs.shared_cases with ⟨_, rfl, -⟩ | ⟨k, hk, rfl, hsh⟩
  · exact ha.elim
  cases k with
  | reserve ask h res =>
    have hre : ask.req = req := ha
    subst hre
    obtain ⟨hn, -, -, hf⟩ := hac.informed _ hk
    have hr := hf (hti h rfl) d hd
    have hl : t.shared.leases = s.shared.leases ++ [⟨ask.replica, res⟩] := by
      rw [hsh]
      rfl
    have hno : t.shared.now = s.shared.now := by
      rw [hsh]
      rfl
    rw [usage_reserved hl hno]
    split
    · linarith
    · linarith
  | _ => exact ha.elim

private def stampedId (_ : GlobalRiskRequest) (ts : Int) (_ : Nat) : String :=
  (if ts < 0 then "-" else "+") ++ Nat.repr ts.natAbs

private def tenUnits : Setting where
  decisionId := stampedId
  cfg := { (default : GlobalRiskConfig) with maxPortfolioExposureRef := 10 }
  view := default
  isOpen _ := false
  venueKilled _ := false
  strategyKilled _ := false

private def eightUnits (replica asset : String) : Ask where
  replica := replica
  req := ⟨.sniper, .paper, "w", "s", asset, "USDC", 8, .paper⟩
  ctx := ⟨false, true, true, 0⟩
  db := ⟨0, false, false, false, false, false⟩

private def idle : Cluster := ⟨0, none, 0, [], fun _ => ⟨false, 0, []⟩, []⟩

private def alone : List (Move Section) :=
  .call (.gate (eightUnits "a" "A")) :: replicate 10 (.go 0)

/-- Replica `a` judges its request, two minutes pass, replica `b` takes the lock over and
decides, and `a` goes on. -/
private def overrun : List (Move Section) :=
  .call (.gate (eightUnits "a" "A")) :: replicate 7 (.go 0) ++ [.call (.wait 120000), .go 0] ++
    .call (.gate (eightUnits "b" "B")) :: replicate 10 (.go 0) ++ replicate 3 (.go 1)

private theorem allowed_asks : (∀ m ∈ alone, m.Allowed IsCall) ∧ ∀ m ∈ overrun, m.Allowed IsCall := by
  constructor <;> simp [alone, overrun, Move.Allowed, IsCall.decide, IsCall.wait]

private theorem tellsTime_stampedId : tenUnits.TellsTime := by
  intro req req' ts ts' n n' h
  have h : (if ts < 0 then "-" else "+") ++ Nat.repr ts.natAbs =
    (if ts' < 0 then "-" else "+") ++ Nat.repr ts'.natAbs := h
  have hl := congrArg String.toList h
  have hn : ∀ {n n' : Nat}, Nat.toDigits 10 n = Nat.toDigits 10 n' → n = n' := by
    intro n n' he
    have hv := congrArg (Nat.ofDigitChars 10 · 0) he
    simpa only [Nat.ofDigitChars_ten_toDigits] using hv
  split at hl <;> split at hl <;> simp at hl
  · have := hn hl
    omega
  · have := hn hl
    omega

private theorem fresh_idle : idle.Fresh tenUnits := by
  constructor <;> simp [idle]

end SniperBot.GlobalRisk
