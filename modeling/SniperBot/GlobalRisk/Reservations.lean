import SniperBot.GlobalRisk.Lock

/-!
# Rows and leases

Every unexpired lease has its row in the shared table. Ids may clash between replicas, and the
primary key then refuses the second row. That a delayed delete takes away the row of another lease
is excluded by time: an id tells the millisecond of its decision, and a row outlives it by five
minutes.
-/

namespace SniperBot.GlobalRisk

open Lib.Runs Lib.Interleaving List Section Cluster

def Section.owns (id : String) : Section → Bool
  | .reserve _ _ res => res.reservationId = id
  | .deleteRow id' => id' = id
  | _ => false

def Section.choice : Section → Option (Hold × String)
  | .judge _ hold _ id | .date _ hold id _ => some (hold, id)
  | .create _ hold res => some (hold, res.reservationId)
  | _ => none

variable {S : Setting} {c : Cluster} {k k' : Section} {h : Hold} {id : String}

/-! ## What a section does to rows and leases -/

structure Quiet (S : Setting) (k : Section) (c : Cluster) : Prop where
  leases : (act S k c).1.leases = c.leases
  rows : (act S k c).1.rows = c.rows
  entries : ∀ r, ((act S k c).1.engines r).entries = (c.engines r).entries
  owns : ∀ id, k.owns id = false
  next : ∀ id, (continuing (act S k c).2).countP (Section.owns id) = 0

theorem quiet_of_act {c' : Cluster} {r : Section ⊕ Reply} (ha : act S k c = (c', r))
    (hl : c'.leases = c.leases) (hr : c'.rows = c.rows)
    (he : ∀ r, (c'.engines r).entries = (c.engines r).entries)
    (ho : ∀ id, k.owns id = false) (hnext : ∀ id, (continuing r).countP (owns id) = 0) :
    Quiet S k c := by
  obtain ⟨rfl, rfl⟩ := Prod.mk.inj ha.symm
  exact ⟨hl, hr, he, ho, hnext⟩

theorem entries_onEngine {g : Engine → Engine} {replica r : String}
    (hg : ∀ e, (g e).entries = e.entries) : ((c.onEngine replica g).engines r).entries = (c.engines r).entries := by
  by_cases hr : r = replica
  · subst hr
    simp [onEngine, hg]
  · simp [onEngine, hr]

theorem act_cases (S : Setting) (k : Section) (c : Cluster) : Quiet S k c ∨
    (∃ ask h, k = .purge ask h ∧ act S k c =
    ({ c with rows := c.rows.filter (c.now < ·.expiresAt) }, .inl (.select ask h))) ∨
    (∃ ask h active, k = .install ask h active) ∨
    (∃ ask h res, k = .create ask h res ∧ c.hasRow res.reservationId = false ∧
      (act S k c).1 = { c with rows := c.rows ++ [res] } ∧
      ((act S k c).2 = .inl (.reserve ask h res) ∨
        ∃ verdict, (act S k c).2 = .inl (.leave ask (some h) verdict))) ∨
    (∃ ask h res, k = .reserve ask h res) ∨
    (∃ r id lease, k = .release r id ∧ c.findLease r id = some lease ∧ act S k c =
      ({ c.onEntries r (·.remove id) with leases := c.leases.erase lease }, .inl (.deleteRow id))) ∨
    ∃ id, k = .deleteRow id := by
  rcases ha : act S k c with ⟨c', r⟩
  have hq := quiet_of_act ha
  cases k with
  | wait | acquire | select | judge | date | unlock =>
    simp only [act] at ha
    repeat' split at ha
    all_goals
      cases ha
      exact .inl (hq rfl rfl (fun _ => rfl) (fun _ => rfl) fun _ => rfl)
  | gate ask =>
    simp only [act] at ha
    split at ha <;> cases ha
    · exact .inl (hq rfl rfl (fun _ => rfl) (fun _ => rfl) fun _ => rfl)
    · exact .inl (hq rfl rfl (fun _ => entries_onEngine fun _ => rfl) (fun _ => rfl) fun _ => rfl)
  | number | refuse =>
    cases ha
    exact .inl (hq rfl rfl (fun _ => entries_onEngine fun _ => rfl) (fun _ => rfl) fun _ => rfl)
  | leave ask hold verdict =>
    cases ha
    refine .inl (hq rfl rfl (fun _ => entries_onEngine fun _ => rfl) (fun _ => rfl) ?_)
    cases hold <;> exact fun _ => rfl
  | purge ask h =>
    simp only [act] at ha
    split at ha <;> cases ha
    · exact .inl (hq rfl rfl (fun _ => rfl) (fun _ => rfl) fun _ => rfl)
    · exact .inr (.inl ⟨ask, h, rfl, rfl⟩)
  | install ask h active => exact .inr (.inr (.inl ⟨ask, h, active, rfl⟩))
  | create ask h res =>
    simp only [act] at ha
    split at ha
    · cases ha
      exact .inl (hq rfl rfl (fun _ => rfl) (fun _ => rfl) fun _ => rfl)
    · next hr =>
      have hn : c.hasRow res.reservationId = false := by
        simp only [Bool.or_eq_true, not_or, Bool.not_eq_true] at hr
        exact hr.1
      refine .inr (.inr (.inr (.inl ⟨ask, h, res, rfl, hn, ?_⟩)))
      split at ha <;> cases ha
      · exact ⟨rfl, .inr ⟨_, rfl⟩⟩
      · exact ⟨rfl, .inl rfl⟩
  | reserve ask h res => exact .inr (.inr (.inr (.inr (.inl ⟨ask, h, res, rfl⟩))))
  | release r id =>
    simp only [act] at ha
    split at ha <;> cases ha
    · next lease hf =>
      exact .inr (.inr (.inr (.inr (.inr (.inl ⟨r, id, lease, rfl, hf, rfl⟩)))))
    · exact .inl (hq rfl rfl (fun _ => rfl) (fun _ => rfl) fun _ => rfl)
  | deleteRow id => exact .inr (.inr (.inr (.inr (.inr (.inr ⟨id, rfl⟩)))))

/-! ## Who a row belongs to -/

/-- The id is that of a decision whose five minutes are over by `t`. -/
def Aged (S : Setting) (id : String) (t : Int) : Prop :=
  ∃ req ts n, id = S.decisionId req ts n ∧ ts + reservationMillis ≤ t

theorem Aged.mono {t t' : Int} (h : Aged S id t) (ht : t ≤ t') : Aged S id t' := by
  obtain ⟨req, ts, n, hi, hts⟩ := h
  exact ⟨req, ts, n, hi, by omega⟩

def Setting.TellsTime (S : Setting) : Prop :=
  ∀ req req' ts ts' n n', S.decisionId req ts n = S.decisionId req' ts' n' → ts = ts'

theorem Setting.TellsTime.not_aged (hi : S.TellsTime) {req : GlobalRiskRequest} {ts : Int}
    {n : Nat} : ¬ Aged S (S.decisionId req ts n) ts := by
  intro ⟨req', ts', n', he, hts⟩
  have ht' := hi _ _ _ _ _ _ he
  simp only [reservationMillis] at hts
  omega

def owners (s : State Cluster Section) (id : String) : Nat :=
  s.shared.leases.countP (·.res.reservationId = id) + s.running.countP (owns id)

/-- What a call knows about the id and the dates of the row it works on. -/
def Knows (S : Setting) (c : Cluster) : Section → Prop
  | .judge _ _ ts id => ts ≤ c.now ∧ ∃ req n, id = S.decisionId req ts n
  | .date _ _ id _ => ∃ req ts n, id = S.decisionId req ts n ∧ ts ≤ c.now
  | .create _ _ res => Aged S res.reservationId res.expiresAt
  | .reserve _ _ res => c.now < res.expiresAt → res ∈ c.rows
  | _ => True

structure Owned (S : Setting) (s : State Cluster Section) : Prop where
  unique : (s.shared.rows.map RiskEntryReservation.reservationId).Nodup
  aged : ∀ row ∈ s.shared.rows, Aged S row.reservationId row.expiresAt
  single : ∀ id, owners s id ≤ 1
  backed : ∀ id, 0 < owners s id → s.shared.hasRow id = true ∨ Aged S id s.shared.now
  leased : ∀ lease ∈ s.shared.leases, s.shared.now < lease.res.expiresAt → lease.res ∈ s.shared.rows
  knows : ∀ k ∈ s.running, Knows S s.shared k
  chosen : ∀ k ∈ s.running, ∀ h id, k.choice = some (h, id) → s.shared.now < h.leaseUntil →
    0 < owners s id → s.shared.hasRow id = true

theorem hasRow_iff : c.hasRow id = true ↔ ∃ row ∈ c.rows, row.reservationId = id := by
  simp [hasRow]

variable {s t : State Cluster Section} {a : Label Section Reply}

theorem owners_step (hs : Step (act S) IsCall s a t) (id : String) :
    (∃ k, a = .call k ∧ t.shared = s.shared ∧ owners t id = owners s id) ∨
    ∃ k ∈ s.running, a = .act k (act S k s.shared).2 ∧ t.shared = (act S k s.shared).1 ∧
    owners t id + (k.owns id).toNat + s.shared.leases.countP (·.res.reservationId = id) =
      owners s id + (continuing (act S k s.shared).2).countP (owns id) +
        (act S k s.shared).1.leases.countP (·.res.reservationId = id) := by
  unfold owners
  rcases hs.countP_cases (owns id) with
    ⟨k, rfl, hca, hsh, hc⟩ | ⟨k, hk, rfl, hsh, hc⟩
  · have hn : k.owns id = false := by cases hca <;> rfl
    rw [hn] at hc
    simp only [Bool.toNat_false] at hc
    exact .inl ⟨k, rfl, hsh, by rw [hsh]; omega⟩
  · exact .inr ⟨k, hk, rfl, hsh, by rw [hsh]; omega⟩

theorem mem_of_findLease {r : String} {lease : Lease} (h : c.findLease r id = some lease) :
    lease ∈ c.leases ∧ lease.replica = r ∧ lease.res.reservationId = id := by
  refine ⟨mem_of_find?_eq_some h, ?_⟩
  have hp := find?_some h
  simpa using hp

theorem owners_quiet (hs : Step (act S) IsCall s (.act k (act S k s.shared).2) t)
    (hq : Quiet S k s.shared) : owners t id = owners s id := by
  rcases owners_step hs id with ⟨_, ha, -⟩ | ⟨k', -, ha, -, he⟩
  · cases ha
  · obtain ⟨rfl, -⟩ := Label.act.inj ha
    rw [hq.owns, hq.next, hq.leases, Bool.toNat_false] at he
    omega

inductive Moves (S : Setting) (s : State Cluster Section) (a : Label Section Reply)
    (t : State Cluster Section) : Prop
  | still (hrows : t.shared.rows = s.shared.rows) (hleases : t.shared.leases = s.shared.leases)
      (howners : ∀ id, owners t id = owners s id)
  | purged {ask : Ask} {h : Hold} {r : Section ⊕ Reply} (hk : .purge ask h ∈ s.running)
      (ha : a = .act (.purge ask h) r)
      (hshared : t.shared =
        { s.shared with rows := s.shared.rows.filter (s.shared.now < ·.expiresAt) })
      (howners : ∀ id, owners t id = owners s id)
  | created {ask : Ask} {h : Hold} {res : RiskEntryReservation} {r : Section ⊕ Reply}
      (hk : .create ask h res ∈ s.running) (ha : a = .act (.create ask h res) r)
      (hno : s.shared.hasRow res.reservationId = false)
      (hshared : t.shared = { s.shared with rows := s.shared.rows ++ [res] })
      (howners : ∀ id, owners t id ≤ owners s id + if res.reservationId = id then 1 else 0)
  | reserved {ask : Ask} {h : Hold} {res : RiskEntryReservation} {r : Section ⊕ Reply}
      (hk : .reserve ask h res ∈ s.running) (ha : a = .act (.reserve ask h res) r)
      (hrows : t.shared.rows = s.shared.rows) (hnow : t.shared.now = s.shared.now)
      (hleases : t.shared.leases = s.shared.leases ++ [⟨ask.replica, res⟩])
      (howners : ∀ id, owners t id = owners s id)
  | released {lease : Lease} (hlease : lease ∈ s.shared.leases)
      (hrows : t.shared.rows = s.shared.rows) (hnow : t.shared.now = s.shared.now)
      (hleases : t.shared.leases = s.shared.leases.erase lease)
      (howners : ∀ id, owners t id = owners s id)
  | deleted {id₀ : String} {r : Section ⊕ Reply} (hk : .deleteRow id₀ ∈ s.running)
      (ha : a = .act (.deleteRow id₀) r)
      (hshared : t.shared =
        { s.shared with rows := s.shared.rows.filter (·.reservationId ≠ id₀) })
      (howners : ∀ id, owners t id + (if id₀ = id then 1 else 0) = owners s id)

theorem moves_of_step (hs : Step (act S) IsCall s a t) : Moves S s a t := by
  rcases hs.shared_cases with ⟨k, rfl, hsh⟩ | ⟨k, hk, rfl, hsh⟩
  · refine .still (by rw [hsh]) (by rw [hsh]) fun id => ?_
    rcases owners_step hs id with ⟨_, -, -, he⟩ | ⟨_, -, ha, -⟩
    · exact he
    · cases ha
  have ho : ∀ id, owners t id + (k.owns id).toNat +
      s.shared.leases.countP (·.res.reservationId = id) =
        owners s id + (continuing (act S k s.shared).2).countP (owns id) +
          (act S k s.shared).1.leases.countP (·.res.reservationId = id) := by
    intro id
    rcases owners_step hs id with ⟨_, ha, -⟩ | ⟨k', -, ha, -, he⟩
    · cases ha
    · obtain ⟨rfl, -⟩ := Label.act.inj ha
      exact he
  rcases act_cases S k s.shared with hq | ⟨ask, h, rfl, hac⟩ | ⟨ask, h, active, rfl⟩ |
    ⟨ask, h, res, rfl, hn, hst, hnext⟩ | ⟨ask, h, res, rfl⟩ |
    ⟨r, id₀, lease, rfl, hf, hac⟩ | ⟨id₀, rfl⟩
  · exact .still (by rw [hsh, hq.rows]) (by rw [hsh, hq.leases]) fun id =>
      owners_quiet hs hq
  · refine .purged hk rfl (by rw [hsh, hac]) fun id => ?_
    have he := ho id
    rw [hac] at he
    simpa [owns, continuing] using he
  · refine .still (by rw [hsh]; rfl) (by rw [hsh]; rfl) fun id => ?_
    have he := ho id
    simpa [act, owns, continuing, onEntries, onEngine] using he
  · refine .created hk rfl hn (by rw [hsh, hst]) fun id => ?_
    have he := ho id
    rw [hst] at he
    rcases hnext with hnext | ⟨verdict, hnext⟩
    · rw [hnext] at he
      simp only [owns, continuing, countP_singleton, decide_eq_true_eq, Bool.toNat_false] at he
      split at he <;> split <;> simp_all
    · rw [hnext] at he
      simp only [owns, continuing, countP_singleton, Bool.toNat_false,
        Bool.false_eq_true, if_false] at he
      omega
  · refine .reserved hk rfl (by rw [hsh]; rfl) (by rw [hsh]; rfl) (by rw [hsh]; rfl) fun id => ?_
    have he := ho id
    simp only [act, owns, continuing, countP_singleton] at he
    by_cases hi : res.reservationId = id
    · simp [hi] at he
      omega
    · simp [hi] at he
      omega
  · obtain ⟨hm, -, hid₀⟩ := mem_of_findLease hf
    refine .released hm (by rw [hsh, hac]; rfl) (by rw [hsh, hac]; rfl)
      (by rw [hsh, hac]) fun id => ?_
    have he := ho id
    rw [hac] at he
    have hc := (perm_cons_erase hm).countP_eq fun l => l.res.reservationId = id
    simp only [owns, continuing, countP_singleton, Bool.toNat_false] at he
    by_cases hi : id₀ = id
    · rw [countP_cons_of_pos (by simp [hid₀, hi])] at hc
      simp only [hi, decide_true, if_true] at he
      omega
    · rw [countP_cons_of_neg (by simp [hid₀, hi])] at hc
      simp only [hi, decide_false, Bool.false_eq_true, if_false] at he
      omega
  · refine .deleted hk rfl (by rw [hsh]; rfl) fun id => ?_
    have he := ho id
    by_cases hi : id₀ = id
    · simp [act, owns, continuing, hi] at he
      simp [hi]
      omega
    · simp [act, owns, continuing, hi] at he
      simp [hi]
      omega

theorem now_le_step (hs : Step (act S) IsCall s a t) : s.shared.now ≤ t.shared.now := by
  rcases hs.shared_cases with ⟨k, -, hsh⟩ | ⟨k, -, -, hsh⟩
  · rw [hsh]
  · rw [hsh]
    exact now_le_act S k s.shared

/-! ## Rows stay with their owners -/

theorem choice_hold (hk : k.choice = some (h, id)) : k.hold = some h := by
  cases k <;> simp_all [choice, hold]

theorem Owned.unique_step (ho : Owned S s) (hs : Step (act S) IsCall s a t) :
    (t.shared.rows.map RiskEntryReservation.reservationId).Nodup := by
  cases moves_of_step hs with
  | still hr | reserved _ _ hr | released _ hr =>
    rw [hr]
    exact ho.unique
  | purged _ _ hsh | deleted _ _ hsh =>
    rw [hsh]
    exact (filter_sublist.map _).nodup ho.unique
  | @created ask h res _ _ _ hn hsh =>
    rw [hsh]
    show ((s.shared.rows ++ [res]).map _).Nodup
    rw [map_append, nodup_append]
    refine ⟨ho.unique, by simp, ?_⟩
    intro id hi id' hi' he
    obtain ⟨row, hro, rfl⟩ := mem_map.mp hi
    have hsa : row.reservationId = res.reservationId := by simpa [he] using hi'
    have hr' := hasRow_iff.mpr ⟨row, hro, hsa⟩
    rw [hn] at hr'
    cases hr'

theorem Owned.aged_step (ho : Owned S s) (hs : Step (act S) IsCall s a t) :
    ∀ row ∈ t.shared.rows, Aged S row.reservationId row.expiresAt := by
  intro row hro
  cases moves_of_step hs with
  | still hr | reserved _ _ hr | released _ hr =>
    rw [hr] at hro
    exact ho.aged row hro
  | purged _ _ hsh | deleted _ _ hsh =>
    rw [hsh] at hro
    exact ho.aged row (mem_of_mem_filter hro)
  | created hk _ _ hsh =>
    rw [hsh] at hro
    rcases mem_append.mp hro with hro | hro
    · exact ho.aged row hro
    · obtain rfl := mem_singleton.mp hro
      exact ho.knows _ hk

theorem Owned.unowned (ho : Owned S s) {ask : Ask} {res : RiskEntryReservation}
    (hk : .create ask h res ∈ s.running) (hti : s.shared.now < h.leaseUntil)
    (hn : s.shared.hasRow res.reservationId = false) : owners s res.reservationId = 0 := by
  by_contra hpos
  have hr := ho.chosen _ hk h _ rfl hti (Nat.pos_of_ne_zero hpos)
  rw [hn] at hr
  cases hr

theorem Owned.single_step (ho : Owned S s) (hti : Timely ⟨s, a, t⟩)
    (hs : Step (act S) IsCall s a t) (id : String) : owners t id ≤ 1 := by
  have hbe := ho.single id
  cases moves_of_step hs with
  | still _ _ how | purged _ _ _ how | reserved _ _ _ _ _ how
  | released _ _ _ _ how =>
    rw [how id]
    exact hbe
  | deleted _ _ _ how =>
    have := how id
    omega
  | created hk ha hn _ how =>
    subst ha
    have hle := how id
    split at hle
    · next he =>
      subst he
      have := ho.unowned hk (hti _ rfl) hn
      omega
    · omega

theorem Owned.backed_step (ho : Owned S s) (hs : Step (act S) IsCall s a t) (id : String)
    (hpos : 0 < owners t id) : t.shared.hasRow id = true ∨ Aged S id t.shared.now := by
  have hn := now_le_step hs
  have hbe : 0 < owners s id → s.shared.hasRow id = true ∨ Aged S id t.shared.now :=
    fun h => (ho.backed id h).imp_right (·.mono hn)
  cases moves_of_step hs with
  | still hr _ how | reserved _ _ hr _ _ how | released _ hr _ _ how =>
    rw [how id] at hpos
    refine (hbe hpos).imp_left fun hro => ?_
    rwa [hasRow, hr]
  | purged _ _ hsh how =>
    rw [how id] at hpos
    rcases hbe hpos with hro | hag
    · obtain ⟨row, hm, hi⟩ := hasRow_iff.mp hro
      by_cases hl : s.shared.now < row.expiresAt
      · left
        rw [hsh, hasRow_iff]
        exact ⟨row, mem_filter.mpr ⟨hm, by simpa using hl⟩, hi⟩
      · right
        rw [← hi]
        exact (ho.aged row hm).mono (by omega)
    · exact .inr hag
  | @created ask h res _ hk ha hno hsh how =>
    have hg : ∀ id, s.shared.hasRow id = true → t.shared.hasRow id = true := by
      intro id hro
      obtain ⟨row, hm, hi⟩ := hasRow_iff.mp hro
      rw [hsh, hasRow_iff]
      exact ⟨row, mem_append_left _ hm, hi⟩
    by_cases hi : res.reservationId = id
    · left
      rw [hsh, hasRow_iff]
      exact ⟨res, mem_append_right _ (mem_singleton_self _), hi⟩
    · have hle := how id
      rw [if_neg hi] at hle
      exact (hbe (by omega)).imp_left (hg id)
  | @deleted id₀ _ _ _ hsh how =>
    have he := how id
    have hsi := ho.single id
    by_cases hi : id₀ = id
    · rw [if_pos hi] at he
      omega
    · rw [if_neg hi] at he
      refine (hbe (by omega)).imp_left fun hro => ?_
      obtain ⟨row, hm, hri⟩ := hasRow_iff.mp hro
      rw [hsh, hasRow_iff]
      refine ⟨row, mem_filter.mpr ⟨hm, ?_⟩, hri⟩
      simpa [hri] using Ne.symm hi

theorem owners_of_lease {lease : Lease} (hl : lease ∈ s.shared.leases)
    (hk : k ∈ s.running) (ho : k.owns lease.res.reservationId = true) :
    2 ≤ owners s lease.res.reservationId := by
  have h1 : 0 < s.shared.leases.countP (·.res.reservationId = lease.res.reservationId) :=
    countP_pos_iff.mpr ⟨lease, hl, by simp⟩
  have h2 : 0 < s.running.countP (owns lease.res.reservationId) := countP_pos_iff.mpr ⟨k, hk, ho⟩
  unfold owners
  omega

theorem owners_of_calls (hk : k ∈ s.running) (hk' : k' ∈ s.running.erase k)
    (ho : k.owns id = true) (ho' : k'.owns id = true) : 2 ≤ owners s id := by
  have hpe := (perm_cons_erase hk).countP_eq (owns id)
  have hot : 0 < (s.running.erase k).countP (owns id) := countP_pos_iff.mpr ⟨k', hk', ho'⟩
  rw [countP_cons_of_pos ho] at hpe
  unfold owners
  omega

theorem Owned.leased_step (ho : Owned S s) (hs : Step (act S) IsCall s a t) :
    ∀ lease ∈ t.shared.leases, t.shared.now < lease.res.expiresAt → lease.res ∈ t.shared.rows := by
  intro lease hl hli
  have hno := now_le_step hs
  cases moves_of_step hs with
  | still hr hlea =>
    rw [hlea] at hl
    rw [hr]
    exact ho.leased lease hl (by omega)
  | purged _ _ hsh =>
    rw [hsh] at hl hli ⊢
    exact mem_filter.mpr ⟨ho.leased lease hl hli, by simpa using hli⟩
  | created _ _ _ hsh =>
    rw [hsh] at hl hli ⊢
    exact mem_append_left _ (ho.leased lease hl hli)
  | reserved hk _ hr _ hlea =>
    rw [hlea] at hl
    rw [hr]
    rcases mem_append.mp hl with hl | hl
    · exact ho.leased lease hl (by omega)
    · obtain rfl := mem_singleton.mp hl
      exact ho.knows _ hk (hno.trans_lt hli)
  | released _ hr _ hlea =>
    rw [hlea] at hl
    rw [hr]
    exact ho.leased lease (mem_of_mem_erase hl) (by omega)
  | @deleted id₀ _ hk _ hsh =>
    rw [hsh] at hl hli ⊢
    refine mem_filter.mpr ⟨ho.leased lease hl hli, ?_⟩
    have hn : lease.res.reservationId ≠ id₀ := by
      intro he
      have htw := owners_of_lease hl hk (by simp [owns, he])
      have := ho.single lease.res.reservationId
      omega
    simpa using hn

theorem Owned.knows_other (ho : Owned S s) (hs : Step (act S) IsCall s a t) (hk' : k' ∈ s.running)
    (hot : ∀ k r, a = .act k r → k' ∈ s.running.erase k) : Knows S t.shared k' := by
  have hn := now_le_step hs
  have hbe := ho.knows k' hk'
  cases k' with
  | judge ask h ts id => exact ⟨hbe.1.trans hn, hbe.2⟩
  | date ask h id ref =>
    obtain ⟨req, ts, n, hi, hts⟩ := hbe
    exact ⟨req, ts, n, hi, hts.trans hn⟩
  | create ask h res => exact hbe
  | reserve ask h res =>
    intro hl
    have hm : res ∈ s.shared.rows := hbe (by omega)
    cases moves_of_step hs with
    | still hr | reserved _ _ hr | released _ hr =>
      rw [hr]
      exact hm
    | purged _ _ hsh =>
      rw [hsh] at hl ⊢
      exact mem_filter.mpr ⟨hm, by simpa using hl⟩
    | created _ _ _ hsh =>
      rw [hsh]
      exact mem_append_left _ hm
    | @deleted id₀ _ hk ha hsh =>
      rw [hsh]
      refine mem_filter.mpr ⟨hm, ?_⟩
      have hne : res.reservationId ≠ id₀ := by
        intro he
        have how : owns id₀ (.deleteRow id₀) = true := by simp [owns]
        have htw := owners_of_calls hk (hot _ _ ha) how (by simp [owns, he])
        have := ho.single id₀
        omega
      simpa using hne
  | _ => trivial

theorem knows_next (hk : Knows S c k) (hnext : (act S k c).2 = .inl k') :
    Knows S (act S k c).1 k' := by
  cases k with
  | number ask h =>
    cases hnext
    exact ⟨le_rfl, ask.req, _, rfl⟩
  | judge ask h ts id =>
    obtain ⟨hts, req, n, hi⟩ := hk
    simp only [act] at hnext ⊢
    split at hnext
    · cases hnext
      exact ⟨req, ts, n, hi, hts⟩
    · cases hnext
      trivial
  | date ask h id ref =>
    obtain ⟨req, ts, n, hi, hts⟩ := hk
    cases hnext
    refine ⟨req, ts, n, hi, ?_⟩
    show ts + reservationMillis ≤ c.now + reservationMillis
    omega
  | create ask h res =>
    simp only [act] at hnext ⊢
    split at hnext
    · cases hnext
      trivial
    · next hr =>
      split at hnext <;> cases hnext
      · trivial
      · next hl =>
        intro _
        rw [if_neg hr, if_neg hl]
        exact mem_append_right _ (mem_singleton_self _)
  | gate | acquire | purge | select | release | leave =>
    simp only [act] at hnext
    repeat' split at hnext
    all_goals
      cases hnext
      try trivial
  | install | reserve | refuse =>
    cases hnext
    trivial
  | wait | unlock | deleteRow => cases hnext

theorem Owned.knows_step (ho : Owned S s) (hs : Step (act S) IsCall s a t) :
    ∀ k ∈ t.running, Knows S t.shared k := by
  intro k' hk'
  rcases hs.mem_running hk' with
    ⟨k, rfl, -, hc | hm⟩ | ⟨k, hk, rfl, hsh, hm | hnext⟩
  · cases hc <;> trivial
  · exact ho.knows_other hs hm (by simp)
  · refine ho.knows_other hs (mem_of_mem_erase hm) fun k₁ r ha => ?_
    obtain ⟨rfl, -⟩ := Label.act.inj ha
    exact hm
  · rw [hsh]
    exact knows_next (ho.knows k hk) hnext

theorem choice_of_act (hnext : (act S k c).2 = .inl k') (hc : k'.choice = some (h, id)) :
    Quiet S k c ∧ (k.choice = some (h, id) ∨ ∃ ask, k = .number ask h ∧
      id = S.decisionId ask.req c.now (c.engines ask.replica).seq) := by
  have hq : Quiet S k c := by
    rcases act_cases S k c with hq | ⟨ask, h, rfl, ha⟩ | ⟨ask, h, active, rfl⟩ |
      ⟨ask, h, res, rfl, -, -, hr | ⟨verdict, hr⟩⟩ | ⟨ask, h, res, rfl⟩ |
      ⟨r, id₀, lease, rfl, -, ha⟩ | ⟨id₀, rfl⟩
    · exact hq
    · rw [ha] at hnext
      cases hnext
      cases hc
    · cases hnext
      cases hc
    · rw [hr] at hnext
      cases hnext
      cases hc
    · rw [hr] at hnext
      cases hnext
      cases hc
    · cases hnext
      cases hc
    · rw [ha] at hnext
      cases hnext
      cases hc
    · cases hnext
  refine ⟨hq, ?_⟩
  cases k with
  | number ask h' =>
    cases hnext
    obtain ⟨rfl, rfl⟩ := Prod.mk.inj (Option.some.inj hc)
    exact .inr ⟨ask, rfl, rfl⟩
  | judge ask h' ts id' =>
    simp only [act] at hnext
    split at hnext <;> cases hnext
    · exact .inl hc
    · cases hc
  | date ask h' id' ref =>
    cases hnext
    exact .inl hc
  | gate | acquire | purge | select | create | release | leave =>
    simp only [act] at hnext
    repeat' split at hnext
    all_goals
      cases hnext
      try cases hc
  | install | reserve | refuse =>
    cases hnext
    cases hc
  | wait | unlock | deleteRow => cases hnext

theorem Owned.chosen_other (ho : Owned S s) (hex : Exclusive s) (hti : Timely ⟨s, a, t⟩)
    (hs : Step (act S) IsCall s a t) (hk' : k' ∈ s.running)
    (hot : ∀ k r, a = .act k r → k' ∈ s.running.erase k) (hc : k'.choice = some (h, id))
    (htim : t.shared.now < h.leaseUntil) (hpos : 0 < owners t id) :
    t.shared.hasRow id = true := by
  have hn := now_le_step hs
  have hbe : 0 < owners s id → s.shared.hasRow id = true := ho.chosen k' hk' h id hc (by omega)
  -- a section that purges or creates has the lock, so the lease of this call has lapsed
  have hl : ∀ k r h₁, a = .act k r → k ∈ s.running → k.critical = some h₁ → False := by
    intro k r h₁ ha hk hcr
    subst ha
    have htime₁ := hti h₁ hcr
    exact hex.lapsed hk (hot _ _ rfl) (hold_of_critical hcr) (choice_hold hc) htime₁ (by omega)
  cases moves_of_step hs with
  | still hr _ how | reserved _ _ hr _ _ how | released _ hr _ _ how =>
    rw [how id] at hpos
    rw [hasRow, hr]
    exact hbe hpos
  | purged hk ha | created hk ha => exact (hl _ _ _ ha hk rfl).elim
  | @deleted id₀ _ _ _ hsh how =>
    have he := how id
    have hsi := ho.single id
    by_cases hi : id₀ = id
    · rw [if_pos hi] at he
      omega
    · rw [if_neg hi] at he
      obtain ⟨row, hm, hri⟩ := hasRow_iff.mp (hbe (by omega))
      rw [hsh, hasRow_iff]
      refine ⟨row, mem_filter.mpr ⟨hm, ?_⟩, hri⟩
      simpa [hri] using Ne.symm hi

theorem Owned.chosen_step (hi : S.TellsTime) (ho : Owned S s) (hex : Exclusive s)
    (htim : Timely ⟨s, a, t⟩) (hs : Step (act S) IsCall s a t) :
    ∀ k ∈ t.running, ∀ h id, k.choice = some (h, id) → t.shared.now < h.leaseUntil →
    0 < owners t id → t.shared.hasRow id = true := by
  intro k' hk' h id hc hti hpos
  rcases hs.mem_running hk' with
    ⟨k, rfl, -, hca | hm⟩ | ⟨k, hk, rfl, hsh, hm | hnext⟩
  · cases hca <;> cases hc
  · exact ho.chosen_other hex htim hs hm (by simp) hc hti hpos
  · refine ho.chosen_other hex htim hs (mem_of_mem_erase hm) (fun k₁ r ha => ?_) hc hti hpos
    obtain ⟨rfl, -⟩ := Label.act.inj ha
    exact hm
  · obtain ⟨hq, hke⟩ := choice_of_act hnext hc
    rw [owners_quiet hs hq] at hpos
    rw [hasRow, hsh, hq.rows]
    have hn := now_le_step hs
    rcases hke with hsa | ⟨ask, rfl, rfl⟩
    · exact ho.chosen k hk h id hsa (by omega) hpos
    · rcases ho.backed _ hpos with hr | hag
      · exact hr
      · exact absurd hag hi.not_aged

theorem Owned.step (hi : S.TellsTime) (ho : Owned S s) (hex : Exclusive s)
    (hti : Timely ⟨s, a, t⟩) (hs : Step (act S) IsCall s a t) : Owned S t where
  unique := ho.unique_step hs
  aged := ho.aged_step hs
  single := ho.single_step hti hs
  backed := ho.backed_step hs
  leased := ho.leased_step hs
  knows := ho.knows_step hs
  chosen := ho.chosen_step hi hex hti hs

end SniperBot.GlobalRisk
