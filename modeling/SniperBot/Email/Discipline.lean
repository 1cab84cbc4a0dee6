import SniperBot.Email.Deliveries

/-!
# How often and when an email is attempted

An email is accepted once at most, as long as no reaper takes a row out of the hands of a
dispatcher. The bounds on the attempts and on the time between them hold as long as rows are
claimed with copies that are up to date.
-/

namespace SniperBot.Email

open Lib.LeaseTable Lib.Runs Lib.Interleaving Multiset Dispatch

abbrev Trace := List (Entry (State Outbox Dispatch) (Label Dispatch Reply))

def runsSection (p : Dispatch → Dispatch ⊕ Reply → Bool)
    (e : Entry (State Outbox Dispatch) (Label Dispatch Reply)) : Bool :=
  match e.label with
  | .call _ => false
  | .act k r => p k r

def attempts (id : String) (tr : Trace) : Nat := tr.countP (runsSection (begins id))

def sends (id : String) (tr : Trace) : Nat := tr.countP (runsSection fun k _ => sendsNext id k)

def acceptances (id : String) (tr : Trace) : Nat := tr.countP (runsSection (accepts id))

variable (e : Entry (State Outbox Dispatch) (Label Dispatch Reply))

/-- A reaper does not find a row in delivery that was claimed too long ago. -/
def Prompt : Prop :=
  match e.label with
  | .act (.reap staleAfter) _ => ∀ k ∈ e.pre.running, ∀ row ∈ k.current,
    ∀ r ∈ e.pre.shared.rows row.id, r.status = .sending →
      e.pre.shared.clock < r.nextAttemptAt + secs staleAfter
  | _ => True

/-- A row that is claimed has the attempts of the dispatcher's copy. -/
def ClaimsUpToDate : Prop :=
  match e.label with
  | .act k _ => UpToDate e.pre.shared k
  | .call _ => True

instance : Decidable (Prompt e) := by
  unfold Prompt
  split <;> infer_instance

instance (x : Outbox) : (k : Dispatch) → Decidable (UpToDate x k)
  | .claim .. => inferInstanceAs (Decidable (∀ r, _ = some r → _))
  | .fetch .. | .send .. | .mark .. | .reap _ | .enqueue .. | .tick _ => .isTrue trivial

instance : (e : Entry (State Outbox Dispatch) (Label Dispatch Reply)) → Decidable (ClaimsUpToDate e)
  | ⟨pre, .act k _, _⟩ => inferInstanceAs (Decidable (UpToDate pre.shared k))
  | ⟨_, .call _, _⟩ => .isTrue trivial

theorem countP_snoc (p : Entry (State Outbox Dispatch) (Label Dispatch Reply) → Bool) (tr : Trace)
    (e : Entry (State Outbox Dispatch) (Label Dispatch Reply)) :
    (tr ++ [e]).countP p = tr.countP p + (p e).toNat := by
  rw [List.countP_append, List.countP_singleton]
  cases p e <;> rfl

variable {id : String} {s t : State Outbox Dispatch} {a : Label Dispatch Reply} {tr : Trace}

/-! ## Counting -/

def TrackedIn (id : String) (tr : Trace) (s : State Outbox Dispatch) : Prop :=
  Tracked (s.shared.rows id) (attempts id tr) (acceptances id tr) (held id s.running)
    (accepted id s.running)

variable {k : Dispatch} {time : Int} {x : Outbox} {r : OutboxRecord} {row : OutboxRow}

theorem heldBy_of_entry (h : k.Entry) : heldBy id k = none := by
  cases k with
  | claim | send | mark => cases h
  | _ => rfl

theorem acceptedBy_of_entry (h : k.Entry) : acceptedBy id k = false := by
  cases k with
  | claim | send | mark => cases h
  | _ => rfl

theorem TrackedIn.nothingStale {r : Dispatch ⊕ Reply} (h : TrackedIn id tr s)
    (hpr : Prompt ⟨s, .act k r, t⟩) : NothingStale id s.shared k := by
  rintro staleAfter rfl record hr ⟨hse, hold⟩
  unfold TrackedIn at h
  rw [hr] at h
  obtain ⟨-, hst⟩ := h
  rw [hse] at hst
  have hpos : 0 < held id s.running := by
    omega
  obtain ⟨k, hk, hh⟩ := exists_of_population_pos hpos
  obtain ⟨row, hro⟩ := Option.isSome_iff_exists.mp hh
  obtain ⟨hc, hi⟩ := Option.filter_eq_some_iff.mp hro
  have hi : row.id = id := of_decide_eq_true hi
  have hl := hpr k (mem_coe.mp hk) row hc record (by rw [hi]; exact hr) hse
  have hl : s.shared.clock < record.nextAttemptAt + secs staleAfter := hl
  omega

theorem TrackedIn.step (h : TrackedIn id tr s) (hpr : Prompt ⟨s, a, t⟩)
    (hs : Step act Dispatch.Entry s a t) : TrackedIn id (tr ++ [⟨s, a, t⟩]) t := by
  have htr := h
  unfold TrackedIn attempts acceptances at h ⊢
  rw [countP_snoc, countP_snoc]
  rcases hs.multiset_cases with
    ⟨k, rfl, hk, hsh, hr⟩ | ⟨k, rest, rfl, hsh, hr, hr'⟩
  · rw [hsh, hr, held_cons, accepted_cons, heldBy_of_entry hk, acceptedBy_of_entry hk]
    exact h
  · have hst := htr.nothingStale hpr
    rw [hr] at h
    rw [hsh, hr']
    exact (act_does id k s.shared).tracked hst h

theorem attempts_eq_step (h : attempts id tr = sends id tr + sending id s.running)
    (hs : Step act Dispatch.Entry s a t) :
    attempts id (tr ++ [⟨s, a, t⟩]) = sends id (tr ++ [⟨s, a, t⟩]) + sending id t.running := by
  unfold attempts sends sending at h ⊢
  rw [countP_snoc, countP_snoc]
  rcases hs.multiset_cases with
    ⟨k, rfl, hk, -, hr⟩ | ⟨k, rest, rfl, -, hr, hr'⟩
  · have hn : sendsNext id k = false := by
      cases k with
      | claim | send | mark => cases hk
      | _ => rfl
    rw [hr, population_cons, hn]
    exact h
  · rw [hr, population_cons] at h
    rw [hr', population_continuing, h]
    show _ + (begins id k (k.act s.shared).2).toNat = _ + (sendsNext id k).toNat + _
    have hd := act_does id k s.shared
    generalize (k.act s.shared).2 = r at hd ⊢
    generalize (k.act s.shared).1 = y at hd
    cases hd with
    | kept _ _ hse hnext hbe =>
      rw [hnext, hbe]
      omega
    | inserted hk | reaped hk =>
      subst hk
      rfl
    | @claimed row copies report _ hk hi =>
      subst hk
      have hbe : begins id (.claim row copies report) (.inl (.send row copies report)) = true :=
        decide_eq_true hi
      have hnext : sendsNext id (.send row copies report) = true := decide_eq_true hi
      rw [hbe, Sum.elim_inl, hnext]
      rfl
    | @sent row copies report answer hk hi =>
      subst hk
      have hse : sendsNext id (.send row copies report) = true := decide_eq_true hi
      rw [hse]
      show _ + 0 = _ + 1 + (_ + 0)
      rw [Bool.toNat_true]
      omega
    | marked hk =>
      subst hk
      rw [goOn_sendsNext]
      rfl

/-! ## Copies -/

/-- What holds of a row and of its copies as long as claims are up to date. -/
structure Current (id : String) (s : State Outbox Dispatch) : Prop where
  room : RoomOk (s.shared.rows id)
  copies : ∀ k ∈ s.running, ∀ c ∈ k.waiting, c.id = id → CopyOk (s.shared.rows id) s.shared.clock c
  held : ∀ k ∈ s.running, ∀ c, heldBy id k = some c → HeldOk (s.shared.rows id) c

theorem Current.step (h : Current id s) (htr : TrackedIn id tr s)
    (hpr : Prompt ⟨s, a, t⟩) (hda : ClaimsUpToDate ⟨s, a, t⟩)
    (hs : Step act Dispatch.Entry s a t) : Current id t := by
  rcases hs.multiset_cases with
    ⟨k, rfl, hk, hsh, hru⟩ | ⟨k, rest, rfl, hsh, hru, hr'⟩
  · have hm : ∀ k' ∈ t.running, k' = k ∨ k' ∈ s.running := by
      intro k' hk'
      rw [← mem_coe, hru] at hk'
      exact mem_cons.mp hk'
    refine ⟨?_, ?_, ?_⟩
    · rw [hsh]
      exact h.room
    · intro k' hk' c hc hi
      rw [hsh]
      rcases hm k' hk' with rfl | hk'
      · cases k' with
        | claim | send | mark => cases hk
        | _ => cases hc
      · exact h.copies k' hk' c hc hi
    · intro k' hk' c hc
      rw [hsh]
      rcases hm k' hk' with rfl | hk'
      · rw [heldBy_of_entry hk] at hc
        cases hc
      · exact h.held k' hk' c hc
  · have hst := htr.nothingStale hpr
    have hk : k ∈ s.running := by
      rw [← mem_coe, hru]
      exact mem_cons_self k rest
    have hrest : ∀ k' ∈ rest, k' ∈ s.running := by
      intro k' hk'
      rw [← mem_coe, hru]
      exact mem_cons_of_mem hk'
    have ht' := htr
    unfold TrackedIn at ht'
    rw [hru] at ht'
    have hd := act_does id k s.shared
    have hke := fun c => hd.copyOk (c := c) hst ht'
    have hnext : ∀ k' ∈ t.running, (k.act s.shared).2 = .inl k' ∨ k' ∈ rest := by
      intro k' hk'
      rw [← mem_coe, hr'] at hk'
      rcases mem_add.mp hk' with hco | hk'
      · exact .inl (eq_inl_of_mem_continuing (mem_coe.mp hco))
      · exact .inr hk'
    refine ⟨?_, ?_, ?_⟩
    · rw [hsh]
      exact hd.roomOk hst (h.held k hk) h.room
    · intro k' hk' c hc hi
      rw [hsh]
      rcases hnext k' hk' with hr | hk'
      · refine hd.copyOk_next hke (h.copies k hk) c ?_ hi
        rw [hr]
        exact hc
      · exact hke c (h.copies k' (hrest k' hk') c hc hi)
    · intro k' hk' c hc
      rw [hsh]
      rcases hnext k' hk' with hr | hk'
      · refine hd.heldOk_next hda (h.copies k hk) (h.held k hk) ?_
        rw [hr]
        exact hc
      · exact hd.heldOk hst ht' hk' hc (h.held k' (hrest k' hk') c hc)

/-! ## Waiting for the backoff -/

/-- The row is not claimed before a time: that time has come, the row is out of play, its last
failure says so, or its failure is to be marked. -/
inductive Waits (id : String) (time : Int) (s : State Outbox Dispatch) : Prop
  | elapsed (htime : time ≤ s.shared.clock)
  | settled {r : OutboxRecord} (hrow : s.shared.rows id = some r)
      (hstatus : r.status = .sent ∨ r.status = .dead)
  | scheduled {r : OutboxRecord} (hrow : s.shared.rows id = some r) (hstatus : r.status = .failed)
      (htime : time ≤ r.nextAttemptAt)
  | failing {row : OutboxRow} {e : EmailError} {rest : List OutboxRow} {report : OutboxReport}
      (hk : .mark row (.error e) rest report ∈ s.running) (hid : row.id = id)
      (htime : time ≤ s.shared.clock + secs (backoff ((row.attempts + 1 : Nat) : Int)))

theorem Waits.call (h : Waits id time s) (hsh : t.shared = s.shared)
    (hr : ∀ k ∈ s.running, k ∈ t.running) : Waits id time t := by
  cases h with
  | elapsed hti => exact .elapsed (hsh ▸ hti)
  | settled hro hst => exact .settled (hsh ▸ hro) hst
  | scheduled hro hst hti => exact .scheduled (hsh ▸ hro) hst hti
  | failing hk hi hti => exact .failing (hr _ hk) hi (hsh ▸ hti)

theorem waits_of_mark {e : EmailError} (hr : x.rows id = some r) (hi : row.id = id)
    (hti : time ≤ x.clock + secs (backoff ((row.attempts + 1 : Nat) : Int)))
    (hsh : t.shared = x.mark row (.error e)) : Waits id time t := by
  have hm : t.shared.rows id = some (row.marked (.error e) x.clock r) := by
    rw [hsh]
    apply Table.update_of_sel hr
    exact hi.symm
  rcases marked_error row e x.clock r with hd | ⟨hf, -, hnext⟩
  · exact .settled hm (.inr hd)
  · exact .scheduled hm hf (by rw [hnext]; exact hti)

theorem Current.due {copies : List OutboxRow} {report : OutboxReport} (h : Current id s) (hk : k ∈ s.running)
    (hclaim : k = .claim row copies report) (hi : row.id = id) (hd : UpToDate s.shared k)
    (hr : s.shared.rows id = some r) (hc : r.claimable = true) :
    r.nextAttemptAt ≤ s.shared.clock := by
  subst hclaim
  obtain ⟨r', hr', -, -, hdu⟩ := h.copies _ hk row List.mem_cons_self hi
  rw [hr] at hr'
  cases hr'
  exact (hdu (hd r (hi ▸ hr) hc).symm).2

theorem Waits.step (h : Waits id time s) (htr : TrackedIn id tr s) (hcu : Current id s)
    (hpr : Prompt ⟨s, a, t⟩) (hda : ClaimsUpToDate ⟨s, a, t⟩)
    (hs : Step act Dispatch.Entry s a t) : Waits id time t := by
  rcases hs.multiset_cases with
    ⟨k, rfl, hk, hsh, hr⟩ | ⟨k, rest, rfl, hsh, hr, hr'⟩
  · refine h.call hsh fun k' hk' => ?_
    rw [← mem_coe, hr]
    exact mem_cons_of_mem hk'
  · have hsta := htr.nothingStale hpr
    have hk : k ∈ s.running := by
      rw [← mem_coe, hr]
      exact mem_cons_self k rest
    have ht' := htr
    unfold TrackedIn at ht'
    rw [hr] at ht'
    have hd := act_does id k s.shared
    have hcl : s.shared.clock ≤ t.shared.clock := by
      rw [hsh]
      exact hd.clock_le
    cases h with
    | elapsed hti => exact .elapsed (Int.le_trans hti hcl)
    | @settled r hro hst =>
      have hn : r.status ≠ .sending := by rcases hst with h | h <;> rw [h] <;> decide
      rcases hd.row_cases hsta ht' hro hn with hsa | ⟨hc, -⟩
      · refine .settled ?_ hst
        rw [hsh, hsa]
        exact hro
      · unfold OutboxRecord.claimable at hc
        rcases hst with h | h
        · rw [h] at hc
          cases hc
        · rw [h] at hc
          cases hc
    | @scheduled r hro hst hti =>
      have hn : r.status ≠ .sending := by rw [hst]; decide
      rcases hd.row_cases hsta ht' hro hn with
        hsa | ⟨hc, row, copies, report, hclaim, hi⟩
      · refine .scheduled ?_ hst hti
        rw [hsh, hsa]
        exact hro
      · have hdu := hcu.due hk hclaim hi hda hro hc
        exact .elapsed (Int.le_trans (Int.le_trans hti hdu) hcl)
    | @failing row e copies report hm hi hti =>
      rw [← mem_coe, hr] at hm
      rcases mem_cons.mp hm with rfl | hm
      · obtain ⟨r, hro, -⟩ := sending_of_held ht' (mem_cons_self _ _) (held_of_marked hi)
        exact waits_of_mark hro hi hti hsh
      · have hsti : .mark row (.error e) copies report ∈ t.running := by
          rw [← mem_coe, hr']
          exact mem_add.mpr (.inr hm)
        exact .failing hsti hi (Int.le_trans hti (Int.add_le_add_right hcl _))

/-! ## Runs -/

def Untouched (x : Outbox) : Prop :=
  ∀ id r, x.rows id = some r → r.status = .pending ∧ r.attempts = 0 ∧ 1 ≤ r.maxAttempts

theorem trackedIn_run (hn : Untouched x)
    (hru : Run (Step act Dispatch.Entry) ⟨x, []⟩ tr t) (hpr : ∀ e ∈ tr, Prompt e) :
    TrackedIn id tr t := by
  refine hru.invariant_history (I := fun tr s => TrackedIn id tr s) ?_ hpr ?_
  · intro tr s a t h hpr hs
    exact h.step hpr hs
  · show Tracked (x.rows id) 0 0 0 0
    cases hr : x.rows id with
    | none => exact ⟨rfl, rfl, rfl⟩
    | some r =>
      obtain ⟨hpending, hz, -⟩ := hn id r hr
      refine ⟨hz, ?_⟩
      rw [hpending]
      exact ⟨rfl, rfl⟩

theorem attempts_eq_run (id : String) (hr : Run (Step act Dispatch.Entry) ⟨x, []⟩ tr t) :
    attempts id tr = sends id tr + sending id t.running := by
  refine hr.invariant_history (I := fun tr s => attempts id tr = sends id tr + sending id s.running)
    (P := fun _ => True) ?_ (fun _ _ => trivial) rfl
  intro tr s a t h _ hs
  exact attempts_eq_step h hs

theorem current_run (id : String) (hn : Untouched x)
    (hru : Run (Step act Dispatch.Entry) ⟨x, []⟩ tr t) (hpr : ∀ e ∈ tr, Prompt e)
    (hd : ∀ e ∈ tr, ClaimsUpToDate e) : TrackedIn id tr t ∧ Current id t := by
  refine hru.invariant_history (I := fun tr s => TrackedIn id tr s ∧ Current id s)
    (P := fun e => Prompt e ∧ ClaimsUpToDate e) ?_ (fun e he => ⟨hpr e he, hd e he⟩) ?_
  · intro tr s a t h hen hs
    exact ⟨h.1.step hen.1 hs, h.2.step h.1 hen.1 hen.2 hs⟩
  · refine ⟨trackedIn_run hn .nil (fun _ he => nomatch he), ?_, ?_, ?_⟩
    · intro r hr
      obtain ⟨-, hz, hm⟩ := hn id r hr
      rw [hz]
      exact ⟨Nat.zero_le _, fun _ => hm⟩
    · exact fun k hk => nomatch hk
    · exact fun k hk => nomatch hk

theorem claimable_of_begins (h : begins id k (k.act x).2 = true) :
    ∃ row copies report r, k = .claim row copies report ∧ row.id = id ∧
    x.rows id = some r ∧ r.claimable = true := by
  have hd := act_does id k x
  generalize (k.act x).2 = r at h hd
  generalize (k.act x).1 = y at hd
  cases hd with
  | kept _ _ _ _ hbe =>
    rw [hbe] at h
    cases h
  | inserted hk | sent hk | reaped hk =>
    subst hk
    cases h
  | claimed hk hi hold hc => exact ⟨_, _, _, _, hk, hi, hold, hc⟩
  | marked =>
    rw [begins_goOn] at h
    cases h

theorem waits_of_fails {e : Entry (State Outbox Dispatch) (Label Dispatch Reply)}
    (htr : TrackedIn id tr e.pre) (hcu : Current id e.pre)
    (hs : Step act Dispatch.Entry e.pre e.label e.post)
    (hf : runsSection (fails id) e = true) :
    Waits id (e.pre.shared.clock + secs (backoff (attempts id tr))) e.post := by
  unfold runsSection at hf
  rcases hs.shared_cases with ⟨k, hl, -⟩ | ⟨k, hk, hl, hsh⟩
  · rw [hl] at hf
    cases hf
  · rw [hl] at hf hs
    have hm : ∀ k', (k.act e.pre.shared).2 = .inl k' → k' ∈ e.post.running := by
      intro k' hnext
      rw [hnext] at hs
      exact hs.mem_next
    cases k with
    | send row copies report =>
      have hnext := hm _ rfl
      simp only [act] at hf
      cases ha : e.pre.shared.answers e.pre.shared.sends with
      | ok providerId =>
        rw [ha] at hf
        cases hf
      | error error =>
        rw [ha] at hf hnext
        have hi : row.id = id := of_decide_eq_true hf
        obtain ⟨r, hr, -, hat⟩ := hcu.held _ hk row (heldBy_of_current rfl hi)
        unfold TrackedIn at htr
        rw [hr] at htr
        have hc : e.post.shared.clock = e.pre.shared.clock := by
          rw [hsh]
          rfl
        refine .failing hnext hi (Int.le_of_eq ?_)
        rw [hat, htr.1, hc]
    | _ => cases hf

theorem Waits.le_clock (h : Waits id time s) (htr : TrackedIn id tr s)
    (hcu : Current id s) (hk : k ∈ s.running) (hd : UpToDate s.shared k)
    (hbe : begins id k (k.act s.shared).2 = true) :
    time ≤ s.shared.clock := by
  obtain ⟨row, copies, report, r, hclaim, hi, hr, hc⟩ := claimable_of_begins hbe
  have hdu := hcu.due hk hclaim hi hd hr hc
  cases h with
  | elapsed hti => exact hti
  | settled hr' hst =>
    rw [hr] at hr'
    cases hr'
    unfold OutboxRecord.claimable at hc
    rcases hst with hst | hst
    · rw [hst] at hc
      cases hc
    · rw [hst] at hc
      cases hc
  | scheduled hr' _ hti =>
    rw [hr] at hr'
    cases hr'
    exact Int.le_trans hti hdu
  | failing hm hi' _ =>
    obtain ⟨r', hr', hse, -⟩ := sending_of_held htr (mem_coe.mpr hm) (held_of_marked hi')
    rw [hr] at hr'
    cases hr'
    rw [not_claimable_of_sending hse] at hc
    cases hc

theorem waits_run {tr' : Trace} (htr : TrackedIn id tr s) (hc : Current id s)
    (hw : Waits id time s) (hr : Run (Step act Dispatch.Entry) s tr' t)
    (hpr : ∀ e ∈ tr', Prompt e) (hd : ∀ e ∈ tr', ClaimsUpToDate e) :
    TrackedIn id (tr ++ tr') t ∧ Current id t ∧ Waits id time t := by
  refine hr.invariant_history
    (I := fun tr' s => TrackedIn id (tr ++ tr') s ∧ Current id s ∧ Waits id time s)
    (P := fun e => Prompt e ∧ ClaimsUpToDate e) ?_ (fun e he => ⟨hpr e he, hd e he⟩) ?_
  · intro tr' s a t h hen hs
    obtain ⟨htr, hc, hw⟩ := h
    rw [← List.append_assoc]
    exact ⟨htr.step hen.1 hs, hc.step htr hen.1 hen.2 hs, hw.step htr hc hen.1 hen.2 hs⟩
  · rw [List.append_nil]
    exact ⟨htr, hc, hw⟩

/-- An email is accepted once at most, and sent once at most for each attempt. If rows are claimed
with copies that are up to date, it is not attempted more often than it may be, and not again
before the backoff of a failed attempt has elapsed. -/
theorem outbox_discipline {x : Outbox} (hnew : Untouched x)
    (hrun : Run (Step act Dispatch.Entry) ⟨x, []⟩ tr t) (hprompt : ∀ e ∈ tr, Prompt e) :
    (∀ id, acceptances id tr ≤ 1) ∧ (∀ id, sends id tr ≤ attempts id tr) ∧
      ((∀ e ∈ tr, ClaimsUpToDate e) →
        (∀ id r, t.shared.rows id = some r → attempts id tr ≤ r.maxAttempts) ∧
        ∀ id tr1 e1 tr2 e2 tr3, tr = tr1 ++ e1 :: (tr2 ++ e2 :: tr3) →
          runsSection (fails id) e1 = true → runsSection (begins id) e2 = true →
            e1.pre.shared.clock + secs (backoff (attempts id tr1)) ≤ e2.pre.shared.clock) := by
  refine ⟨?_, ?_, ?_⟩
  · intro id
    exact (trackedIn_run hnew hrun hprompt).le_one (accepted_le_held id t.running)
  · intro id
    have heq := attempts_eq_run id hrun
    omega
  · intro hda
    refine ⟨?_, ?_⟩
    · intro id r hr
      obtain ⟨htr, hc⟩ := current_run id hnew hrun hprompt hda
      unfold TrackedIn at htr
      rw [hr] at htr
      rw [← htr.1]
      exact (hc.room r hr).1
    · rintro id tr1 e1 tr2 e2 tr3 rfl hf hbe
      obtain ⟨h1, hs1, hrest⟩ := hrun.around
      obtain ⟨h2, hs2, -⟩ := hrest.around
      have hen : ∀ e ∈ tr1 ++ e1 :: (tr2 ++ e2 :: tr3), Prompt e ∧ ClaimsUpToDate e :=
        fun e he => ⟨hprompt e he, hda e he⟩
      simp only [List.mem_append, List.mem_cons] at hen
      obtain ⟨htr, hc⟩ := current_run id hnew h1
        (fun e he => (hen e (.inl he)).1) fun e he => (hen e (.inl he)).2
      obtain ⟨hpr, hdat⟩ := hen e1 (.inr (.inl rfl))
      have hw := waits_of_fails htr hc hs1 hf
      obtain ⟨htra, hcu, hwa⟩ := waits_run (htr.step hpr hs1) (hc.step htr hpr hdat hs1) hw h2
        (fun e he => (hen e (.inr (.inr (.inl he)))).1)
        fun e he => (hen e (.inr (.inr (.inl he)))).2
      have hd := (hen e2 (.inr (.inr (.inr (.inl rfl))))).2
      unfold runsSection at hbe
      unfold ClaimsUpToDate at hd
      rcases hs2.shared_cases with ⟨k, hl, -⟩ | ⟨k, hk, hl, -⟩
      · rw [hl] at hbe
        cases hbe
      · rw [hl] at hbe hd
        exact hwa.le_clock htra hcu hk hd hbe

private def unreachable : Outbox where
  clock := 0
  rows := fun _ => none
  dedupKeys := fun _ => none
  answers := fun _ => .error (.transport "connection refused")
  sends := 0

private def fetching : Dispatch := .fetch ["a"] 10

private def oneAfterTheOther : List (Move Dispatch) :=
  [.call (.enqueue "a" "reset:1"), .go 0, .call fetching, .go 0, .go 0, .go 0, .go 0,
    .call (.tick (secs 120)), .go 0, .call fetching, .go 0, .go 0, .go 0, .go 0]

private def sixAtOnce : List (Move Dispatch) := [.call (.enqueue "a" "reset:1"), .go 0] ++
    (List.replicate 6 [.call fetching, .go 0]).flatten ++ List.replicate 18 (.go 0)

private theorem untouched_unreachable : Untouched unreachable := fun _ _ h => nomatch h

theorem outbox_discipline_one_after_the_other :
    ∃ x tr t, Untouched x ∧ Run (Step act Dispatch.Entry) ⟨x, []⟩ tr t ∧
      (∀ e ∈ tr, Prompt e) ∧ (∀ e ∈ tr, ClaimsUpToDate e) ∧ attempts "a" tr = 2 ∧
      (∀ id, acceptances id tr ≤ 1) ∧
      ∀ r, t.shared.rows "a" = some r → attempts "a" tr ≤ r.maxAttempts := by
  obtain ⟨tr, t, hr, hpr, hd, htw⟩ : ∃ tr t,
      Run (Step act Dispatch.Entry) ⟨unreachable, []⟩ tr t ∧ (∀ e ∈ tr, Prompt e) ∧
        (∀ e ∈ tr, ClaimsUpToDate e) ∧ attempts "a" tr = 2 :=
    exists_run_of_follow oneAfterTheOther
      (by simp [oneAfterTheOther, fetching, Move.Allowed, Dispatch.Entry]) (by decide +kernel)
  obtain ⟨ha, -, hbo⟩ := outbox_discipline untouched_unreachable hr hpr
  exact ⟨unreachable, tr, t, untouched_unreachable, hr, hpr, hd, htw, ha, (hbo hd).1 "a"⟩

/-- With stale copies a row is attempted a sixth time, and all of it at once. -/
theorem stale_copies_exceed : ∃ x tr t, Untouched x ∧ Run (Step act Dispatch.Entry) ⟨x, []⟩ tr t ∧
      (∀ e ∈ tr, Prompt e) ∧
      (∃ r, t.shared.rows "a" = some r ∧ r.maxAttempts = 5 ∧ sends "a" tr = 6) ∧
      ∃ tr1 e1 tr2 e2 tr3, tr = tr1 ++ e1 :: (tr2 ++ e2 :: tr3) ∧
        runsSection (fails "a") e1 = true ∧ runsSection (begins "a") e2 = true ∧
          e2.pre.shared.clock < e1.pre.shared.clock + secs (backoff (attempts "a" tr1)) := by
  obtain ⟨tr, t, hru, hpr, hma, hsi, hf, hm⟩ : ∃ tr t,
      Run (Step act Dispatch.Entry) ⟨unreachable, []⟩ tr t ∧ (∀ e ∈ tr, Prompt e) ∧
        (t.shared.rows "a").map (·.maxAttempts) = some 5 ∧ sends "a" tr = 6 ∧
        attempts "a" (tr.take 15) = 1 ∧
        ((tr.drop 15).take 3).map (fun e =>
          (runsSection (fails "a") e, runsSection (begins "a") e, e.pre.shared.clock)) =
            [(true, false, 0), (false, false, 0), (false, true, 0)] :=
    exists_run_of_follow sixAtOnce
      (by simp [sixAtOnce, List.replicate, fetching, Move.Allowed, Dispatch.Entry])
      (by decide +kernel)
  obtain ⟨r, hr, hma⟩ := Option.map_eq_some_iff.mp hma
  obtain ⟨e1, rest, hrest, he1, hm⟩ := List.map_eq_cons_iff.mp hm
  obtain ⟨e, rest', rfl, -, hm⟩ := List.map_eq_cons_iff.mp hm
  obtain ⟨e2, rest'', rfl, he2, hm⟩ := List.map_eq_cons_iff.mp hm
  obtain rfl := List.map_eq_nil_iff.mp hm
  have hsp : tr = tr.take 15 ++ e1 :: ([e] ++ e2 :: (tr.drop 15).drop 3) := by
    conv_lhs => rw [← List.take_append_drop 15 tr, ← List.take_append_drop 3 (tr.drop 15)]
    rw [show (tr.drop 15).take 3 = [e1, e, e2] from hrest]
    rfl
  simp only [Prod.mk.injEq] at he1 he2
  have he : e2.pre.shared.clock <
      e1.pre.shared.clock + secs (backoff (attempts "a" (tr.take 15))) := by
    rw [show attempts "a" (tr.take 15) = 1 from hf, he1.2.2, he2.2.2]
    decide
  exact ⟨unreachable, tr, t, untouched_unreachable, hru, hpr, ⟨r, hr, hma, hsi⟩, _, e1, _,
    e2, _, hsp, he1.1, he2.2.1, he⟩

end SniperBot.Email
