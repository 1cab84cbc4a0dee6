import SniperBot.Email.Outbox

/-!
# Deliveries of one row

What a section of a call does to a row and to the copies of it. A claim takes a row only if nobody
delivers it, so that one delivery at most is under way; it does not look at the time or the
attempts of the row, and the copy that it was fetched with may be stale.
-/

namespace SniperBot.Email

open Lib.LeaseTable Lib.Runs Lib.Interleaving Dispatch Option

/-! ## What a section does to a row -/

section

variable (id : String)

def heldBy (k : Dispatch) : Option OutboxRow := k.current.filter fun c => c.id = id

def acceptedBy : Dispatch → Bool
  | .mark row (.ok _) _ _ => row.id = id
  | _ => false

def sendsNext : Dispatch → Bool
  | .send row _ _ => row.id = id
  | _ => false

def begins : Dispatch → Dispatch ⊕ Reply → Bool
  | .claim row _ _, .inl (.send _ _ _) => row.id = id
  | _, _ => false

def accepts : Dispatch → Dispatch ⊕ Reply → Bool
  | .send row _ _, .inl (.mark _ (.ok _) _ _) => row.id = id
  | _, _ => false

def fails : Dispatch → Dispatch ⊕ Reply → Bool
  | .send row _ _, .inl (.mark _ (.error _) _ _) => row.id = id
  | _, _ => false

end

def FreshCopy (id : String) (x : Outbox) (c : OutboxRow) : Prop :=
  ∃ r, x.rows id = some r ∧ r.Due x.clock ∧ c.attempts = r.attempts ∧ c.maxAttempts = r.maxAttempts

inductive Does (id : String) (x : Outbox) (k : Dispatch) : Outbox → Dispatch ⊕ Reply → Prop
  | kept {y : Outbox} {r : Dispatch ⊕ Reply} (hrow : y.rows id = x.rows id)
      (hclock : x.clock ≤ y.clock) (hsend : sendsNext id k = false)
      (hnext : r.elim (sendsNext id) (fun _ => false) = false) (hbegins : begins id k r = false)
      (hheld : r.elim (heldBy id) (fun _ => none) = heldBy id k)
      (haccepted : r.elim (acceptedBy id) (fun _ => false) = acceptedBy id k)
      (hcopies : ∀ c ∈ r.elim waiting (fun _ => []), c.id = id →
        c ∈ k.waiting ∨ FreshCopy id x c) : Does id x k y r
  | inserted {y : Outbox} {r : Reply} {dedupKey : String} (hk : k = .enqueue id dedupKey)
      (hold : x.rows id = none) (hnew : y.rows id = some (.enqueued x.clock))
      (hclock : y.clock = x.clock) : Does id x k y (.inr r)
  | claimed {y : Outbox} {row : OutboxRow} {rest : List OutboxRow} {report : OutboxReport}
      {r : OutboxRecord} (hk : k = .claim row rest report) (hid : row.id = id)
      (hold : x.rows id = some r) (hclaimable : r.claimable = true)
      (hnew : y.rows id = some (r.claimed x.clock)) (hclock : y.clock = x.clock) :
      Does id x k y (.inl (.send row rest report))
  | sent {y : Outbox} {row : OutboxRow} {rest : List OutboxRow} {report : OutboxReport}
      {answer : Answer} (hk : k = .send row rest report) (hid : row.id = id)
      (hrow : y.rows id = x.rows id) (hclock : y.clock = x.clock) :
      Does id x k y (.inl (.mark row answer rest report))
  | marked {y : Outbox} {row : OutboxRow} {answer : Answer} {rest : List OutboxRow}
      {report report' : OutboxReport} (hk : k = .mark row answer rest report) (hid : row.id = id)
      (hnew : y.rows id = (x.rows id).map (row.marked answer x.clock))
      (hclock : y.clock = x.clock) : Does id x k y (goOn rest report')
  | reaped {y : Outbox} {staleAfter : Int} {r : OutboxRecord} (hk : k = .reap staleAfter)
      (hold : x.rows id = some r) (hstale : r.Stale x.clock staleAfter)
      (hclock : y.clock = x.clock) : Does id x k y (.inr .done)

section

variable (id : String) (rest : List OutboxRow) (report : OutboxReport)

theorem goOn_sendsNext : (goOn rest report).elim (sendsNext id) (fun _ => false) = false := by
  cases rest <;> rfl

theorem goOn_heldBy : (goOn rest report).elim (heldBy id) (fun _ => none) = none := by
  cases rest <;> rfl

theorem goOn_acceptedBy : (goOn rest report).elim (acceptedBy id) (fun _ => false) = false := by
  cases rest <;> rfl

theorem goOn_waiting : (goOn rest report).elim waiting (fun _ => []) = rest := by
  cases rest <;> rfl

theorem begins_goOn (k : Dispatch) : begins id k (goOn rest report) = false := by
  cases k <;> cases rest <;> rfl

end

variable {id : String}

theorem heldBy_of_current {k : Dispatch} {row : OutboxRow} (h : k.current = some row)
    (hi : row.id = id) : heldBy id k = some row := by
  unfold heldBy
  rw [h, filter_some, if_pos (decide_eq_true hi)]

theorem heldBy_of_other {k : Dispatch} {row : OutboxRow} (h : k.current = some row)
    (hi : row.id ≠ id) : heldBy id k = none := by
  unfold heldBy
  rw [h, filter_some, if_neg (by rw [decide_eq_false hi]; decide)]

variable {c : OutboxRow} {h m : Nat} {row : Option OutboxRecord}

theorem fresh_of_fetchDue {x : Outbox} {scanned : List String} {batchSize : Nat}
    (h : c ∈ x.fetchDue scanned batchSize) (hid : c.id = id) : FreshCopy id x c := by
  obtain ⟨i, hi, hc⟩ := List.mem_filterMap.mp h
  obtain ⟨r, hr, hd⟩ := Table.of_mem_select hi
  rw [hr] at hc
  cases hc
  subst hid
  exact ⟨r, hr, hd, rfl, rfl⟩

theorem claim_rows_claimed {x : Outbox} {r : OutboxRecord} (h : x.rows id = some r)
    (hc : r.claimable = true) : (x.claim id).1.rows id = some (r.claimed x.clock) := by
  apply Table.update_of_sel h
  exact ⟨rfl, hc⟩

theorem claim_rows_kept {x : Outbox} {i : String}
    (h : ∀ r, x.rows id = some r → ¬ (id = i ∧ r.claimable = true)) :
    (x.claim i).1.rows id = x.rows id := by
  apply Table.update_eq_of_not_sel
  exact h

theorem mark_rows_other {x : Outbox} {row : OutboxRow} (answer : Answer) (h : row.id ≠ id) :
    (x.mark row answer).rows id = x.rows id := by
  apply Table.update_eq_of_not_sel
  exact fun _ _ hi => h hi.symm

theorem reap_rows_kept {x : Outbox} {staleAfter : Int}
    (h : ∀ r, x.rows id = some r → ¬ r.Stale x.clock staleAfter) :
    (x.reapStaleSending staleAfter).rows id = x.rows id := by
  apply Table.update_eq_of_not_sel
  exact h

section

variable (row : OutboxRow) (rest : List OutboxRow) (report : OutboxReport) (x : Outbox)

theorem does_claim : Does id x (.claim row rest report) (act (.claim row rest report) x).1
    (act (.claim row rest report) x).2 := by
  have hrest : ∀ c ∈ (goOn rest (report.count .retry)).elim waiting (fun _ => []),
      c.id = id → c ∈ (claim row rest report).waiting ∨ FreshCopy id x c := by
    intro c hc _
    rw [goOn_waiting] at hc
    exact .inl (List.mem_cons_of_mem row hc)
  simp only [act]
  by_cases hi : row.id = id
  · cases ha : (x.claim row.id).2 with
    | true =>
      obtain ⟨r, hr, hcl⟩ := (any_eq_true _ _).mp ha
      subst hi
      exact .claimed rfl rfl hr hcl (claim_rows_claimed hr hcl) rfl
    | false =>
      refine .kept (claim_rows_kept ?_) (Int.le_refl _) rfl (goOn_sendsNext id _ _)
        (begins_goOn id _ _ _) (goOn_heldBy id _ _) (goOn_acceptedBy id _ _) hrest
      intro r hr hse
      have hn : (x.rows row.id).any (·.claimable) = false := ha
      rw [hi, hr, any_some, hse.2] at hn
      cases hn
  · have hkept := claim_rows_kept (x := x) fun _ _ hse => hi hse.1.symm
    cases ha : (x.claim row.id).2 with
    | true =>
      have hnext : sendsNext id (.send row rest report) = false := decide_eq_false hi
      have hbe : begins id (.claim row rest report) (.inl (.send row rest report)) = false :=
        decide_eq_false hi
      refine .kept hkept (Int.le_refl _) rfl hnext hbe (heldBy_of_other rfl hi) rfl ?_
      intro c hc _
      exact .inl (List.mem_cons_of_mem row hc)
    | false =>
      exact .kept hkept (Int.le_refl _) rfl (goOn_sendsNext id _ _)
        (begins_goOn id _ _ _) (goOn_heldBy id _ _) (goOn_acceptedBy id _ _) hrest

theorem does_send : Does id x (.send row rest report) (act (.send row rest report) x).1
    (act (.send row rest report) x).2 := by
  by_cases hi : row.id = id
  · exact .sent rfl hi rfl rfl
  · have hse : sendsNext id (.send row rest report) = false := decide_eq_false hi
    have ha : acceptedBy id (.mark row (x.answers x.sends) rest report) = false := by
      cases x.answers x.sends with
      | ok providerId => exact decide_eq_false hi
      | error e => rfl
    refine .kept rfl (Int.le_refl _) hse rfl rfl ?_ ha fun c hc _ => .inl hc
    exact (heldBy_of_other rfl hi).trans (heldBy_of_other rfl hi).symm

end

theorem does_mark (row : OutboxRow) (answer : Answer) (rest : List OutboxRow)
    (report : OutboxReport) (x : Outbox) :
    Does id x (.mark row answer rest report) (act (.mark row answer rest report) x).1
    (act (.mark row answer rest report) x).2 := by
  simp only [act]
  by_cases hi : row.id = id
  · refine .marked rfl hi ?_ rfl
    show (x.rows id).map _ = _
    simp only [hi, if_true]
  · have ha : acceptedBy id (.mark row answer rest report) = false := by
      cases answer with
      | ok providerId => exact decide_eq_false hi
      | error e => rfl
    refine .kept (mark_rows_other answer hi) (Int.le_refl _) rfl
      (goOn_sendsNext id _ _) (begins_goOn id _ _ _) ?_ ?_ ?_
    · rw [goOn_heldBy, heldBy_of_other rfl hi]
    · rw [goOn_acceptedBy, ha]
    · intro c hc _
      rw [goOn_waiting] at hc
      exact .inl hc

theorem does_enqueue (i dedupKey : String) (x : Outbox) :
    Does id x (.enqueue i dedupKey) (act (.enqueue i dedupKey) x).1
    (act (.enqueue i dedupKey) x).2 := by
  simp only [act]
  unfold Outbox.enqueue
  split_ifs with he
  · exact .kept rfl (Int.le_refl _) rfl rfl rfl rfl rfl fun c hc => nomatch hc
  · by_cases hi : id = i
    · subst hi
      obtain ⟨-, hn⟩ := not_or.mp he
      refine .inserted rfl ?_ (if_pos rfl) rfl
      rw [not_isSome_iff_eq_none] at hn
      exact hn
    · exact .kept (if_neg hi) (Int.le_refl _) rfl rfl rfl rfl rfl fun c hc => nomatch hc

theorem act_does (id : String) (k : Dispatch) (x : Outbox) : Does id x k (k.act x).1 (k.act x).2 := by
  cases k with
  | fetch scanned batchSize =>
    refine .kept rfl (Int.le_refl _) rfl (goOn_sendsNext id _ _) (begins_goOn id _ _ _)
      (goOn_heldBy id _ _) (goOn_acceptedBy id _ _) ?_
    intro c hc hi
    rw [show (act (.fetch scanned batchSize) x).2 = goOn _ _ from rfl, goOn_waiting] at hc
    exact .inr (fresh_of_fetchDue hc hi)
  | claim row rest report => exact does_claim row rest report x
  | send row rest report => exact does_send row rest report x
  | mark row answer rest report => exact does_mark row answer rest report x
  | reap staleAfter =>
    by_cases hst : ∃ r, x.rows id = some r ∧ r.Stale x.clock staleAfter
    · obtain ⟨r, hr, hst⟩ := hst
      exact .reaped rfl hr hst rfl
    · have hkept := reap_rows_kept fun r hr hse => hst ⟨r, hr, hse⟩
      exact .kept hkept (Int.le_refl _) rfl rfl rfl rfl rfl fun c hc => nomatch hc
  | enqueue i dedupKey => exact does_enqueue i dedupKey x
  | tick time =>
    exact .kept rfl (Int.le_max_left _ _) rfl rfl rfl rfl rfl fun c hc => nomatch hc

theorem Does.clock_le {x y : Outbox} {k : Dispatch} {r : Dispatch ⊕ Reply} (hd : Does id x k y r) :
    x.clock ≤ y.clock := by
  cases hd with
  | kept _ hc => exact hc
  | inserted _ _ _ hc | claimed _ _ _ _ _ hc | sent _ _ _ hc | marked _ _ _ hc
  | reaped _ _ _ hc => exact Int.le_of_eq hc.symm

/-! ## One delivery at a time -/

section

variable (id : String)

variable (ks : Multiset Dispatch)

/-- How many calls deliver the row, how many of them have been accepted, and how many are about
to send. -/
def held : Nat := population (fun k => (heldBy id k).isSome) ks

def accepted : Nat := population (acceptedBy id) ks

def sending : Nat := population (sendsNext id) ks

theorem held_cons (k : Dispatch) (ks : Multiset Dispatch) :
    held id (k ::ₘ ks) = held id ks + (heldBy id k).isSome.toNat :=
  population_cons _ _ _

theorem accepted_cons (k : Dispatch) (ks : Multiset Dispatch) :
    accepted id (k ::ₘ ks) = accepted id ks + (acceptedBy id k).toNat :=
  population_cons _ _ _

theorem held_continuing (r : Dispatch ⊕ Reply) (rest : Multiset Dispatch) :
    held id ((continuing r : Multiset Dispatch) + rest) = held id rest +
    (r.elim (heldBy id) fun _ => none).isSome.toNat := by
  unfold held
  rw [population_continuing]
  cases r <;> rfl

theorem accepted_continuing (r : Dispatch ⊕ Reply) (rest : Multiset Dispatch) :
    accepted id ((continuing r : Multiset Dispatch) + rest) = accepted id rest +
    (r.elim (acceptedBy id) fun _ => false).toNat :=
  population_continuing _ _ _

end

theorem heldBy_of_accepted {k : Dispatch} (h : acceptedBy id k = true) :
    (heldBy id k).isSome = true := by
  unfold acceptedBy at h
  split at h
  · rw [heldBy_of_current rfl (of_decide_eq_true h)]
    rfl
  · cases h

theorem accepted_le_held (id : String) (ks : Multiset Dispatch) : accepted id ks ≤ held id ks :=
  population_mono (fun _ => heldBy_of_accepted) ks

/-- A row, the attempts and acceptances so far, and the calls that deliver it. -/
def Tracked (row : Option OutboxRecord) (n a h m : Nat) : Prop :=
  match row with
  | none => n = 0 ∧ a = 0 ∧ h = 0
  | some r => r.attempts = n ∧
    match r.status with
    | .pending | .failed | .dead => h = 0 ∧ a = 0
    | .sending => h = 1 ∧ a = m
    | .sent => h = 0 ∧ a = 1

theorem Tracked.status_sending {r : OutboxRecord} {n a : Nat} (ht : Tracked (some r) n a h m)
    (hh : 0 < h) : r.status = .sending ∧ h = 1 ∧ a = m := by
  obtain ⟨-, hst⟩ := ht
  split at hst
  · omega
  · omega
  · omega
  · next hse => exact ⟨hse, hst⟩
  · omega

theorem Tracked.of_held {n a : Nat} (ht : Tracked row n a h m) (hh : 0 < h) :
    ∃ r, row = some r ∧ r.attempts = n ∧ r.status = .sending ∧ h = 1 ∧ a = m := by
  cases row with
  | none =>
    obtain ⟨-, -, hn⟩ := ht
    omega
  | some r => exact ⟨r, rfl, ht.1, ht.status_sending hh⟩

theorem Tracked.of_claimable {r : OutboxRecord} {n a : Nat} (ht : Tracked (some r) n a h m)
    (hc : r.claimable = true) : h = 0 ∧ a = 0 := by
  obtain ⟨-, hst⟩ := ht
  unfold OutboxRecord.claimable at hc
  rw [Bool.or_eq_true, decide_eq_true_eq, decide_eq_true_eq] at hc
  rcases hc with hpending | hf
  · rw [hpending] at hst
    exact hst
  · rw [hf] at hst
    exact hst

theorem Tracked.le_one {n a : Nat} (ht : Tracked row n a h m) (hle : m ≤ h) : a ≤ 1 := by
  cases row with
  | none =>
    obtain ⟨-, ha, -⟩ := ht
    omega
  | some r =>
    obtain ⟨-, hst⟩ := ht
    split at hst <;> omega

@[simp]
theorem marked_attempts (row : OutboxRow) (answer : Answer) (now : Int) (r : OutboxRecord) :
    (row.marked answer now r).attempts = r.attempts := by
  unfold OutboxRow.marked
  cases answer with
  | ok providerId => rfl
  | error e =>
    dsimp only
    split_ifs <;> rfl

@[simp]
theorem marked_maxAttempts (row : OutboxRow) (answer : Answer) (now : Int) (r : OutboxRecord) :
    (row.marked answer now r).maxAttempts = r.maxAttempts := by
  unfold OutboxRow.marked
  cases answer with
  | ok providerId => rfl
  | error e =>
    dsimp only
    split_ifs <;> rfl

theorem marked_error (row : OutboxRow) (e : EmailError) (now : Int) (r : OutboxRecord) :
    (row.marked (.error e) now r).status = .dead ∨
    (row.marked (.error e) now r).status = .failed ∧ row.attempts + 1 < row.maxAttempts ∧
      (row.marked (.error e) now r).nextAttemptAt =
        now + secs (backoff ((row.attempts + 1 : Nat) : Int)) := by
  unfold OutboxRow.marked
  dsimp only
  split_ifs with hl
  · exact .inl rfl
  · refine .inr ⟨rfl, ?_, rfl⟩
    omega

variable {x y : Outbox} {k : Dispatch} {r : Dispatch ⊕ Reply} {n a : Nat}
  {rest : Multiset Dispatch}

def NothingStale (id : String) (x : Outbox) (k : Dispatch) : Prop :=
  ∀ staleAfter, k = .reap staleAfter → ∀ record, x.rows id = some record →
    ¬ record.Stale x.clock staleAfter

theorem held_of_marked {row : OutboxRow} {answer : Answer} {rest : List OutboxRow}
    {report : OutboxReport} (hi : row.id = id) :
    heldBy id (.mark row answer rest report) = some row := heldBy_of_current rfl hi

theorem Does.tracked (hd : Does id x k y r) (hfr : NothingStale id x k)
    (h : Tracked (x.rows id) n a (held id (k ::ₘ rest)) (accepted id (k ::ₘ rest))) :
    Tracked (y.rows id) (n + (begins id k r).toNat) (a + (accepts id k r).toNat)
    (held id ((continuing r : Multiset Dispatch) + rest))
    (accepted id ((continuing r : Multiset Dispatch) + rest)) := by
  have hle := accepted_le_held id rest
  rw [held_continuing, accepted_continuing]
  rw [held_cons, accepted_cons] at h
  cases hd with
  | kept hro _ hsen _ hbe hh hac _ =>
    have hacc : accepts id k r = false := by
      unfold accepts
      split
      · exact hsen
      · rfl
    rw [hro, hbe, hacc, hh, hac]
    exact h
  | inserted hk hold hne _ =>
    subst hk
    rw [hold] at h
    obtain ⟨rfl, rfl, hn⟩ := h
    rw [hne]
    exact ⟨rfl, hn, rfl⟩
  | @claimed row copies report r hk hi hold hc hne _ =>
    subst hk hi
    rw [hold] at h
    obtain ⟨hh, ha⟩ := h.of_claimable hc
    rw [hne]
    simp only [begins, accepts, heldBy, acceptedBy, current, Sum.elim_inl,
      filter_some, decide_true, if_true] at hh ⊢
    refine ⟨congrArg (· + 1) h.1, ?_⟩
    show held row.id rest + 1 = 1 ∧ a + 0 = accepted row.id rest + 0
    exact ⟨congrArg (· + 1) hh, by omega⟩
  | @sent row copies report answer hk hi hro _ =>
    subst hk hi
    obtain ⟨record, hr, hat, hse, ho, ha⟩ := h.of_held (by simp [heldBy, current])
    rw [hro, hr]
    refine ⟨hat, ?_⟩
    rw [hse]
    cases answer <;> simp [accepts, heldBy, acceptedBy, current] at ho ha ⊢ <;> omega
  | @marked row answer copies report report' hk hi hne _ =>
    subst hk hi
    obtain ⟨record, hr, hat, hse, ho, ha⟩ := h.of_held (by simp [heldBy, current])
    rw [hne, hr, begins_goOn, goOn_heldBy, goOn_acceptedBy]
    refine ⟨(marked_attempts row answer x.clock record).trans hat, ?_⟩
    cases answer with
    | ok providerId =>
      simp [accepts, heldBy, acceptedBy, current, OutboxRow.marked] at ho ha ⊢
      omega
    | error e =>
      rcases marked_error row e x.clock record with hde | ⟨hf, -, -⟩
      · simp [accepts, heldBy, acceptedBy, current, hde] at ho ha ⊢
        omega
      · simp [accepts, heldBy, acceptedBy, current, hf] at ho ha ⊢
        omega
  | reaped hk hold hst _ => exact absurd hst (hfr _ hk _ hold)

/-! ## Copies that are up to date -/

/-- What a copy still says of its row: if nobody has claimed the row since the fetch, it is due. -/
def CopyOk (row : Option OutboxRecord) (clock : Int) (c : OutboxRow) : Prop :=
  ∃ r, row = some r ∧ c.maxAttempts = r.maxAttempts ∧ c.attempts ≤ r.attempts ∧
    (c.attempts = r.attempts → r.Due clock)

/-- The copy that is being delivered was up to date when its row was claimed. -/
def HeldOk (row : Option OutboxRecord) (c : OutboxRow) : Prop :=
  ∃ r, row = some r ∧ c.maxAttempts = r.maxAttempts ∧ c.attempts + 1 = r.attempts

/-- The row has attempts left, at least one if it may be claimed. -/
def RoomOk (row : Option OutboxRecord) : Prop := ∀ r, row = some r →
    r.attempts ≤ r.maxAttempts ∧ (r.claimable = true → r.attempts < r.maxAttempts)

/-- A row that is claimed has the attempts of the copy. -/
def UpToDate (x : Outbox) : Dispatch → Prop
  | .claim row _ _ => ∀ r, x.rows row.id = some r → r.claimable = true → r.attempts = row.attempts
  | _ => True

theorem FreshCopy.copyOk (h : FreshCopy id x c) (hro : y.rows id = x.rows id)
    (hc : x.clock ≤ y.clock) : CopyOk (y.rows id) y.clock c := by
  obtain ⟨record, hr, hd, ha, hm⟩ := h
  refine ⟨record, hro.trans hr, hm, Nat.le_of_eq ha, fun _ => ⟨hd.1, ?_⟩⟩
  exact Int.le_trans hd.2 hc

theorem CopyOk.later {clock clock' : Int} (h : CopyOk row clock c) (hle : clock ≤ clock') :
    CopyOk row clock' c := by
  obtain ⟨record, hr, hm, ha, hd⟩ := h
  refine ⟨record, hr, hm, ha, fun he => ⟨(hd he).1, ?_⟩⟩
  exact Int.le_trans (hd he).2 hle

theorem sending_of_held {ks : Multiset Dispatch} (h : Tracked (x.rows id) n a (held id ks) m)
    (hk : k ∈ ks) {row : OutboxRow} (hh : heldBy id k = some row) :
    ∃ record, x.rows id = some record ∧ record.status = .sending ∧ held id ks = 1 := by
  have hpos : 0 < held id ks := population_pos hk (by rw [hh]; rfl)
  obtain ⟨record, hr, -, hse, ho, -⟩ := h.of_held hpos
  exact ⟨record, hr, hse, ho⟩

theorem not_claimable_of_sending {record : OutboxRecord} (h : record.status = .sending) :
    record.claimable = false := by
  unfold OutboxRecord.claimable
  rw [h]
  rfl

section

variable (hd : Does id x k y r) (hf : NothingStale id x k)
  (htr : Tracked (x.rows id) n a (held id (k ::ₘ rest)) m)

include hd hf htr

theorem Does.row_cases {record : OutboxRecord}
    (hr : x.rows id = some record) (hsta : record.status ≠ .sending) :
    y.rows id = x.rows id ∨ record.claimable = true ∧
    ∃ row copies report, k = .claim row copies report ∧ row.id = id := by
  cases hd with
  | kept hro | sent _ _ hro => exact .inl hro
  | inserted _ hold =>
    rw [hold] at hr
    cases hr
  | claimed hk hi hold hc =>
    rw [hold] at hr
    cases hr
    exact .inr ⟨hc, _, _, _, hk, hi⟩
  | marked hk hi =>
    subst hk
    obtain ⟨record', hr', hse, -⟩ :=
      sending_of_held htr (Multiset.mem_cons_self _ _) (held_of_marked hi)
    rw [hr] at hr'
    cases hr'
    exact absurd hse hsta
  | reaped hk hold hst _ => exact absurd hst (hf _ hk _ hold)

theorem Does.copyOk (h : CopyOk (x.rows id) x.clock c) : CopyOk (y.rows id) y.clock c := by
  cases hd with
  | kept hro hc =>
    rw [hro]
    exact h.later hc
  | inserted _ hold =>
    obtain ⟨record, hr, -⟩ := h
    rw [hold] at hr
    cases hr
  | claimed _ _ hold _ hn _ =>
    obtain ⟨record, hr, hm, ha, -⟩ := h
    rw [hold] at hr
    cases hr
    refine ⟨_, hn, hm, Nat.le_succ_of_le ha, fun he => ?_⟩
    have he : c.attempts = _ + 1 := he
    omega
  | sent _ _ hro hc =>
    rw [hro, hc]
    exact h
  | @marked row answer copies report report' hk hi hn hc =>
    subst hk
    obtain ⟨record, hr, hse, -⟩ :=
      sending_of_held htr (Multiset.mem_cons_self _ _) (held_of_marked hi)
    obtain ⟨record', hr', hm, ha, hdu⟩ := h
    rw [hr] at hr'
    cases hr'
    rw [hn, hr]
    refine ⟨_, rfl, ?_, ?_, ?_⟩
    · rw [marked_maxAttempts]
      exact hm
    · rw [marked_attempts]
      exact ha
    · rw [marked_attempts]
      intro he
      have hcl := (hdu he).1
      rw [not_claimable_of_sending hse] at hcl
      cases hcl
  | reaped hk hold hst _ => exact absurd hst (hf _ hk _ hold)

theorem Does.heldOk {k' : Dispatch} (hk' : k' ∈ rest)
    (hh : heldBy id k' = some c) (h : HeldOk (x.rows id) c) : HeldOk (y.rows id) c := by
  cases hd with
  | kept hro | sent _ _ hro _ =>
    rw [hro]
    exact h
  | inserted _ hold =>
    obtain ⟨record, hr, -⟩ := h
    rw [hold] at hr
    cases hr
  | claimed _ _ hold hc _ _ =>
    obtain ⟨record, hr, hse, -⟩ := sending_of_held htr (Multiset.mem_cons_of_mem hk') hh
    rw [hold] at hr
    cases hr
    rw [not_claimable_of_sending hse] at hc
    cases hc
  | marked _ _ hn _ =>
    obtain ⟨record, hr, hm, ha⟩ := h
    rw [hn, hr]
    exact ⟨_, rfl, by rw [marked_maxAttempts]; exact hm, by rw [marked_attempts]; exact ha⟩
  | reaped hk hold hst _ => exact absurd hst (hf _ hk _ hold)

end

theorem Does.heldOk_next (hd : Does id x k y r) (hda : UpToDate x k)
    (hco : ∀ c ∈ k.waiting, c.id = id → CopyOk (x.rows id) x.clock c)
    (hh : ∀ c, heldBy id k = some c → HeldOk (x.rows id) c)
    (hc : (r.elim (heldBy id) fun _ => none) = some c) : HeldOk (y.rows id) c := by
  cases hd with
  | kept hr _ _ _ _ hsa =>
    rw [hr]
    exact hh c (hsa ▸ hc)
  | inserted | reaped => cases hc
  | @claimed row copies report record hk hi hold hcl hn _ =>
    subst hk
    rw [Sum.elim_inl, heldBy_of_current rfl hi] at hc
    cases hc
    obtain ⟨record', hr', hm, -, -⟩ := hco c List.mem_cons_self hi
    rw [hold] at hr'
    cases hr'
    have ha := hda record (hi ▸ hold) hcl
    refine ⟨_, hn, hm, ?_⟩
    show c.attempts + 1 = record.attempts + 1
    rw [ha]
  | @sent row copies report answer hk hi hr _ =>
    subst hk
    rw [Sum.elim_inl, held_of_marked hi] at hc
    cases hc
    rw [hr]
    exact hh c (heldBy_of_current rfl hi)
  | marked =>
    rw [goOn_heldBy] at hc
    cases hc

theorem Does.copyOk_next (hd : Does id x k y r)
    (hke : ∀ c, CopyOk (x.rows id) x.clock c → CopyOk (y.rows id) y.clock c)
    (hco : ∀ c ∈ k.waiting, c.id = id → CopyOk (x.rows id) x.clock c) :
    ∀ c ∈ r.elim waiting (fun _ => []), c.id = id → CopyOk (y.rows id) y.clock c := by
  intro c hc hi
  cases hd with
  | kept hr hcl _ _ _ _ _ hw =>
    rcases hw c hc hi with hold | hf
    · exact hke c (hco c hold hi)
    · exact hf.copyOk hr hcl
  | inserted | reaped => cases hc
  | claimed hk =>
    subst hk
    exact hke c (hco c (List.mem_cons_of_mem _ hc) hi)
  | sent hk =>
    subst hk
    exact hke c (hco c hc hi)
  | marked hk =>
    subst hk
    rw [goOn_waiting] at hc
    exact hke c (hco c hc hi)

theorem Does.roomOk (hd : Does id x k y r) (hf : NothingStale id x k)
    (hh : ∀ c, heldBy id k = some c → HeldOk (x.rows id) c) (h : RoomOk (x.rows id)) :
    RoomOk (y.rows id) := by
  cases hd with
  | kept hro | sent _ _ hro _ =>
    rw [hro]
    exact h
  | inserted _ _ hn _ =>
    rw [hn]
    rintro record ⟨rfl⟩
    exact ⟨Nat.zero_le 5, fun _ => Nat.succ_pos 4⟩
  | @claimed row copies report record _ _ hold hc hn _ =>
    have hl := (h record hold).2 hc
    rw [hn]
    rintro record' ⟨rfl⟩
    exact ⟨hl, fun hse => nomatch hse⟩
  | @marked row answer copies report report' hk hi hn _ =>
    subst hk
    obtain ⟨record, hr, hm, ha⟩ := hh row (held_of_marked hi)
    rw [hn, hr]
    rintro record' ⟨rfl⟩
    rw [marked_attempts, marked_maxAttempts]
    refine ⟨(h record hr).1, ?_⟩
    cases answer with
    | ok providerId => exact fun hc => nomatch hc
    | error e =>
      intro hc
      rcases marked_error row e x.clock record with hde | ⟨-, hl, -⟩
      · unfold OutboxRecord.claimable at hc
        rw [hde] at hc
        cases hc
      · omega
  | reaped hk hold hst _ => exact absurd hst (hf _ hk _ hold)

end SniperBot.Email
